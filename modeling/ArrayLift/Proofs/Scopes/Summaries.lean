import ArrayLift.Resolution.Analysis
import Mathlib.Data.String.Basic

/-! The names in a scope. A set of names has each one once and in order, whatever is put into it, and the summary of
a scope has the names of its occurrences by their roles and leaves everything else in the scope as it is. -/
namespace ArrayLift

namespace NameSet

/-- The names with a property, each one once and in order. -/
structure Lists (names : NameSet) (holds : String → Prop) : Prop where
  ordered : names.Pairwise (· < ·)
  mem_iff : ∀ name, name ∈ names ↔ holds name

attribute [local simp] insert

theorem mem_insert {name other : String} {names : NameSet} :
    other ∈ names.insert name ↔ other = name ∨ other ∈ names := by
  induction names with
  | nil => simp
  | cons first rest ih =>
    rw [insert]
    split
    · exact List.mem_cons
    · split
      · next same => simp [same]
      · simp only [List.mem_cons, ih, or_left_comm]

theorem ordered_insert {names : NameSet} (ordered : names.Pairwise (· < ·)) (name : String) :
    (names.insert name).Pairwise (· < ·) := by
  induction names with
  | nil => exact List.pairwise_singleton _ name
  | cons first rest ih =>
    obtain ⟨before, others⟩ := List.pairwise_cons.mp ordered
    rw [insert]
    split
    · next less =>
      refine List.pairwise_cons.mpr ⟨fun other member => ?_, ordered⟩
      rcases List.mem_cons.mp member with rfl | later
      · exact less
      · exact lt_trans less (before other later)
    · next notLess =>
      split
      · exact ordered
      · next different =>
        have greater : first < name := lt_of_le_of_ne (not_lt.mp notLess) (Ne.symm different)
        refine List.pairwise_cons.mpr ⟨fun other member => ?_, ih others⟩
        rcases mem_insert.mp member with rfl | later
        · exact greater
        · exact before other later

variable {names : NameSet} {holds : String → Prop}

theorem Lists.insert (lists : names.Lists holds) (name : String) :
    (names.insert name).Lists fun other => other = name ∨ holds other :=
  ⟨ordered_insert lists.ordered name, fun other => mem_insert.trans (or_congr_right (lists.mem_iff other))⟩

theorem Lists.congr {other : String → Prop} (lists : names.Lists holds) (same : ∀ name, holds name ↔ other name) :
    names.Lists other :=
  ⟨lists.ordered, fun name => (lists.mem_iff name).trans (same name)⟩

end NameSet

namespace Scope

/-- The scope with no names in it. -/
def blank (scope : Scope) : Scope :=
  .fresh scope.id scope.kind scope.name scope.line

/-- The names that are declared in the scope. -/
def declaredNames (scope : Scope) : Declaration → NameSet
  | .global => scope.globalNames
  | .persistent => scope.persistentNames

/-- The names of its variables, or those of its functions. -/
def namesOf (scope : Scope) (isVariable : Bool) : NameSet :=
  if isVariable then scope.variableNames else scope.functionNames

/-- What an occurrence adds to the scope with a number. -/
def noting (id : ScopeId) (scope : Scope) (occurrence : Occurrence) : Scope :=
  if occurrence.kind = .functionName ∨ occurrence.scope ≠ id then scope
  else if occurrence.role = .variable then { scope with variableNames := scope.variableNames.insert occurrence.name }
  else { scope with functionNames := scope.functionNames.insert occurrence.name }

end Scope

/-- The occurrence has its name in the summary of a scope, among the variables or among the functions. -/
def Occurrence.Counts (occurrence : Occurrence) (scope : ScopeId) (isVariable : Bool) : Prop :=
  occurrence.scope = scope ∧ occurrence.kind ≠ .functionName ∧ (occurrence.role = .variable ↔ isVariable = true)

namespace Scope

variable (id : ScopeId) (scope : Scope)

theorem blank_noting (occurrence : Occurrence) : (scope.noting id occurrence).blank = scope.blank := by
  unfold noting
  split
  · rfl
  · split <;> rfl

theorem declaredNames_noting (occurrence : Occurrence) (declaration : Declaration) :
    (scope.noting id occurrence).declaredNames declaration = scope.declaredNames declaration := by
  unfold noting
  split
  · rfl
  · split <;> rfl

theorem lists_noting {holds : String → Prop} {isVariable : Bool} (lists : (scope.namesOf isVariable).Lists holds)
    (occurrence : Occurrence) : ((scope.noting id occurrence).namesOf isVariable).Lists fun name =>
      holds name ∨ (occurrence.Counts id isVariable ∧ occurrence.name = name) := by
  have grown := lists.insert occurrence.name
  unfold noting Occurrence.Counts
  split
  · next elsewhere => exact lists.congr fun name => by tauto
  · next here =>
    obtain ⟨named, same⟩ := not_or.mp here
    split <;> cases isVariable
    · exact lists.congr fun name => by simp_all
    · exact grown.congr fun name => by simp_all [eq_comm, or_comm]
    · exact grown.congr fun name => by simp_all [eq_comm, or_comm]
    · exact lists.congr fun name => by simp_all

/-- What all occurrences add to a scope: its heading stays, so do the declared names, and the names are those of the
occurrences that count. -/
structure Noted (occurrences : List Occurrence) (before after : Scope) : Prop where
  blank : after.blank = before.blank
  declaredNames : ∀ declaration, after.declaredNames declaration = before.declaredNames declaration
  names : ∀ {isVariable : Bool} {holds : String → Prop}, (before.namesOf isVariable).Lists holds →
    (after.namesOf isVariable).Lists fun name =>
      holds name ∨ ∃ occurrence ∈ occurrences, occurrence.Counts id isVariable ∧ occurrence.name = name

theorem noted_foldl (occurrences : List Occurrence) :
    Noted id occurrences scope (occurrences.foldl (noting id) scope) := by
  induction occurrences generalizing scope with
  | nil => exact ⟨rfl, fun _ => rfl, fun lists => lists.congr fun _ => by simp⟩
  | cons first rest ih =>
    obtain ⟨blank, declared, names⟩ := ih (scope.noting id first)
    refine ⟨blank.trans (scope.blank_noting id first),
      fun declaration => (declared declaration).trans (scope.declaredNames_noting id first declaration),
      fun lists => (names (lists_noting id scope lists first)).congr fun name => ?_⟩
    simp only [List.exists_mem_cons_iff, or_assoc]

end Scope

namespace ScopeTable

theorem scopes_summarize (table : ScopeTable) (occurrence : Occurrence) (id : ScopeId) :
    (table.summarize occurrence).scopes[id]? = table.scopes[id]?.map (Scope.noting id · occurrence) := by
  unfold summarize
  split
  · next named => simp [Scope.noting, named]
  · next named =>
    by_cases same : occurrence.scope = id
    · subst same
      simp [modifyScope, Scope.noting, named]
    · simp [modifyScope, Scope.noting, same]

/-- The summary of a table is the summary of each of its scopes. -/
theorem scopes_withSummaries (table : ScopeTable) (id : ScopeId) :
    table.withSummaries.scopes[id]? = table.scopes[id]?.map (table.occurrences.foldl (Scope.noting id)) := by
  have each (occurrences : List Occurrence) (table : ScopeTable) :
      (occurrences.foldl summarize table).scopes[id]? =
        table.scopes[id]?.map (occurrences.foldl (Scope.noting id)) := by
    induction occurrences generalizing table with
    | nil => simp
    | cons first rest ih =>
      rw [List.foldl_cons, ih, scopes_summarize, Option.map_map]
      rfl
  exact each table.occurrences table

end ScopeTable
end ArrayLift
