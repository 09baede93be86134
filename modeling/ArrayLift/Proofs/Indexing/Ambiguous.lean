import ArrayLift.Proofs.Arity.Agreement
import ArrayLift.Proofs.Indexing.Accesses
import ArrayLift.Proofs.Reaching.Names
import ArrayLift.Proofs.Reaching.WellFormed

/-! The reports of names that are indexed as only arrays are. There is one for each access of a name that nothing
defines before it and no function has, if its arguments hold an end marker or a bare colon. The search for these goes
through operators alone: a marker inside a matrix, a cell array or a selector is missed. -/
namespace ArrayLift

open DefUse

/-! Array syntax. -/

/-- The end of an array, or all of it. -/
def Expr.isMarker : Expr → Bool
  | .operation _ spelling operands _ =>
    match Operator.ofSpelling? spelling with
    | some .lastIndex => true
    | some .colon | some .range => operands.isEmpty
    | _ => false
  | _ => false

/-- A marker stands in the expression, but not in the arguments of an index inside it. -/
inductive Expr.Marked : Expr → Prop where
  | here {expr : Expr} (marker : expr.isMarker = true) : Marked expr
  | operand {line : SourceLine} {spelling : String} {operands : List Expr} {result : Option Ident} {operand : Expr}
    (member : operand ∈ operands) (marked : Marked operand) : Marked (.operation line spelling operands result)
  | element {line : SourceLine} {brackets : Brackets} {rows : List (List Expr)} {row : List Expr} {element : Expr}
    (inRows : row ∈ rows) (inRow : element ∈ row) (marked : Marked element) : Marked (.rows line brackets rows)
  | object {line : SourceLine} {object : Expr} {name : String} (marked : Marked object) :
    Marked (.field line object name)
  | selected {line : SourceLine} {object selector : Expr} (marked : Marked object) :
    Marked (.dynamicField line object selector)
  | selector {line : SourceLine} {object selector : Expr} (marked : Marked selector) :
    Marked (.dynamicField line object selector)
  | body {line : SourceLine} {params : List Ident} {body : Expr} (marked : Marked body) :
    Marked (.lambda line params body)
  | target {line : SourceLine} {form : IndexForm} {target : Expr} {arguments : List Expr} (marked : Marked target) :
    Marked (.index line form target arguments)

/-- A marker stands in the expression with nothing but operators around it. -/
inductive Expr.MarkedOpenly : Expr → Prop where
  | here {expr : Expr} (marker : expr.isMarker = true) : MarkedOpenly expr
  | operand {line : SourceLine} {spelling : String} {operands : List Expr} {result : Option Ident} {operand : Expr}
    (member : operand ∈ operands) (marked : MarkedOpenly operand) :
    MarkedOpenly (.operation line spelling operands result)

theorem Expr.MarkedOpenly.marked {expr : Expr} (openly : expr.MarkedOpenly) : expr.Marked := by
  induction openly with
  | here marker => exact .here marker
  | operand member _ ih => exact .operand member ih

/-- What the search looks at in an operation: whether it is a marker, and its operands. -/
theorem Expr.hasArrayIndex_operation (line : SourceLine) (spelling : String) (operands : List Expr)
    (result : Option Ident) : (Expr.operation line spelling operands result).hasArrayIndex =
      ((Expr.operation line spelling operands result).isMarker || Expr.anyArrayIndex operands) := by
  rw [Expr.hasArrayIndex, Expr.isMarker]
  generalize Operator.ofSpelling? spelling = operator
  split <;> simp

mutual
theorem Expr.hasArrayIndex_iff : ∀ expr : Expr, expr.hasArrayIndex = true ↔ expr.MarkedOpenly
  | .operation line spelling operands result => by
    rw [Expr.hasArrayIndex_operation, Bool.or_eq_true, Expr.anyArrayIndex_iff operands]
    constructor
    · rintro (marker | ⟨operand, member, marked⟩)
      · exact .here marker
      · exact .operand member marked
    · rintro (marker | ⟨member, marked⟩)
      · exact .inl marker
      · exact .inr ⟨_, member, marked⟩
  | .ident .. | .literal .. | .field .. | .dynamicField .. | .index .. | .rows .. | .lambda .. => by
    refine iff_of_false (by simp [Expr.hasArrayIndex]) fun openly => ?_
    cases openly with
    | here marker => cases marker

theorem Expr.anyArrayIndex_iff : ∀ exprs : List Expr,
    Expr.anyArrayIndex exprs = true ↔ ∃ expr ∈ exprs, expr.MarkedOpenly
  | [] => by simp [Expr.anyArrayIndex]
  | expr :: rest => by
    simp only [Expr.anyArrayIndex, Bool.or_eq_true, Expr.hasArrayIndex_iff expr, Expr.anyArrayIndex_iff rest,
      List.mem_cons, exists_eq_or_imp]
end

namespace Access

/-- Only arrays accept the access. -/
def UsesArraySyntax (access : Access) : Prop :=
  access.form = .cellRef ∨ ∃ argument ∈ access.arguments, argument.Marked

/-- It has braces, or an argument with a marker that has nothing but operators around it. -/
def ShowsArraySyntax (access : Access) : Prop :=
  access.form = .cellRef ∨ ∃ argument ∈ access.arguments, argument.MarkedOpenly

theorem ShowsArraySyntax.uses {access : Access} (shows : access.ShowsArraySyntax) : access.UsesArraySyntax :=
  shows.imp_right fun ⟨argument, member, openly⟩ => ⟨argument, member, openly.marked⟩

theorem arrayOnly_iff (access : Access) : access.arrayOnly = true ↔ access.ShowsArraySyntax := by
  simp only [arrayOnly, ShowsArraySyntax, Bool.or_eq_true, decide_eq_true_eq, Expr.anyArrayIndex_iff]

/-- Some definition reaches the name: in the script or the function around it, it is defined before it. -/
def Reached (program : Program) (access : Access) : Prop :=
  ∃ id, access.ident.id = some id ∧ ∃ region ∈ program.regions, region.body.Reads id access.ident.name region.names

/-- Nothing defines the name, and no function of the program has it. -/
def Undefined (program : Program) (access : Access) : Prop :=
  ¬access.Reached program ∧ access.ident.name ∉ program.declaredFunctions

/-- The report of an access. -/
def report (access : Access) : Diagnostic :=
  .ambiguousIndex access.ident.name access.line

end Access

/-! What the walk leaves alone. -/

/-- The functions of the program are known, and what has been reported is about counts of values. -/
structure Findings.Plain (names : List String) (findings : Findings) : Prop where
  declared : findings.table.declaredFunctions = names
  concerns : ∀ diagnostic ∈ findings.diagnostics, diagnostic.concern = .arityMismatch

theorem Findings.plain_start (names : List String) : (Findings.start names).Plain names.reverse := by
  have kept (table : ScopeTable) : (names.foldl ScopeTable.declareFunction table).declaredFunctions =
      names.reverse ++ table.declaredFunctions := by
    induction names generalizing table with
    | nil => rfl
    | cons name rest ih =>
      rw [List.foldl_cons, ih]
      simp [ScopeTable.declareFunction]
  exact ⟨(kept ScopeTable.empty).trans (List.append_nil _), List.forall_mem_nil _⟩

section
variable {names : List String} {limit : Nat}

theorem Step.plain_walk (action : Step) (scope : ScopeId) {point : Point} (plain : point.findings.Plain names) :
    (action.walk scope point).findings.Plain names := by
  cases action with
  | use | declare => exact ⟨plain.declared, plain.concerns⟩
  | define id name line kind =>
    simp only [Step.walk, Point.define, Ident.bare, Ident.id]
    by_cases part : kind = .partialDefinition
    · rw [if_pos part]
      exact ⟨plain.declared, plain.concerns⟩
    · rw [if_neg part]
      exact ⟨plain.declared, plain.concerns⟩
  | checkArity line targets source =>
    cases source with
    | several | named => exact ⟨plain.declared, plain.concerns⟩
    | single description =>
      exact ⟨plain.declared, List.forall_mem_append.mpr ⟨plain.concerns, List.forall_mem_singleton.mpr rfl⟩⟩

theorem Point.plain_walkLoop {body : Point → Point}
    (each : ∀ point : Point, point.findings.Plain names → (body point).findings.Plain names) (entry : Flow)
    (walks : Nat) {point : Point} (plain : point.findings.Plain names) :
    (walkLoop body entry walks point).findings.Plain names := by
  induction walks generalizing point with
  | zero => exact plain
  | succ walks ih =>
    simp only [walkLoop]
    split
    · exact each point plain
    · exact ih (each point plain)

theorem Point.plain_enterFunction {point : Point} (plain : point.findings.Plain names) (scope : ScopeId)
    (id : Option IdentId) (name : String) (line : SourceLine) :
    (point.enterFunction scope (.bare name id) [] line).2.findings.Plain names := by
  cases id with
  | none => exact ⟨plain.declared, plain.concerns⟩
  | some id =>
    simp only [enterFunction, functionScope, Ident.bare, Ident.id]
    split <;> exact ⟨plain.declared, plain.concerns⟩

theorem Route.plain_walk (route : Route) (scope : ScopeId) {point : Point} (plain : point.findings.Plain names) :
    (route.walk limit scope point).findings.Plain names := by
  induction route generalizing scope point with
  | stay | jump _ => exact plain
  | step action => exact action.plain_walk scope plain
  | seq first second ihFirst ihSecond | ensure first second ihFirst ihSecond | finish first second ihFirst ihSecond
  | fork first second ihFirst ihSecond => exact ihSecond scope (ihFirst scope plain)
  | attempt body ih | aside body ih => exact ih scope plain
  | loop body ih => exact Point.plain_walkLoop (fun _ plain => ih scope plain) point.flow limit plain
  | function id name line body ih => exact ih _ (Point.plain_enterFunction plain scope id name line)

end

theorem ScopeTable.withSummaries_declaredFunctions (table : ScopeTable) :
    table.withSummaries.declaredFunctions = table.declaredFunctions := by
  have kept (occurrences : List Occurrence) (table : ScopeTable) :
      (occurrences.foldl summarize table).declaredFunctions = table.declaredFunctions := by
    induction occurrences generalizing table with
    | nil => rfl
    | cons first rest ih =>
      rw [List.foldl_cons, ih]
      unfold summarize
      split <;> rfl
  exact kept table.occurrences table

namespace Program

variable (program : Program) (settings : Settings)

theorem findings_plain : (program.withIds.1.findings (walkLimit program.withIds.2)).Plain
    program.withIds.1.declaredFunctions.reverse := by
  rw [findings_route]
  exact Route.plain_walk _ ScopeTable.script (Findings.plain_start _)

/-- The functions that the table knows are those of the program. -/
theorem isDeclaredFunction_iff (name : String) :
    (program.resolve settings).analysis.table.isDeclaredFunction name = true ↔
      name ∈ program.withIds.1.declaredFunctions := by
  have known : (program.resolve settings).analysis.table.declaredFunctions = _ :=
    (ScopeTable.withSummaries_declaredFunctions _).trans program.findings_plain.declared
  rw [ScopeTable.isDeclaredFunction, known, List.contains_iff_mem, List.mem_reverse]

/-- What resolution reports besides counts of values are the ambiguous indices of its table. -/
theorem filter_diagnostics : ((program.resolve settings).analysis.diagnostics.filter
    (·.concern = .ambiguousIndex)).Perm (program.resolve settings).analysis.table.ambiguousIndices := by
  let findings := program.withIds.1.findings (walkLimit program.withIds.2)
  let table := (program.resolve settings).analysis.table
  have walked : findings.diagnostics.filter (·.concern = .ambiguousIndex) = [] := by
    refine List.filter_eq_nil_iff.mpr fun diagnostic member => ?_
    simp [program.findings_plain.concerns diagnostic member]
  have checked : (findings.pending.filterMap (PendingAssignment.diagnostic? table)).filter
      (·.concern = .ambiguousIndex) = [] := by
    refine List.filter_eq_nil_iff.mpr fun diagnostic member => ?_
    obtain ⟨pending, _, found⟩ := List.mem_filterMap.mp member
    simp [PendingAssignment.concern_diagnostic? found]
  have ambiguous : table.ambiguousIndices.filter (·.concern = .ambiguousIndex) = table.ambiguousIndices := by
    refine List.filter_eq_self.mpr fun diagnostic member => ?_
    obtain ⟨occurrence, _, rfl⟩ := List.mem_map.mp member
    rfl
  have gathered : (program.resolve settings).analysis.diagnostics.Perm (findings.diagnostics ++
      findings.pending.filterMap (PendingAssignment.diagnostic? table) ++ table.ambiguousIndices) :=
    List.mergeSort_perm _ _
  have kept := gathered.filter (·.concern = .ambiguousIndex)
  rwa [List.filter_append, List.filter_append, walked, checked, ambiguous] at kept

/-! Accesses and occurrences. -/

/-- Every access of a numbered program has an identity of its own. -/
theorem nodup_accesses : (program.withIds.1.accesses.map fun access => access.ident.id).Nodup := by
  have within : Access.Within program.withIds.1.accesses program.withIds.1.mentions :=
    Stmt.within_accessesList program.withIds.1.statements
  have ids := within.map Ident.id
  rw [List.map_map, List.map_map] at ids
  exact program.counted_withIds.nodup.sublist ids

theorem id_of_access {access : Access} (member : access ∈ program.withIds.1.accesses) :
    ∃ id, access.ident.id = some id := by
  have within : Access.Within program.withIds.1.accesses program.withIds.1.mentions :=
    Stmt.within_accessesList program.withIds.1.statements
  obtain ⟨mention, there, same⟩ := List.mem_map.mp (within.subset (List.mem_map_of_mem member))
  obtain ⟨id, numbered, _⟩ := program.counted_withIds.id_of_mem there
  exact ⟨id, same ▸ numbered⟩

theorem indexes_route : program.route.Indexes program.accesses :=
  Stmt.indexes_block program.statements

/-- An occurrence that an index follows is an access. -/
theorem access_of_occurrence {occurrence : Occurrence} (inside : occurrence ∈ program.census.occurrences)
    (use : occurrence.kind = .use) (indexed : occurrence.indexed = true) :
    ∃ access ∈ program.withIds.1.accesses, access.ident.id = some occurrence.id ∧
      access.ident.name = occurrence.name ∧ access.line = occurrence.line ∧
      access.arrayOnly = occurrence.arrayOnly := by
  have plain : occurrence.kind ≠ .functionName := by simp [use]
  obtain ⟨⟨scope, action⟩, visited, own⟩ := Route.place_of_occurrence inside plain
  cases action with
  | checkArity => cases own
  | define | declare =>
    cases own
    cases indexed
  | use id name line isIndexed arrayOnly =>
    cases own
    obtain rfl : isIndexed = true := indexed
    have taken := (Route.hasStep_iff_place _ program.withIds.1.route ScopeTable.script 1).mpr ⟨_, visited, rfl⟩
    obtain ⟨access, member, step⟩ := (program.withIds.1.indexes_route id name line arrayOnly).mp taken
    obtain ⟨id, numbered, same⟩ := Option.map_eq_some_iff.mp step
    cases same
    exact ⟨access, member, numbered, rfl, rfl, rfl⟩

/-- An access is an occurrence that an index follows. -/
theorem occurrence_of_access {access : Access} (member : access ∈ program.withIds.1.accesses) {id : IdentId}
    (numbered : access.ident.id = some id) :
    ∃ scope, ⟨id, access.ident.name, access.line, scope, .use, true, access.arrayOnly, .unknown⟩ ∈
      program.census.occurrences := by
  have step : access.step? = some (.use id access.ident.name access.line true access.arrayOnly) := by
    rw [Access.step?, numbered, Option.map_some]
  have taken := (program.withIds.1.indexes_route id access.ident.name access.line access.arrayOnly).mpr
    ⟨access, member, step⟩
  obtain ⟨⟨scope, action⟩, visited, same⟩ :=
    (Route.hasStep_iff_place _ program.withIds.1.route ScopeTable.script 1).mp taken
  obtain rfl : action = _ := same
  obtain ⟨occurrence, inside, own, _⟩ := Route.occurrence_of_place visited rfl
  cases own
  exact ⟨scope, inside⟩

/-- Every record of the table has an identity of its own. -/
theorem nodup_occurrences : ((program.resolve settings).analysis.table.occurrences.map Occurrence.id).Nodup := by
  let findings := program.withIds.1.findings (walkLimit program.withIds.2)
  have occurrences : (program.resolve settings).analysis.table.occurrences =
      findings.table.occurrences.map fun origin => { origin with role := findings.graph.roleOf origin } :=
    ScopeTable.withSummaries_occurrences _
  rw [occurrences, List.map_map]
  exact List.pairwise_map.mpr (program.findings_valid.1.sorted.imp Nat.ne_of_lt)

/-- A use of the table is one of a function if nothing defines it. -/
theorem roleOf_function_iff {occurrence : Occurrence} (inside : occurrence ∈ program.census.occurrences)
    (use : occurrence.kind = .use) :
    (program.resolve settings).analysis.graph.roleOf occurrence = .function ↔
      ¬∃ region ∈ program.withIds.1.regions, region.body.Reads occurrence.id occurrence.name region.names := by
  have reached := program.roleOf_use_iff settings inside use
  rw [Occurrence.node, use, program.reached_iff_reads settings] at reached
  rw [← reached]
  have known := Graph.roleOf_known (program.resolve settings).analysis.graph occurrence
  cases role : (program.resolve settings).analysis.graph.roleOf occurrence <;> simp_all

end Program

/-- What a report tells of an occurrence, and its identity. -/
def Occurrence.key (occurrence : Occurrence) : Option IdentId × String × SourceLine :=
  (some occurrence.id, occurrence.name, occurrence.line)

def Access.key (access : Access) : Option IdentId × String × SourceLine :=
  (access.ident.id, access.ident.name, access.line)

namespace Program

variable (program : Program) (settings : Settings)

open Classical in
/-- The accesses of undefined names that are of a certain kind. -/
noncomputable def undefinedAccesses (kind : Access → Prop) : List Access :=
  program.accesses.filter fun access => access.Undefined program ∧ kind access

theorem mem_undefinedAccesses {kind : Access → Prop} {access : Access} : access ∈ program.undefinedAccesses kind ↔
    access ∈ program.accesses ∧ access.Undefined program ∧ kind access := by
  simp [undefinedAccesses]

theorem undefinedAccesses_sublist {one other : Access → Prop} (within : ∀ access, one access → other access) :
    (program.undefinedAccesses one).Sublist (program.undefinedAccesses other) := by
  apply List.monotone_filter_right
  intro access chosen
  simp only [decide_eq_true_eq] at chosen ⊢
  exact ⟨chosen.1, within access chosen.2⟩

/-- An ambiguous record of the table is a use that an index of array syntax follows, of an undefined name. -/
theorem isAmbiguous_iff {origin : Occurrence} (inside : origin ∈ program.census.occurrences) :
    let analysis := (program.resolve settings).analysis
    analysis.table.isAmbiguous { origin with role := analysis.graph.roleOf origin } = true ↔
      origin.kind = .use ∧ origin.indexed = true ∧ origin.arrayOnly = true ∧
        (¬∃ region ∈ program.withIds.1.regions, region.body.Reads origin.id origin.name region.names) ∧
        origin.name ∉ program.withIds.1.declaredFunctions := by
  intro analysis
  have declared := program.isDeclaredFunction_iff settings origin.name
  simp only [ScopeTable.isAmbiguous, Bool.and_eq_true, decide_eq_true_eq, Bool.not_eq_true', and_assoc]
  refine and_congr_right fun use => and_congr_right fun _ => and_congr_right fun _ => and_congr ?_ ?_
  · exact program.roleOf_function_iff settings inside use
  · rw [← declared, Bool.not_eq_true]

/-- The ambiguous records of the table are the accesses of undefined names that show array syntax. -/
theorem keys_ambiguous : (((program.resolve settings).analysis.table.occurrences.filter
    (program.resolve settings).analysis.table.isAmbiguous).map Occurrence.key).Perm
      ((program.withIds.1.undefinedAccesses Access.ShowsArraySyntax).map Access.key) := by
  let analysis := (program.resolve settings).analysis
  have distinct : ((analysis.table.occurrences.filter analysis.table.isAmbiguous).map Occurrence.key).Nodup := by
    have ids := ((program.nodup_occurrences settings).sublist
      (List.filter_sublist (p := analysis.table.isAmbiguous).map _)).map (Option.some_injective _)
    rw [List.map_map] at ids
    refine List.Nodup.of_map Prod.fst ?_
    rwa [List.map_map]
  have single : ((program.withIds.1.undefinedAccesses Access.ShowsArraySyntax).map Access.key).Nodup := by
    refine List.Nodup.of_map Prod.fst ?_
    rw [List.map_map]
    exact program.nodup_accesses.sublist (List.filter_sublist.map _)
  refine (List.perm_ext_iff_of_nodup distinct single).mpr fun key => ?_
  simp only [List.mem_map, List.mem_filter, mem_undefinedAccesses]
  constructor
  · rintro ⟨occurrence, ⟨listed, ambiguous⟩, rfl⟩
    obtain ⟨origin, inside, rfl⟩ := (program.resolve_occurrences settings occurrence).mp listed
    obtain ⟨use, indexed, arrayOnly, unread, undeclared⟩ := (program.isAmbiguous_iff settings inside).mp ambiguous
    obtain ⟨access, member, numbered, named, line, same⟩ := program.access_of_occurrence inside use indexed
    refine ⟨access, ⟨member, ⟨?_, named ▸ undeclared⟩, access.arrayOnly_iff.mp (same.trans arrayOnly)⟩, ?_⟩
    · rintro ⟨id, known, reads⟩
      obtain rfl : id = origin.id := Option.some.inj (known.symm.trans numbered)
      exact unread (named ▸ reads)
    · simp [Access.key, Occurrence.key, numbered, named, line]
  · rintro ⟨access, ⟨member, ⟨unreached, undeclared⟩, shows⟩, rfl⟩
    obtain ⟨id, numbered⟩ := program.id_of_access member
    obtain ⟨scope, inside⟩ := program.occurrence_of_access member numbered
    refine ⟨_, ⟨(program.resolve_occurrences settings _).mpr ⟨_, inside, rfl⟩, ?_⟩, ?_⟩
    · exact (program.isAmbiguous_iff settings inside).mpr
        ⟨rfl, rfl, access.arrayOnly_iff.mpr shows, fun reads => unreached ⟨id, numbered, reads⟩, undeclared⟩
    · simp [Access.key, Occurrence.key, numbered]

/-- The reports are those of the accesses of undefined names that show array syntax. -/
theorem reports_ambiguous : ((program.resolve settings).analysis.diagnostics.filter
    (·.concern = .ambiguousIndex)).Perm
      ((program.withIds.1.undefinedAccesses Access.ShowsArraySyntax).map Access.report) := by
  refine (program.filter_diagnostics settings).trans ?_
  have told := (program.keys_ambiguous settings).map fun key => Diagnostic.ambiguousIndex key.2.1 key.2.2
  rw [List.map_map, List.map_map] at told
  exact told

end Program

/-- Resolution reports one ambiguous index for each access of an undefined name that shows array syntax, with its name
and its line, and no others. Those of all accesses of undefined names that use array syntax are reported exactly if
each of them shows it: in braces, or by a marker with nothing but operators around it. A name is reached as the edges
have it. -/
theorem Program.ambiguousReports_iff (program : Program) (settings : Settings) :
    let analysis := (program.resolve settings).analysis
    let numbered := program.withIds.1
    let reports := analysis.diagnostics.filter (·.concern = .ambiguousIndex)
    reports.Perm ((numbered.undefinedAccesses Access.ShowsArraySyntax).map Access.report) ∧
      (reports.Perm ((numbered.undefinedAccesses Access.UsesArraySyntax).map Access.report) ↔
        ∀ access ∈ numbered.accesses, access.Undefined numbered → access.UsesArraySyntax → access.ShowsArraySyntax) ∧
      ∀ access ∈ numbered.accesses, ∃ id, access.ident.id = some id ∧
        (access.Reached numbered ↔
          ∃ definition, (definition, .occurrence id access.ident.name .use) ∈ analysis.graph.links) := by
  intro analysis numbered reports
  have shown : reports.Perm _ := program.reports_ambiguous settings
  refine ⟨shown, ⟨fun same access member undefined uses => ?_, fun each => ?_⟩, fun access member => ?_⟩
  · have within : (numbered.undefinedAccesses Access.ShowsArraySyntax).Sublist _ :=
      numbered.undefinedAccesses_sublist fun _ => Access.ShowsArraySyntax.uses
    have lengths := (shown.symm.trans same).length_eq
    rw [List.length_map, List.length_map] at lengths
    have there := numbered.mem_undefinedAccesses.mpr ⟨member, undefined, uses⟩
    rw [← within.eq_of_length lengths] at there
    exact (numbered.mem_undefinedAccesses.mp there).2.2
  · have all : numbered.undefinedAccesses Access.UsesArraySyntax =
        numbered.undefinedAccesses Access.ShowsArraySyntax := by
      refine List.filter_congr fun access member => decide_eq_decide.mpr (and_congr_right fun undefined => ?_)
      exact ⟨each access member undefined, Access.ShowsArraySyntax.uses⟩
    rwa [all]
  · obtain ⟨id, numbers⟩ := program.id_of_access member
    refine ⟨id, numbers, ?_⟩
    rw [program.reached_iff_reads settings, Access.Reached]
    simp only [numbers, Option.some.injEq, exists_eq_left']
    exact Iff.rfl

/-- An undefined name with an end marker in a matrix. -/
def Program.endInMatrix : Program :=
  ⟨[.expression 1 (.index 1 .apply (.named "x" 1)
    [.rows 1 .matrix [[.operation 1 "end" [] none, .literal 1 (.logical true)]]])]⟩

/-- The access uses array syntax, and there is no report of it. -/
theorem endInMatrix_unreported :
    let numbered := Program.endInMatrix.withIds.1
    let reports := (Program.endInMatrix.resolve {}).analysis.diagnostics.filter (·.concern = .ambiguousIndex)
    (numbered.undefinedAccesses Access.UsesArraySyntax).map Access.report = [.ambiguousIndex "x" 1] ∧ reports = [] ∧
      ¬reports.Perm ((numbered.undefinedAccesses Access.UsesArraySyntax).map Access.report) := by
  intro numbered reports
  have silent : reports = [] := by decide +kernel
  have undefined : ∀ access ∈ numbered.accesses, access.Undefined numbered ∧ access.UsesArraySyntax := by
    refine List.forall_mem_singleton.mpr ⟨⟨fun ⟨id, _, reached⟩ => ?_, List.not_mem_nil⟩, .inr ?_⟩
    · have edge := (Program.endInMatrix.reached_iff_reads {} id "x").mpr reached
      obtain ⟨definition, source, target, member, _⟩ := edge
      have none : (Program.endInMatrix.resolve {}).analysis.graph.edges = [] := by decide +kernel
      rw [none] at member
      cases member
    · exact ⟨_, List.mem_singleton_self _, .element (List.mem_singleton_self _) List.mem_cons_self (.here rfl)⟩
  have whole : (numbered.undefinedAccesses Access.UsesArraySyntax).map Access.report = [.ambiguousIndex "x" 1] := by
    have all : numbered.undefinedAccesses Access.UsesArraySyntax = numbered.accesses :=
      List.filter_eq_self.mpr fun access member => by simp only [undefined access member, and_self, decide_true]
    rw [all]
    rfl
  refine ⟨whole, silent, ?_⟩
  rw [whole, silent]
  exact List.not_perm_nil_cons _ _

end ArrayLift
