import ArrayLift.Proofs.Reaching.Covered
import ArrayLift.Proofs.Reaching.Explained
import ArrayLift.Proofs.Walk.Outcome

/-! The edges that resolution builds are the reaching definitions over the traces of a program. Traces do not
tell when a declaration is in force: it is so for what follows in the text, on whatever path. -/
namespace ArrayLift

open DefUse
open scoped Computability

/-- The script and the functions of a program. -/
def Program.regions (program : Program) : List Region :=
  ⟨ScopeTable.script, [], program.route, false⟩ :: program.route.regions 1 false

/-- The one trace does to a definition what the other does. -/
structure Trace.Imitates (definition : Node) (one other : Trace) : Prop where
  after : ∀ live, definition ∈ Trace.after one live → definition ∈ Trace.after other live
  links : ∀ live occurrence, (definition, occurrence) ∈ Trace.links one live →
    (definition, occurrence) ∈ Trace.links other live

theorem Trace.Imitates.append {definition : Node} {one other first second : Trace}
    (start : Imitates definition one first) (behind : Imitates definition other second) :
    Imitates definition (one ++ other) (first ++ second) := by
  refine ⟨fun live there => ?_, fun live occurrence linked => ?_⟩
  · rw [Trace.after_append] at there ⊢
    exact Trace.after_mono (start.after live) (behind.after _ there)
  · rw [Trace.links_append] at linked ⊢
    rcases linked with early | late
    · exact .inl (start.links live occurrence early)
    · exact .inr (Trace.links_mono (start.after live) second (behind.links _ occurrence late))

theorem Trace.Imitates.refl (definition : Node) (trace : Trace) : Imitates definition trace trace :=
  ⟨fun _ there => there, fun _ _ linked => linked⟩

/-- Trace by trace, so are any number of them in a row. -/
theorem Trace.Imitates.kstar {definition : Node} {one other : Language Event}
    (each : ∀ trace ∈ one, ∃ twin ∈ other, Imitates definition trace twin) {trace : Trace} (member : trace ∈ one∗) :
    ∃ twin ∈ other∗, Imitates definition trace twin := by
  obtain ⟨passes, rfl, inside⟩ := Language.mem_kstar.mp member
  clear member
  induction passes with
  | nil => exact ⟨[], Language.nil_mem_kstar _, .refl _ _⟩
  | cons pass rest ih =>
    obtain ⟨twin, there, start⟩ := each pass (inside pass (by simp))
    obtain ⟨twins, more, behind⟩ := ih fun later member => inside later (by simp [member])
    have one_more : other * other∗ ≤ other∗ := mul_kstar_le_kstar
    exact ⟨twin ++ twins, one_more (Language.append_mem_mul there more), start.append behind⟩

/-- At a step, it matters to a definition whether it counts as pinned, and not what else does. -/
theorem Step.imitates {definition : Node} (action : Step) {scope : ScopeId} {pinned other : List Node}
    (within : definition ∈ pinned → definition ∈ other) :
    Trace.Imitates definition (action.event? scope pinned).toList (action.event? scope other).toList := by
  cases action with
  | use | declare | checkArity => exact .refl _ _
  | define id name line kind =>
    by_cases part : kind = .partialDefinition
    · simp only [event?, part, if_true]
      exact .refl _ _
    · simp only [event?, part, if_false]
      refine ⟨fun live there => ?_, fun live occurrence linked => linked⟩
      rcases there with same | ⟨called, met⟩ | old
      · exact .inl same
      · exact .inr (.inl ⟨called, within met⟩)
      · exact .inr (.inr old)

namespace Route

/-- Where a definition counts as pinned if it does elsewhere, the traces do to it what they do there. -/
theorem imitated {definition : Node} {scope : ScopeId} (route : Route) :
    ∀ {pinned other : List Node} {trace : Trace}, (definition ∈ pinned → definition ∈ other) →
      trace ∈ route.traces scope pinned → ∃ twin ∈ route.traces scope other, trace.Imitates definition twin := by
  have further {extra pinned other : List Node} (within : definition ∈ pinned → definition ∈ other)
      (there : definition ∈ extra ++ pinned) : definition ∈ extra ++ other :=
    List.mem_append.mpr ((List.mem_append.mp there).imp_right within)
  induction route with
  | stay | jump _ | function _ _ _ _ _ => exact fun {_ _ trace} _ member => ⟨trace, member, .refl _ _⟩
  | step action =>
    intro pinned other trace within member
    obtain rfl := Set.mem_singleton_iff.mp member
    exact ⟨_, rfl, action.imitates within⟩
  | seq first second ihFirst ihSecond | ensure first second ihFirst ihSecond
  | finish first second ihFirst ihSecond =>
    intro pinned other trace within member
    obtain ⟨one, inFirst, two, inSecond, rfl⟩ := Language.mem_mul.mp member
    obtain ⟨twin, twinFirst, start⟩ := ihFirst within inFirst
    obtain ⟨later, twinSecond, behind⟩ := ihSecond (further within) inSecond
    exact ⟨twin ++ later, Language.append_mem_mul twinFirst twinSecond, start.append behind⟩
  | fork left right ihLeft ihRight =>
    intro pinned other trace within member
    rcases member with inLeft | inRight
    · obtain ⟨twin, there, alike⟩ := ihLeft within inLeft
      exact ⟨twin, .inl there, alike⟩
    · obtain ⟨twin, there, alike⟩ := ihRight (further within) inRight
      exact ⟨twin, .inr there, alike⟩
  | attempt body ih =>
    intro pinned other trace within member
    rcases member with none | inBody
    · exact ⟨trace, .inl none, .refl _ _⟩
    · obtain ⟨twin, there, alike⟩ := ih within inBody
      exact ⟨twin, .inr there, alike⟩
  | loop body ih =>
    intro pinned other trace within member
    exact Trace.Imitates.kstar (fun pass inBody => ih (further within) inBody) member
  | aside body ih =>
    intro pinned other trace within member
    obtain ⟨inner, inBody, rfl⟩ := member
    obtain ⟨twin, there, alike⟩ := ih within inBody
    refine ⟨[.aside twin], ⟨twin, there, rfl⟩, fun _ old => old, fun live occurrence linked => ?_⟩
    rcases linked with here | none
    · exact .inl (alike.links live occurrence here)
    · exact none.elim

end Route

/-- Declarations that count from the start take no definition away that is not one of theirs. -/
theorem Region.Reaches.imitate {region : Region} {pinned other : List Node} {definition occurrence : Node}
    (reaches : region.Reaches pinned definition occurrence) (within : definition ∈ pinned → definition ∈ other) :
    region.Reaches other definition occurrence := by
  obtain ⟨trace, member, linked⟩ := reaches
  obtain ⟨twin, there, alike⟩ := region.body.imitated within member
  exact ⟨twin, there, alike.links _ occurrence linked⟩

/-- For an ordinary definition it makes no difference which declarations count as pinned. -/
theorem Region.reaches_of_ordinary {region : Region} {definition occurrence : Node}
    (ordinary : definition.isBinding = false) (reaches : region.Reaches region.pinned definition occurrence) :
    region.Reaches [] definition occurrence := by
  refine reaches.imitate fun met => ?_
  unfold Region.pinned at met
  split at met
  · rw [Route.isBinding_of_mem met] at ordinary
    cases ordinary
  · exact met

namespace Program

variable (program : Program) (settings : Settings) {definition occurrence : Node}

/-- Every edge stands for a trace of the script or a function. -/
theorem reaches_of_edge (edge : (definition, occurrence) ∈ (program.resolve settings).analysis.graph.links) :
    ∃ region ∈ program.withIds.1.regions, region.Reaches region.pinned definition occurrence := by
  rw [program.resolve_links settings] at edge
  have nothing (scope : ScopeId) (node : Node) : ¬ View.start.Pinned scope node := by
    intro found
    obtain ⟨declaration, met, _⟩ := found
    cases met
  have bounded : program.withIds.1.route.Bounded ScopeTable.script 1 false [] .start :=
    ⟨fun node met => (nothing _ node met).elim, fun region _ node met => (nothing _ node met).elim⟩
  have explained := program.withIds.1.route.explained (three_le_walkLimit program.withIds.2)
    program.withIds.1.tidy_route Nat.one_pos bounded
  rcases explained.edges definition occurrence edge with
    none | ⟨trace, member, linked⟩ | ⟨region, member, reaches⟩
  · exact none.elim
  · refine ⟨_, List.mem_cons_self, trace, member, ?_⟩
    exact Trace.links_mono (fun none => absurd none (Set.notMem_empty _)) trace linked
  · exact ⟨region, List.mem_cons_of_mem _ member, reaches⟩

/-- Every trace of the script or a function stands for an edge. -/
theorem edge_of_reaches {region : Region} (member : region ∈ program.withIds.1.regions)
    (reaches : region.Reaches [] definition occurrence)
    (sole : definition.Sole (region.body.bindings region.scope)) :
    (definition, occurrence) ∈ (program.resolve settings).analysis.graph.links := by
  rw [program.resolve_links settings]
  rcases List.mem_cons.mp member with rfl | nested
  · obtain ⟨trace, inBody, linked⟩ := reaches
    have ready : Route.Ready ScopeTable.script [] (program.withIds.1.route.bindings ScopeTable.script) .start :=
      ⟨fun node none => absurd none List.not_mem_nil, fun node none => none.elim⟩
    have holds : Route.Holds (program.withIds.1.route.bindings ScopeTable.script) ∅ .start :=
      fun node none => none.elim
    have covers : Route.Covers _ trace ∅ program.seen :=
      program.withIds.1.route.covers (three_le_walkLimit program.withIds.2) program.withIds.1.tidy_route Nat.one_pos
        (List.Subset.refl _) ready holds inBody
    refine covers.edges definition occurrence (Trace.links_mono (fun none => ?_) trace linked) sole
    cases none
  · exact Route.covers_region (three_le_walkLimit program.withIds.2) program.withIds.1.tidy_route Nat.one_pos nested
      reaches sole .start

end Program

/-- The edges of a program and the traces of its script and functions. An ordinary definition has an edge to an
occurrence exactly if some trace leads from the one to the other. So has the definition behind declarations if no
function stands in a loop and no name is declared in both ways; otherwise the traces without a declaration at
the start are all there, and no others than those with every declaration of a repeated function at its start. -/
theorem Program.edge_iff_reaches (program : Program) (settings : Settings) (definition occurrence : Node) :
    let edge := (definition, occurrence) ∈ (program.resolve settings).analysis.graph.links
    let regions := program.withIds.1.regions
    (definition.isBinding = false → (edge ↔ ∃ region ∈ regions, region.Reaches [] definition occurrence)) ∧
    ((∀ region ∈ regions, region.repeated = false ∧ definition.Sole (region.body.bindings region.scope)) →
      (edge ↔ ∃ region ∈ regions, region.Reaches [] definition occurrence)) ∧
    (∀ region ∈ regions, region.Reaches [] definition occurrence →
      definition.Sole (region.body.bindings region.scope) → edge) ∧
    (edge → ∃ region ∈ regions, region.Reaches region.pinned definition occurrence) := by
  intro edge regions
  have explained (found : edge) := program.reaches_of_edge settings found
  have covered (region : Region) (member : region ∈ regions) (reaches : region.Reaches [] definition occurrence)
      (sole : definition.Sole (region.body.bindings region.scope)) : edge :=
    program.edge_of_reaches settings member reaches sole
  refine ⟨fun ordinary => ⟨fun found => ?_, fun reached => ?_⟩, fun plain => ⟨fun found => ?_, fun reached => ?_⟩,
    covered, explained⟩
  · obtain ⟨region, member, reaches⟩ := explained found
    exact ⟨region, member, region.reaches_of_ordinary ordinary reaches⟩
  · obtain ⟨region, member, reaches⟩ := reached
    exact covered region member reaches (Node.sole_of_ordinary ordinary _)
  · obtain ⟨region, member, reaches⟩ := explained found
    refine ⟨region, member, ?_⟩
    have none : region.pinned = [] := if_neg (by simp [(plain region member).1])
    rwa [none] at reaches
  · obtain ⟨region, member, reaches⟩ := reached
    exact covered region member reaches (plain region member).2

mutual
def Event.along (declared : List Node) : Event → Event
  | .define node _ => .define node declared
  | .aside inner => .aside (Trace.along declared inner)
  | .use node => .use node
  | .update node => .update node
  | .declare node binding => .declare node binding

/-- The trace with those declarations in force that it has met itself, the last one of each name. -/
def Trace.along : List Node → List Event → List Event
  | _, [] => []
  | declared, event :: rest =>
    event.along declared :: match event with
      | .declare node binding =>
        Trace.along (binding :: declared.filter fun other => other.name ≠ node.name) rest
      | _ => Trace.along declared rest
end

/-- Some trace of the region leads from a definition to an occurrence by what it meets itself. -/
def Region.ReachesAlong (region : Region) (definition occurrence : Node) : Prop :=
  ∃ trace ∈ region.body.traces region.scope [],
    (definition, occurrence) ∈ Trace.links (Trace.along [] trace) {node | node ∈ region.start}

/-- A name is declared in one branch, and defined and read in the other one. -/
def Program.declaredElsewhere : Program :=
  ⟨[.branch 1 (.literal 1 (.logical true)) [.declare 2 .global [.named "x"]]
    (some [.assign 4 [.ident 4 (.named "x")] (.literal 4 (.logical true)), .expression 5 (.ident 5 (.named "x"))])]⟩

/-- A name is declared in two ways on two branches, and once more at the end of a loop. -/
def Program.declaredTwice : Program :=
  ⟨[.branch 1 (.literal 1 (.logical true)) [.declare 2 .persistent [.named "x"]]
      (some [.declare 4 .global [.named "x"]]),
    .whileLoop 6 (.literal 6 (.logical true))
      [.assign 7 [.ident 7 (.named "x")] (.literal 7 (.logical true)), .expression 8 (.ident 8 (.named "x")),
        .declare 9 .persistent [.named "x"]]]⟩

theorem Program.edge_declaredElsewhere (settings : Settings) : (.global "x", .occurrence 2 "x" .use) ∈
    (declaredElsewhere.resolve settings).analysis.graph.links := by
  refine ⟨0, 3, ?_, rfl, rfl⟩
  show (0, 3) ∈ (declaredElsewhere.withIds.1.findings (walkLimit declaredElsewhere.withIds.2)).graph.edges
  decide

/-- The trace through one branch meets the declaration alone, and the other one never meets it. -/
theorem Program.not_along_declaredElsewhere : ¬ ∃ region ∈ declaredElsewhere.withIds.1.regions,
    region.ReachesAlong (.global "x") (.occurrence 2 "x" .use) := by
  intro found
  obtain ⟨region, member, trace, inBody, linked⟩ := found
  obtain rfl := List.mem_singleton.mp member
  obtain ⟨_, ⟨_, ⟨_, rfl, branch, inBranch, rfl⟩, _, rfl, rfl⟩, _, rfl, rfl⟩ := inBody
  rcases inBranch with inThen | inElse
  · obtain ⟨_, ⟨_, ⟨_, rfl, _, rfl, rfl⟩, _, rfl, rfl⟩, _, rfl, rfl⟩ := inThen
    rcases linked with same | none
    · cases same
    · exact none
  · obtain ⟨_, ⟨_, inAssign, _, ⟨_, rfl, _, rfl, rfl⟩, rfl⟩, _, rfl, rfl⟩ := inElse
    obtain ⟨_, rfl, _, ⟨_, ⟨_, rfl, _, rfl, rfl⟩, _, rfl, rfl⟩, rfl⟩ := inAssign
    rcases linked with none | ⟨_, live, _⟩ | none
    · exact none
    · rcases live with same | ⟨_, none⟩ | ⟨none, _⟩
      · cases same
      · cases none
      · cases none
    · exact none

theorem Program.not_edge_declaredTwice (settings : Settings) : (.persistent 0 "x", .occurrence 3 "x" .use) ∉
    (declaredTwice.resolve settings).analysis.graph.links := by
  intro found
  obtain ⟨source, target, edge, atSource, atTarget⟩ := found
  have none : ∀ edge ∈ (declaredTwice.withIds.1.findings (walkLimit declaredTwice.withIds.2)).graph.edges,
      ¬ ((declaredTwice.withIds.1.findings (walkLimit declaredTwice.withIds.2)).graph.node? edge.1 =
          some (.persistent 0 "x") ∧
        (declaredTwice.withIds.1.findings (walkLimit declaredTwice.withIds.2)).graph.node? edge.2 =
          some (.occurrence 3 "x" .use)) := by
    decide
  exact none _ edge ⟨atSource, atTarget⟩

/-- The first declaration is in force on the way through one iteration. -/
theorem Program.along_declaredTwice : ∃ region ∈ declaredTwice.withIds.1.regions,
    region.ReachesAlong (.persistent 0 "x") (.occurrence 3 "x" .use) := by
  let declared : Event := .declare (.occurrence 0 "x" .declaration) (.persistent 0 "x")
  let defined : Event :=
    .define (.occurrence 2 "x" .definition) [.persistent 0 "x", .persistent 0 "x", .global "x"]
  let used : Event := .use (.occurrence 3 "x" .use)
  let again : Event := .declare (.occurrence 4 "x" .declaration) (.persistent 0 "x")
  refine ⟨_, List.mem_cons_self, [declared, defined, used, again], ?_, ?_⟩
  · refine ⟨[declared, defined, used, again], ⟨[declared], ⟨[], rfl, [declared], .inl ?_, rfl⟩,
      [defined, used, again], ?_, rfl⟩, [], rfl, rfl⟩
    · exact ⟨[declared], ⟨[declared], ⟨[declared], rfl, [], rfl, rfl⟩, [], rfl, rfl⟩, [], rfl, rfl⟩
    · refine ⟨[defined, used, again], ⟨[defined, used, again], ⟨[[defined, used, again]], rfl, ?_⟩, [], rfl, rfl⟩,
        [], rfl, rfl⟩
      intro pass member
      obtain rfl := List.mem_singleton.mp member
      refine ⟨[], rfl, [defined, used, again], ⟨[defined, used, again], ⟨[defined], ?_, [used, again], ?_, rfl⟩,
        [], rfl, rfl⟩, rfl⟩
      · exact ⟨[], rfl, [defined], ⟨[defined], ⟨[defined], rfl, [], rfl, rfl⟩, [], rfl, rfl⟩, rfl⟩
      · exact ⟨[used], rfl, [again], ⟨[again], ⟨[again], rfl, [], rfl, rfl⟩, [], rfl, rfl⟩, rfl⟩
  · simp [declared, defined, used, again, Trace.along, Trace.links, Event.along, Event.links, Event.after,
      Node.reached, Node.name]

/-- Traces alone do not tell the edges of declarations: one may come from a declaration that no trace meets, and
one that a trace meets may have none. -/
theorem edges_not_of_traces_alone :
    ((.global "x", .occurrence 2 "x" .use) ∈ (Program.declaredElsewhere.resolve {}).analysis.graph.links ∧
      ¬ ∃ region ∈ Program.declaredElsewhere.withIds.1.regions,
        region.ReachesAlong (.global "x") (.occurrence 2 "x" .use)) ∧
    ((.persistent 0 "x", .occurrence 3 "x" .use) ∉ (Program.declaredTwice.resolve {}).analysis.graph.links ∧
      ∃ region ∈ Program.declaredTwice.withIds.1.regions,
        region.ReachesAlong (.persistent 0 "x") (.occurrence 3 "x" .use)) :=
  ⟨⟨Program.edge_declaredElsewhere {}, Program.not_along_declaredElsewhere⟩,
    Program.not_edge_declaredTwice {}, Program.along_declaredTwice⟩

end ArrayLift
