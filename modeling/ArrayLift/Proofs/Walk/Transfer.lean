import ArrayLift.Proofs.Walk.View
import ArrayLift.Proofs.Walk.Tidy

/-! What a route does to the live definitions of its scope, in closed form: some are made, some put back
because a declaration keeps them, some go through. A loop is settled after three passes at most. -/
namespace ArrayLift

open DefUse

structure Transfer where
  /-- Definitions that are live behind the route whatever was live before. -/
  made : Set Node
  /-- Names whose pinned definition is put back. -/
  renewed : Set String
  /-- Names whose definitions go through. -/
  kept : Set String
  /-- The declaration of a name that is met last. -/
  declared : String → Option Declaration

namespace Transfer

def idle : Transfer :=
  ⟨∅, ∅, Set.univ, fun _ => none⟩

/-- The definition is the one behind the declaration that is met last. -/
def Declares (transfer : Transfer) (scope : ScopeId) (node : Node) : Prop :=
  ∃ declaration, transfer.declared node.name = some declaration ∧ node = .binding declaration scope node.name

def seq (scope : ScopeId) (first second : Transfer) : Transfer where
  made := {node | node ∈ second.made ∨ (node.name ∈ second.renewed ∧ first.Declares scope node) ∨
    (node ∈ first.made ∧ node.name ∈ second.kept)}
  renewed := {name | (name ∈ second.renewed ∧ first.declared name = none) ∨
    (name ∈ first.renewed ∧ name ∈ second.kept)}
  kept := first.kept ∩ second.kept
  declared name := (second.declared name).or (first.declared name)

def fork (scope : ScopeId) (left right : Transfer) : Transfer where
  made := {node | node ∈ left.made ∨ node ∈ right.made ∨ (node.name ∈ right.renewed ∧ left.Declares scope node)}
  renewed := {name | name ∈ left.renewed ∨ (name ∈ right.renewed ∧ left.declared name = none)}
  kept := left.kept ∪ right.kept
  declared name := (right.declared name).or (left.declared name)

def loop (body : Transfer) : Transfer where
  made := body.made
  renewed := {name | name ∈ body.renewed ∧ (body.declared name = none ∨ name ∈ body.kept)}
  kept := Set.univ
  declared := body.declared

/-- A declaration is live where it has been met, and only renewing replaces what was live before. -/
structure Proper (transfer : Transfer) (scope : ScopeId) : Prop where
  declared : ∀ node, transfer.Declares scope node → node ∈ transfer.made
  absent : ∀ name, transfer.declared name = none → name ∈ transfer.kept ∨ name ∈ transfer.renewed

theorem Proper.idle (scope : ScopeId) : Transfer.idle.Proper scope := by
  refine ⟨?_, fun name _ => .inl trivial⟩
  intro node found
  obtain ⟨declaration, met, _⟩ := found
  cases met

theorem Proper.seq {scope : ScopeId} {first second : Transfer} (one : first.Proper scope)
    (other : second.Proper scope) : (Transfer.seq scope first second).Proper scope := by
  constructor
  · intro node found
    obtain ⟨declaration, met, same⟩ := found
    simp only [Transfer.seq] at met
    cases last : second.declared node.name with
    | some found =>
      rw [last, Option.some_or, Option.some.injEq] at met
      exact .inl (other.declared node ⟨declaration, last.trans (congrArg some met), same⟩)
    | none =>
      rw [last, Option.none_or] at met
      have made := one.declared node ⟨declaration, met, same⟩
      rcases other.absent node.name last with kept | renewed
      · exact .inr (.inr ⟨made, kept⟩)
      · exact .inr (.inl ⟨renewed, declaration, met, same⟩)
  · intro name missing
    obtain ⟨noSecond, noFirst⟩ := Option.or_eq_none_iff.mp missing
    rcases other.absent name noSecond with kept | renewed
    · rcases one.absent name noFirst with before | before
      · exact .inl ⟨before, kept⟩
      · exact .inr (.inr ⟨before, kept⟩)
    · exact .inr (.inl ⟨renewed, noFirst⟩)

theorem Proper.fork {scope : ScopeId} {left right : Transfer} (one : left.Proper scope)
    (other : right.Proper scope) : (Transfer.fork scope left right).Proper scope := by
  constructor
  · intro node found
    obtain ⟨declaration, met, same⟩ := found
    simp only [Transfer.fork] at met
    cases last : right.declared node.name with
    | some found =>
      rw [last, Option.some_or, Option.some.injEq] at met
      exact .inr (.inl (other.declared node ⟨declaration, last.trans (congrArg some met), same⟩))
    | none =>
      rw [last, Option.none_or] at met
      exact .inl (one.declared node ⟨declaration, met, same⟩)
  · intro name missing
    obtain ⟨noRight, noLeft⟩ := Option.or_eq_none_iff.mp missing
    rcases one.absent name noLeft with kept | renewed
    · exact .inl (.inl kept)
    · exact .inr (.inl renewed)

theorem Proper.loop {scope : ScopeId} {body : Transfer} (proper : body.Proper scope) :
    body.loop.Proper scope :=
  ⟨fun node declares => proper.declared node declares, fun _ _ => .inl trivial⟩

/-- The transfer says what a function of views does in a scope; the scopes from `next` to `last` are its
own, and it leaves the others alone. -/
structure Describes (transfer : Transfer) (scope : ScopeId) (next last : Nat) (change : View → View) : Prop where
  live : ∀ view node, node ∈ (change view).live ↔ node ∈ transfer.made ∨
    (node.name ∈ transfer.renewed ∧ view.Pinned scope node) ∨ (node ∈ view.live ∧ node.name ∈ transfer.kept)
  pins : ∀ view name, (change view).pins scope name = (transfer.declared name).or (view.pins scope name)
  others : ∀ view (other : Nat), other ≠ scope → other < next ∨ last ≤ other →
    (change view).pins other = view.pins other
  edges : ∀ view, view.edges ⊆ (change view).edges

namespace Describes

variable {transfer first second : Transfer} {scope : ScopeId} {next middle last : Nat} {change one two : View → View}

/-- What is pinned behind a route. -/
theorem pinned (describes : transfer.Describes scope next last change) (view : View) (node : Node) :
    (change view).Pinned scope node ↔
      transfer.Declares scope node ∨ (transfer.declared node.name = none ∧ view.Pinned scope node) := by
  simp only [View.Pinned, describes.pins, Declares]
  cases transfer.declared node.name with
  | none => simp
  | some declaration => simp

theorem idle (scope : ScopeId) (next : Nat) : Transfer.idle.Describes scope next next id := by
  refine ⟨fun view node => ?_, fun view name => ?_, fun _ _ _ _ => rfl, fun _ => subset_rfl⟩
  · simp [Transfer.idle]
  · simp [Transfer.idle]

theorem seq (start : first.Describes scope next middle one) (behind : second.Describes scope middle last two)
    (early : next ≤ middle) (late : middle ≤ last) :
    (Transfer.seq scope first second).Describes scope next last fun view => two (one view) := by
  refine ⟨fun view node => ?_, fun view name => ?_, fun view other differ outside => ?_,
    fun view => (start.edges view).trans (behind.edges _)⟩
  · rw [behind.live, start.pinned, start.live]
    simp only [Transfer.seq, Set.mem_ofPred_eq, Set.mem_inter_iff]
    grind
  · rw [behind.pins, start.pins]
    simp only [Transfer.seq, Option.or_assoc]
  · rw [behind.others _ other differ (by omega), start.others _ other differ (by omega)]

theorem fork (start : first.Describes scope next middle one) (other : second.Describes scope middle last two)
    (early : next ≤ middle) (late : middle ≤ last) :
    (Transfer.fork scope first second).Describes scope next last fun view =>
      (two ((one view).withLive view.live)).withLive
        ((one view).live ∪ (two ((one view).withLive view.live)).live) := by
  have same (view : View) (node : Node) : ((one view).withLive view.live).Pinned scope node ↔
      (one view).Pinned scope node := Iff.rfl
  refine ⟨fun view node => ?_, fun view name => ?_, fun view scope' differ outside => ?_,
    fun view => (start.edges view).trans (other.edges ((one view).withLive view.live))⟩
  · simp only [View.withLive_live, Set.mem_union]
    rw [other.live, same, start.pinned, start.live]
    simp only [Transfer.fork, Set.mem_ofPred_eq, Set.mem_union, View.withLive_live]
    grind
  · simp only [View.withLive_pins, other.pins, start.pins, Transfer.fork, Option.or_assoc]
  · rw [View.withLive_pins, other.others _ scope' differ (by omega), View.withLive_pins,
      start.others _ scope' differ (by omega)]

end Describes
end Transfer

namespace View

/-- The view with which the next pass over a body starts. -/
def next (body : View → View) (entry : Set Node) (view : View) : View :=
  (body view).withLive (entry ∪ (body view).live)

/-- What the passes over a loop start with. -/
inductive Passes (body : View → View) (entry : Set Node) (start : View) : View → Prop where
  | first : Passes body entry start start
  | again {view : View} (before : Passes body entry start view) : Passes body entry start (view.next body entry)

/-- The view with which the last pass over a loop starts. -/
structure Settled (body : View → View) (start last : View) : Prop where
  passes : Passes body start.live start last
  stable : start.live ∪ (body last).live = last.live

theorem Settled.closed {body : View → View} {start last : View} (settled : Settled body start last) :
    start.live ⊆ last.live ∧ (body last).live ⊆ last.live := by
  rw [← Set.union_subset_iff, settled.stable]

theorem settle_stable {body : View → View} {entry : Set Node} {view : View} (passes : Nat)
    (stable : entry ∪ (body view).live = view.live) :
    settle body entry (passes + 1) view = (body view).withLive view.live := by
  simp only [settle, if_pos stable]

theorem settle_again {body : View → View} {entry : Set Node} {view : View} (passes : Nat)
    (further : ¬ entry ∪ (body view).live = view.live) :
    settle body entry (passes + 1) view = settle body entry passes (view.next body entry) := by
  simp only [settle, if_neg further]
  rfl

end View

namespace Transfer.Describes

variable {transfer : Transfer} {scope : ScopeId} {next last : Nat} {body : View → View}

/-- What is pinned after a first pass stays so. -/
theorem pinned_again (describes : transfer.Describes scope next last body) (entry : Set Node) (view : View)
    (node : Node) : ((view.next body entry).next body entry).Pinned scope node ↔
      (view.next body entry).Pinned scope node := by
  have second := describes.pinned (view.next body entry) node
  have first := describes.pinned view node
  have sameSecond : ((view.next body entry).next body entry).Pinned scope node ↔
      (body (view.next body entry)).Pinned scope node := Iff.rfl
  have sameFirst : (view.next body entry).Pinned scope node ↔ (body view).Pinned scope node := Iff.rfl
  rw [sameSecond, second, sameFirst, first]
  grind

theorem live_next (describes : transfer.Describes scope next last body) (entry : Set Node) (view : View)
    (node : Node) : node ∈ (view.next body entry).live ↔ node ∈ entry ∨ node ∈ transfer.made ∨
      (node.name ∈ transfer.renewed ∧ view.Pinned scope node) ∨ (node ∈ view.live ∧ node.name ∈ transfer.kept) := by
  rw [← describes.live]
  rfl

/-- The third pass over a loop starts where it ends. -/
theorem stable_third (describes : transfer.Describes scope next last body) (view : View) :
    let third := (view.next body view.live).next body view.live
    view.live ∪ (body third).live = third.live := by
  intro third
  ext node
  have before : node ∈ third.live ↔ _ := describes.live_next view.live (view.next body view.live) node
  rw [Set.mem_union, describes.live, describes.pinned_again view.live view node]
  constructor
  · intro found
    rcases found with old | made | renewed | ⟨there, _⟩
    · exact before.mpr (.inl old)
    · exact before.mpr (.inr (.inl made))
    · exact before.mpr (.inr (.inr (.inl renewed)))
    · exact there
  · intro there
    rcases before.mp there with old | made | renewed | ⟨_, kept⟩
    · exact .inl old
    · exact .inr (.inl made)
    · exact .inr (.inr (.inl renewed))
    · exact .inr (.inr (.inr ⟨there, kept⟩))

theorem settled (describes : transfer.Describes scope next last body) {limit : Nat} (enough : 3 ≤ limit)
    (view : View) : ∃ final, View.Settled body view final ∧
      View.settle body view.live limit view = (body final).withLive final.live := by
  obtain ⟨passes, rfl⟩ := Nat.exists_eq_add_of_le' enough
  by_cases first : view.live ∪ (body view).live = view.live
  · exact ⟨view, ⟨.first, first⟩, View.settle_stable _ first⟩
  rw [View.settle_again _ first]
  by_cases second : view.live ∪ (body (view.next body view.live)).live = (view.next body view.live).live
  · exact ⟨_, ⟨.again .first, second⟩, View.settle_stable _ second⟩
  rw [View.settle_again _ second]
  exact ⟨_, ⟨.again (.again .first), describes.stable_third view⟩, View.settle_stable _ (describes.stable_third view)⟩

/-- What a pass over a loop starts with, in closed form. -/
theorem pins_passes (describes : transfer.Describes scope next last body) {view final : View}
    (passes : View.Passes body view.live view final) (name : String) :
    (body final).pins scope name = (transfer.declared name).or (view.pins scope name) := by
  rw [describes.pins]
  induction passes with
  | first => rfl
  | @again before _ ih =>
    have same : (before.next body view.live).pins scope name = (body before).pins scope name := rfl
    rw [same, describes.pins, ih, ← Option.or_assoc, Option.or_self]

theorem others_passes (describes : transfer.Describes scope next last body) {view final : View}
    (passes : View.Passes body view.live view final) (other : Nat) (differ : other ≠ scope)
    (outside : other < next ∨ last ≤ other) : final.pins other = view.pins other := by
  induction passes with
  | first => rfl
  | @again before _ ih => exact (describes.others before other differ outside).trans ih

theorem edges_passes (describes : transfer.Describes scope next last body) {view final : View}
    (passes : View.Passes body view.live view final) : view.edges ⊆ final.edges := by
  induction passes with
  | first => exact subset_rfl
  | @again before _ ih => exact ih.trans (describes.edges before)

/-- From the second pass on, the declarations of the body count. -/
theorem pinned_passes (describes : transfer.Describes scope next last body) {view final : View}
    (passes : View.Passes body view.live view final) (node : Node) : final = view ∨
      (final.Pinned scope node ↔
        transfer.Declares scope node ∨ (transfer.declared node.name = none ∧ view.Pinned scope node)) := by
  cases passes with
  | first => exact .inl rfl
  | @again before earlier =>
    have pins := describes.pins_passes earlier node.name
    have same : (before.next body view.live).pins scope node.name = (body before).pins scope node.name := rfl
    apply Or.inr
    simp only [View.Pinned, same, pins, Declares]
    cases transfer.declared node.name <;> simp

/-- The definitions live at the start of a settled loop. -/
theorem live_settled (describes : transfer.Describes scope next last body) (proper : transfer.Proper scope)
    {view final : View} (settled : View.Settled body view final) (node : Node) :
    node ∈ final.live ↔ node ∈ transfer.made ∨ (node.name ∈ transfer.loop.renewed ∧ view.Pinned scope node) ∨
      node ∈ view.live := by
  have stable : node ∈ final.live ↔ node ∈ view.live ∨ node ∈ transfer.made ∨
      (node.name ∈ transfer.renewed ∧ final.Pinned scope node) ∨ (node ∈ final.live ∧ node.name ∈ transfer.kept) := by
    rw [← describes.live, ← Set.mem_union, settled.stable]
  have within {view' : View} (passes : View.Passes body view.live view view') (there : node ∈ view'.live) :
      node ∈ view.live ∨ node ∈ transfer.made ∨ (node.name ∈ transfer.renewed ∧ view.Pinned scope node) := by
    induction passes with
    | first => exact .inl there
    | @again before earlier ih =>
      rcases (describes.live_next view.live before node).mp there with old | made | ⟨renewed, pinned⟩ |
        ⟨was, _⟩
      · exact .inl old
      · exact .inr (.inl made)
      · rcases describes.pinned_passes earlier node with rfl | known
        · exact .inr (.inr ⟨renewed, pinned⟩)
        · rcases known.mp pinned with declares | ⟨_, before⟩
          · exact .inr (.inl (proper.declared node declares))
          · exact .inr (.inr ⟨renewed, before⟩)
      · exact ih was
  have stays {view' : View} (passes : View.Passes body view.live view view') (renewed : node.name ∈ transfer.renewed)
      (kept : node.name ∈ transfer.kept) (pinned : view.Pinned scope node) :
      view' = view ∨ node ∈ view'.live := by
    induction passes with
    | first => exact .inl rfl
    | @again before earlier ih =>
      refine .inr ((describes.live_next view.live before node).mpr ?_)
      rcases ih with rfl | was
      · exact .inr (.inr (.inl ⟨renewed, pinned⟩))
      · exact .inr (.inr (.inr ⟨was, kept⟩))
  constructor
  · intro there
    rcases describes.pinned_passes settled.passes node with rfl | known
    · exact .inr (.inr there)
    · rcases stable.mp there with old | made | ⟨renewed, pinned⟩ | ⟨_, kept⟩
      · exact .inr (.inr old)
      · exact .inl made
      · rcases known.mp pinned with declares | ⟨absent, before⟩
        · exact .inl (proper.declared node declares)
        · exact .inr (.inl ⟨⟨renewed, .inl absent⟩, before⟩)
      · rcases within settled.passes there with old | made | ⟨renewed, pinned⟩
        · exact .inr (.inr old)
        · exact .inl made
        · exact .inr (.inl ⟨⟨renewed, .inr kept⟩, pinned⟩)
  · intro found
    rcases found with made | ⟨⟨renewed, absent | kept⟩, pinned⟩ | old
    · exact stable.mpr (.inr (.inl made))
    · refine stable.mpr (.inr (.inr (.inl ⟨renewed, ?_⟩)))
      rcases describes.pinned_passes settled.passes node with rfl | known
      · exact pinned
      · exact known.mpr (.inr ⟨absent, pinned⟩)
    · rcases stays settled.passes renewed kept pinned with rfl | there
      · exact stable.mpr (.inr (.inr (.inl ⟨renewed, pinned⟩)))
      · exact there
    · exact stable.mpr (.inl old)

theorem loop (describes : transfer.Describes scope next last body) (proper : transfer.Proper scope)
    {limit : Nat} (enough : 3 ≤ limit) :
    transfer.loop.Describes scope next last fun view => View.settle body view.live limit view := by
  refine ⟨fun view node => ?_, fun view name => ?_, fun view other differ outside => ?_, fun view => ?_⟩ <;>
    obtain ⟨final, settled, same⟩ := describes.settled enough view <;> simp only [same]
  · rw [View.withLive_live, describes.live_settled proper settled]
    simp only [Transfer.loop, Set.mem_univ, and_true]
  · exact describes.pins_passes settled.passes name
  · have before := describes.others_passes settled.passes other differ outside
    exact (describes.others final other differ outside).trans before
  · exact (describes.edges_passes settled.passes).trans (describes.edges final)

end Transfer.Describes

def Step.transfer (scope : ScopeId) : Step → Transfer
  | .use .. | .checkArity .. => .idle
  | .define id name _ kind =>
    if kind = .partialDefinition then { Transfer.idle with made := {.occurrence id name kind} }
    else ⟨{.occurrence id name kind}, {name}, {other | other ≠ name}, fun _ => none⟩
  | .declare declaration _ name _ =>
    ⟨{.binding declaration scope name}, ∅, {other | other ≠ name},
      fun other => if other = name then some declaration else none⟩

def Route.transfer (scope : ScopeId) : Route → Transfer
  | .stay | .jump _ | .aside _ | .function .. => .idle
  | .step action => action.transfer scope
  | .seq first second | .ensure first second | .finish first second =>
    .seq scope (first.transfer scope) (second.transfer scope)
  | .fork left right => .fork scope (left.transfer scope) (right.transfer scope)
  | .attempt body => .fork scope (body.transfer scope) .idle
  | .loop body => (body.transfer scope).loop

theorem Step.proper_transfer (scope : ScopeId) (action : Step) : (action.transfer scope).Proper scope := by
  cases action with
  | use | checkArity => exact .idle scope
  | define id name line kind =>
    by_cases part : kind = .partialDefinition <;> simp only [transfer, part, if_true, if_false]
    · refine ⟨?_, fun _ _ => .inl trivial⟩
      intro node found
      obtain ⟨declaration, met, _⟩ := found
      cases met
    · refine ⟨?_, fun other _ => ?_⟩
      · intro node found
        obtain ⟨declaration, met, _⟩ := found
        cases met
      · by_cases same : other = name
        · exact .inr same
        · exact .inl same
  | declare declaration id name line =>
    refine ⟨?_, fun other absent => ?_⟩
    · intro node found
      obtain ⟨found, met, same⟩ := found
      simp only [transfer, Option.ite_none_right_eq_some, Option.some.injEq] at met
      obtain ⟨called, rfl⟩ := met
      rw [called] at same
      exact same
    · apply Or.inl
      intro same
      simp [transfer, same] at absent

theorem Route.proper_transfer (scope : ScopeId) (route : Route) : (route.transfer scope).Proper scope := by
  induction route with
  | stay | jump _ | aside _ _ | function _ _ _ _ _ => exact .idle scope
  | step action => exact action.proper_transfer scope
  | seq first second ihFirst ihSecond | ensure first second ihFirst ihSecond
  | finish first second ihFirst ihSecond => exact ihFirst.seq ihSecond
  | fork left right ihLeft ihRight => exact ihLeft.fork ihRight
  | attempt body ih => exact ih.fork (.idle scope)
  | loop body ih => exact ih.loop

theorem Step.describes (scope : ScopeId) (next : Nat) (action : Step) :
    (action.transfer scope).Describes scope next next fun view => action.see scope view := by
  have read (view : View) (node : Node) : view.edges ⊆ (view.read node).edges :=
    fun edge member => .inl member
  cases action with
  | use id name line indexed arrayOnly =>
    have idle := Transfer.Describes.idle scope next
    exact ⟨fun view => idle.live view, fun view => idle.pins view, fun view => idle.others view,
      fun view => read view _⟩
  | checkArity line targets source => exact Transfer.Describes.idle scope next
  | define id name line kind =>
    by_cases part : kind = .partialDefinition
    · simp only [see, transfer, if_pos part]
      refine ⟨fun view node => ?_, fun _ _ => rfl, fun _ _ _ _ => rfl, fun view => read view _⟩
      simp [Transfer.idle]
    · simp only [see, transfer, if_neg part]
      refine ⟨fun view node => ?_, fun _ _ => rfl, fun _ _ _ _ => rfl, fun _ => subset_rfl⟩
      exact Iff.rfl
  | declare declaration id name line =>
    refine ⟨fun view node => ?_, fun view other => ?_, fun view other differ _ => ?_, fun view => Set.subset_insert _ _⟩
    · simp [see, View.declare, transfer]
    · by_cases same : other = name <;> simp [see, View.declare, transfer, same]
    · funext text
      simp [see, View.declare, differ]

theorem Route.Simple.declared {route : Route} (simple : route.Simple) (scope : ScopeId) (name : String) :
    (route.transfer scope).declared name = none := by
  induction route with
  | stay | jump _ | aside _ _ => rfl
  | step action =>
    cases action with
    | use | checkArity => rfl
    | define id text line kind =>
      by_cases part : kind = .partialDefinition <;> simp [transfer, Step.transfer, part, Transfer.idle]
    | declare => exact simple.elim
  | seq first second ihFirst ihSecond | fork first second ihFirst ihSecond | ensure first second ihFirst ihSecond
  | finish first second ihFirst ihSecond =>
    exact Option.or_eq_none_iff.mpr ⟨ihSecond simple.2, ihFirst simple.1⟩
  | attempt body ih => exact ih simple
  | loop | function => exact simple.elim

/-- Every tidy route does what its transfer says. -/
theorem Route.describes {limit : Nat} (enough : 3 ≤ limit) (route : Route) (tidy : route.Tidy) :
    ∀ {scope : ScopeId} {next : Nat}, scope < next →
      (route.transfer scope).Describes scope next (next + route.functionIds.length)
      (route.see limit scope next) := by
  induction route with
  | stay | jump _ => exact fun {scope next} _ => .idle scope next
  | step action => exact fun {scope next} _ => action.describes scope next
  | seq first second ihFirst ihSecond | ensure first second ihFirst ihSecond
  | finish first second ihFirst ihSecond =>
    intro scope next inside
    have both := (ihFirst tidy.1 inside).seq (ihSecond tidy.2 (Nat.lt_add_right _ inside)) (by omega)
      (by omega)
    rw [Nat.add_assoc, ← List.length_append] at both
    exact both
  | fork left right ihLeft ihRight =>
    intro scope next inside
    have both := (ihLeft tidy.1 inside).fork (ihRight tidy.2 (Nat.lt_add_right _ inside)) (by omega)
      (by omega)
    rw [Nat.add_assoc, ← List.length_append] at both
    exact both
  | attempt body ih =>
    intro scope next inside
    have both := (ih tidy inside).fork (.idle scope (next + body.functionIds.length)) (by omega) (by omega)
    refine ⟨fun view node => ?_, both.pins, both.others, both.edges⟩
    rw [Route.transfer, ← both.live]
    exact or_comm
  | loop body ih =>
    intro scope next inside
    exact (ih tidy inside).loop (body.proper_transfer scope) enough
  | aside body ih =>
    intro scope next inside
    have inner := ih tidy.tidy inside
    refine ⟨fun view node => ?_, fun view name => ?_, inner.others, inner.edges⟩
    · simp [Route.see, transfer, Transfer.idle]
    · simp [Route.see, transfer, Transfer.idle, inner.pins, tidy.declared scope name]
  | function id name line body ih =>
    intro scope next inside
    have inner := ih tidy (Nat.lt_succ_self next)
    refine ⟨fun view node => ?_, fun view text => ?_, fun view other differ outside => ?_, fun view =>
      inner.edges (view.withLive {node | node ∈ implicitNodes next})⟩
    · simp [Route.see, transfer, Transfer.idle]
    · have kept := inner.others (view.withLive {node | node ∈ implicitNodes next}) scope (Nat.ne_of_lt inside)
        (.inl (Nat.lt_succ_of_lt inside))
      simpa [Route.see, transfer, Transfer.idle] using congrFun kept text
    · simp only [functionIds, List.length_cons] at outside
      exact inner.others (view.withLive {node | node ∈ implicitNodes next}) other (by omega) (by omega)

end ArrayLift
