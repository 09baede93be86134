import ArrayLift.Proofs.Arity.Visits
import ArrayLift.Proofs.Reaching.Pins
import ArrayLift.Proofs.Walk.Refinement

/-! Which loops are passed once: those that make nothing live that is not live before them. Of the loops that
declare nothing, these are the ones that define nothing. -/
namespace ArrayLift

open DefUse

/-- None of these definitions is live. -/
def View.Lacks (view : View) (ids : List IdentId) : Prop :=
  ∀ node ∈ view.live, ∀ id ∈ ids, node.occurrence? ≠ some id

namespace Route

section
variable (table : ScopeTable)

/-- Every loop that takes several values from a single one has a property. -/
def EachLoop (property : Route → Prop) : Route → Prop
  | .stay | .jump _ | .step _ => True
  | .seq first second | .fork first second | .ensure first second | .finish first second =>
    EachLoop property first ∧ EachLoop property second
  | .attempt body | .aside body | .function _ _ _ body => EachLoop property body
  | .loop body => body.mismatches table = 0 ∨ (EachLoop property body ∧ property body)

/-- Every such loop makes nothing live that is not live before it. -/
def SettledAtOnce (limit : Nat) : Route → ScopeId → ScopeId → View → Prop
  | .stay, _, _, _ | .jump _, _, _, _ | .step _, _, _, _ => True
  | .seq first second, scope, next, view | .ensure first second, scope, next, view
  | .finish first second, scope, next, view =>
    SettledAtOnce limit first scope next view ∧
      SettledAtOnce limit second scope (next + first.functionIds.length) (first.see limit scope next view)
  | .fork left right, scope, next, view =>
    SettledAtOnce limit left scope next view ∧
      SettledAtOnce limit right scope (next + left.functionIds.length)
        ((left.see limit scope next view).withLive view.live)
  | .attempt body, scope, next, view | .aside body, scope, next, view =>
    SettledAtOnce limit body scope next view
  | .loop body, scope, next, view => body.mismatches table = 0 ∨
    (SettledAtOnce limit body scope next view ∧ (body.see limit scope next view).live ⊆ view.live)
  | .function _ _ _ body, _, next, view =>
    SettledAtOnce limit body next (next + 1) (view.withLive {node | node ∈ implicitNodes next})

end

variable {table : ScopeTable} {limit : Nat} {scope next : ScopeId}

/-- The walk passes a loop once if what is seen there is settled at once. -/
theorem passedOnce_iff {census : Census} (some_pass : 0 < limit) (route : Route) :
    ∀ (scope next : ScopeId) (point : Point), census.Covers route scope next → point.Valid census →
      next ≤ point.findings.table.scopes.length →
      (route.PassedOnce table limit scope point ↔ route.SettledAtOnce table limit scope next point.view) := by
  induction route with
  | stay | jump _ | step _ => exact fun _ _ _ _ _ _ => Iff.rfl
  | seq first second ihFirst ihSecond | ensure first second ihFirst ihSecond
  | finish first second ihFirst ihSecond =>
    intro scope next point covers valid early
    have covers : census.Covers (.seq first second) scope next := ⟨covers.occurrences, covers.functions⟩
    have start := first.walk_follows some_pass scope next point covers.left valid early
    have behind := ihSecond scope _ _ covers.right start.reaches.valid start.opened
    rw [start.reaches.view] at behind
    exact and_congr (ihFirst scope next point covers.left valid early) behind
  | fork left right ihLeft ihRight =>
    intro scope next point covers valid early
    have covers : census.Covers (.seq left right) scope next := ⟨covers.occurrences, covers.functions⟩
    have start := left.walk_follows some_pass scope next point covers.left valid early
    have back := start.reaches.back valid
    have other := ihRight scope _ _ covers.right back.valid start.opened
    rw [back.view] at other
    exact and_congr (ihLeft scope next point covers.left valid early) other
  | attempt body ih | aside body ih =>
    intro scope next point covers
    exact ih scope next point ⟨covers.occurrences, covers.functions⟩
  | loop body ih =>
    intro scope next point covers valid early
    have covers : census.Covers body scope next := ⟨covers.occurrences, covers.functions⟩
    have pass := body.walk_follows some_pass scope next point covers valid early
    have same := pass.reaches.same_iff valid (valid.flow.mono pass.reaches.grows.graph)
    rw [valid.flow.live_mono pass.reaches.grows.graph] at same
    exact or_congr_right (and_congr (ih scope next point covers valid early) (same.trans Set.union_eq_left))
  | function id name line body ih =>
    intro scope next point covers valid early
    obtain ⟨known, rfl, listed, named, inner⟩ := covers.function
    obtain ⟨own, entered, room⟩ := valid.reaches_function named listed early
    have inside := ih next (next + 1) _ inner entered.valid room
    rw [entered.view] at inside
    simp only [PassedOnce, SettledAtOnce, own]
    exact inside

theorem transfer_of_no_definition {route : Route} (none : route.definitions = [])
    (undeclared : route.bindings scope = []) : route.transfer scope = .idle := by
  have seq_idle : Transfer.seq scope .idle .idle = .idle := by
    simp [Transfer.seq, Transfer.idle]
  have fork_idle : Transfer.fork scope .idle .idle = .idle := by
    simp [Transfer.fork, Transfer.idle]
  have loop_idle : Transfer.idle.loop = .idle := by
    simp [Transfer.loop, Transfer.idle]
  induction route with
  | stay | jump _ | aside _ _ | function _ _ _ _ _ => rfl
  | step action =>
    cases action with
    | use | checkArity => rfl
    | declare => cases undeclared
    | define => cases none
  | seq first second ihFirst ihSecond | ensure first second ihFirst ihSecond
  | finish first second ihFirst ihSecond =>
    obtain ⟨noFirst, noSecond⟩ := List.append_eq_nil_iff.mp none
    obtain ⟨freeFirst, freeSecond⟩ := List.append_eq_nil_iff.mp undeclared
    rw [transfer, ihFirst noFirst freeFirst, ihSecond noSecond freeSecond, seq_idle]
  | fork first second ihFirst ihSecond =>
    obtain ⟨noFirst, noSecond⟩ := List.append_eq_nil_iff.mp none
    obtain ⟨freeFirst, freeSecond⟩ := List.append_eq_nil_iff.mp undeclared
    rw [transfer, ihFirst noFirst freeFirst, ihSecond noSecond freeSecond, fork_idle]
  | attempt body ih => rw [transfer, ih none undeclared, fork_idle]
  | loop body ih => rw [transfer, ih none undeclared, loop_idle]

/-- Without declarations, the last definition of some name stays live. -/
theorem exists_made {route : Route} (some : route.definitions ≠ []) (undeclared : route.bindings scope = []) :
    ∃ node ∈ (route.transfer scope).made, ∃ id ∈ route.definitions, node.occurrence? = .some id := by
  induction route with
  | stay | jump _ | aside _ _ | function _ _ _ _ _ => exact absurd rfl some
  | step action =>
    cases action with
    | use | declare | checkArity => exact absurd rfl some
    | define id name line kind =>
      refine ⟨.occurrence id name kind, ?_, id, List.mem_singleton_self id, rfl⟩
      by_cases part : kind = .partialDefinition <;> simp [transfer, Step.transfer, part]
  | seq first second ihFirst ihSecond | ensure first second ihFirst ihSecond
  | finish first second ihFirst ihSecond =>
    obtain ⟨freeFirst, freeSecond⟩ := List.append_eq_nil_iff.mp undeclared
    by_cases last : second.definitions = []
    · -- Behind the first part nothing is defined any more, so what is live there stays so.
      have before : first.definitions ≠ [] := fun none => some (List.append_eq_nil_iff.mpr ⟨none, last⟩)
      obtain ⟨node, made, id, own, same⟩ := ihFirst before freeFirst
      refine ⟨node, .inr (.inr ⟨made, ?_⟩), id, List.mem_append_left _ own, same⟩
      rw [transfer_of_no_definition last freeSecond]
      trivial
    · obtain ⟨node, made, id, own, same⟩ := ihSecond last freeSecond
      exact ⟨node, .inl made, id, List.mem_append_right _ own, same⟩
  | fork first second ihFirst ihSecond =>
    obtain ⟨freeFirst, freeSecond⟩ := List.append_eq_nil_iff.mp undeclared
    by_cases last : second.definitions = []
    · have before : first.definitions ≠ [] := fun none => some (List.append_eq_nil_iff.mpr ⟨none, last⟩)
      obtain ⟨node, made, id, own, same⟩ := ihFirst before freeFirst
      exact ⟨node, .inl made, id, List.mem_append_left _ own, same⟩
    · obtain ⟨node, made, id, own, same⟩ := ihSecond last freeSecond
      exact ⟨node, .inr (.inl made), id, List.mem_append_right _ own, same⟩
  | attempt body ih =>
    obtain ⟨node, made, id, own, same⟩ := ih some undeclared
    exact ⟨node, .inl made, id, own, same⟩
  | loop body ih => exact ih some undeclared

/-- Behind a route, what is live was live before, is pinned or stands on the route. -/
theorem lacks_see {route : Route} (enough : 3 ≤ limit) (tidy : route.Tidy) (inside : scope < next)
    {view : View} {ids : List IdentId} (apart : ∀ id ∈ route.definitions, id ∉ ids)
    (lacks : view.Lacks ids) : (route.see limit scope next view).Lacks ids := by
  intro node live id listed same
  have ordinary : ¬ node.isBinding = true := by
    intro binding
    rw [Node.occurrence?_of_isBinding binding] at same
    cases same
  rcases ((route.describes enough tidy inside).live view node).mp live with made | ⟨_, pinned⟩ | ⟨old, _⟩
  · rcases places_of_made made with declared | ⟨other, own, equal⟩
    · exact ordinary (isBinding_of_mem declared)
    · obtain rfl : other = id := Option.some.inj (equal.symm.trans same)
      exact apart other own listed
  · exact ordinary (isBinding_of_pinned pinned)
  · exact lacks node old id listed same

/-- A loop that declares nothing is settled at once if it defines nothing. -/
theorem see_subset_iff {body : Route} (enough : 3 ≤ limit) (tidy : body.Tidy) (inside : scope < next)
    {view : View} (undeclared : body.bindings scope = []) (lacks : view.Lacks body.definitions) :
    (body.see limit scope next view).live ⊆ view.live ↔ body.definitions = [] := by
  have live (node : Node) := (body.describes enough tidy inside).live view node
  constructor
  · intro settled
    by_contra some
    obtain ⟨node, made, id, own, same⟩ := exists_made some undeclared
    exact lacks node (settled ((live node).mpr (.inl made))) id own same
  · intro none node there
    rw [live, transfer_of_no_definition none undeclared] at there
    rcases there with made | ⟨renewed, _⟩ | ⟨old, _⟩
    · cases made
    · cases renewed
    · exact old

/-- If none of the loops declares anything, those that are settled at once are those that define nothing. -/
theorem settledAtOnce_iff (enough : 3 ≤ limit) (route : Route) (tidy : route.Tidy)
    (apart : route.LoopsApart)
    (undeclared : route.EachLoop table fun body => ∀ scope, body.bindings scope = []) :
    ∀ (scope next : ScopeId) (view : View), scope < next → view.Lacks route.loopDefinitions →
      (route.SettledAtOnce table limit scope next view ↔ route.EachLoop table fun body => body.definitions = []) := by
  induction route with
  | stay | jump _ | step _ => exact fun _ _ _ _ _ => Iff.rfl
  | seq first second ihFirst ihSecond | ensure first second ihFirst ihSecond
  | finish first second ihFirst ihSecond =>
    intro scope next view inside lacks
    have before : view.Lacks first.loopDefinitions := fun node live id listed =>
      lacks node live id (List.mem_append_left _ listed)
    have behind : view.Lacks second.loopDefinitions := fun node live id listed =>
      lacks node live id (List.mem_append_right _ listed)
    have later : scope < next + first.functionIds.length := Nat.lt_add_right _ inside
    apply and_congr (ihFirst tidy.1 apart.1 undeclared.1 scope next view inside before)
    exact ihSecond tidy.2 apart.2.1 undeclared.2 scope _ _ later
      (lacks_see enough tidy.1 inside apart.2.2 behind)
  | fork left right ihLeft ihRight =>
    intro scope next view inside lacks
    have inLeft : view.Lacks left.loopDefinitions := fun node live id listed =>
      lacks node live id (List.mem_append_left _ listed)
    have inRight : ((left.see limit scope next view).withLive view.live).Lacks right.loopDefinitions :=
      fun node live id listed => lacks node live id (List.mem_append_right _ listed)
    have later : scope < next + left.functionIds.length := Nat.lt_add_right _ inside
    apply and_congr (ihLeft tidy.1 apart.1 undeclared.1 scope next view inside inLeft)
    exact ihRight tidy.2 apart.2.1 undeclared.2 scope _ _ later inRight
  | attempt body ih => exact ih tidy apart undeclared
  | aside body ih =>
    intro scope next view inside _
    have straight : body.loopDefinitions = [] := Simple.loopDefinitions tidy
    apply ih (Simple.tidy tidy) apart undeclared scope next view inside
    intro node _ id listed
    rw [straight] at listed
    cases listed
  | loop body ih =>
    intro scope next view inside lacks
    by_cases none : body.mismatches table = 0
    · exact iff_of_true (.inl none) (.inl none)
    obtain ⟨inner, bare⟩ := undeclared.resolve_left none
    have settled := ih tidy apart inner scope next view inside fun node live id listed =>
      lacks node live id (body.loopDefinitions_subset listed)
    have tidy : body.Tidy := tidy
    have once := see_subset_iff enough tidy inside (bare scope) lacks
    exact or_congr_right (and_congr settled once)
  | function id name line body ih =>
    intro scope next view _ _
    apply ih tidy apart undeclared next (next + 1) _ (Nat.lt_succ_self next)
    intro node live id _ same
    obtain ⟨binding, _, rfl⟩ := List.mem_map.mp live
    cases same

end Route
end ArrayLift
