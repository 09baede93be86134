import ArrayLift.Proofs.Execution.Soundness
import ArrayLift.Proofs.Reaching.Events

/-! Which uses are reached at all. Whether some definition reaches a use depends on the names that are defined
before it and on nothing else: not on the definitions themselves, and not on the declarations that are in force. -/
namespace ArrayLift

open DefUse

/-- Some definition reaches the node. -/
def View.Reached (view : View) (node : Node) : Prop :=
  ∃ definition, (definition, node) ∈ view.edges

theorem View.Reached.mono {view later : View} {node : Node} (edges : view.edges ⊆ later.edges)
    (reached : view.Reached node) : later.Reached node :=
  reached.imp fun _ edge => edges edge

/-- The names that are live on one of two ways. -/
theorem View.names_union (view one other : View) :
    (view.withLive (one.live ∪ other.live)).names = one.names ∪ other.names := by
  ext name
  constructor
  · rintro ⟨node, left | right, named⟩
    · exact .inl ⟨node, left, named⟩
    · exact .inr ⟨node, right, named⟩
  · rintro (⟨node, left, named⟩ | ⟨node, right, named⟩)
    · exact ⟨node, .inl left, named⟩
    · exact ⟨node, .inr right, named⟩

namespace Route

/-- The names that a route defines in its own scope. -/
def names : Route → Set String
  | .step (.define _ name _ _) | .step (.declare _ _ name _) => {name}
  | .stay | .step _ | .jump _ | .aside _ | .function .. => ∅
  | .seq first second | .fork first second | .ensure first second | .finish first second =>
    names first ∪ names second
  | .attempt body | .loop body => names body

/-- A use on the route in its own scope has its name defined before it, if these names are known at the start. -/
def Reads (id : IdentId) (name : String) : Route → Set String → Prop
  | .step (.use own called _ _ _), known => own = id ∧ called = name ∧ name ∈ known
  | .stay, _ | .step _, _ | .jump _, _ | .function .., _ => False
  | .seq first second, known | .ensure first second, known | .finish first second, known =>
    Reads id name first known ∨ Reads id name second (known ∪ first.names)
  | .fork left right, known => Reads id name left known ∨ Reads id name right known
  | .attempt body, known | .aside body, known => Reads id name body known
  | .loop body, known => Reads id name body (known ∪ body.names)

variable {id : IdentId} {name : String} {limit scope next : Nat}

theorem Reads.mono {route : Route} {known larger : Set String} (within : known ⊆ larger)
    (reads : route.Reads id name known) : route.Reads id name larger := by
  induction route generalizing known larger with
  | stay | jump _ | function _ _ _ _ _ => exact reads
  | step action =>
    cases action with
    | define | declare | checkArity => exact reads
    | use own called line indexed arrayOnly => exact ⟨reads.1, reads.2.1, within reads.2.2⟩
  | seq first second ihFirst ihSecond | ensure first second ihFirst ihSecond
  | finish first second ihFirst ihSecond =>
    exact reads.imp (ihFirst within) (ihSecond (Set.union_subset_union_left _ within))
  | fork left right ihLeft ihRight => exact reads.imp (ihLeft within) (ihRight within)
  | attempt body ih | aside body ih => exact ih within reads
  | loop body ih => exact ih (Set.union_subset_union_left _ within) reads

theorem Reads.step {route : Route} {id : IdentId} {name : String} {known : Set String}
    (reads : route.Reads id name known) : ∃ action ∈ route.steps, action.id? = some id := by
  induction route generalizing known with
  | stay | jump _ | function _ _ _ _ _ => exact reads.elim
  | step action =>
    cases action with
    | define | declare | checkArity => exact reads.elim
    | use own called line indexed arrayOnly =>
      obtain ⟨rfl, _⟩ := reads
      exact ⟨_, List.mem_singleton_self _, rfl⟩
  | seq first second ihFirst ihSecond | ensure first second ihFirst ihSecond
  | finish first second ihFirst ihSecond | fork first second ihFirst ihSecond =>
    rcases reads with early | late
    · obtain ⟨action, own, same⟩ := ihFirst early
      exact ⟨action, List.mem_append_left _ own, same⟩
    · obtain ⟨action, own, same⟩ := ihSecond late
      exact ⟨action, List.mem_append_right _ own, same⟩
  | attempt body ih | aside body ih | loop body ih => exact ih reads

/-- A step adds the name it defines, and no name is lost. -/
theorem names_step (action : Step) (view : View) :
    (action.see scope view).names = view.names ∪ (Route.step action).names := by
  have stays : view.names ⊆ ((Route.step action).see 3 scope (scope + 1) view).names :=
    names_see (Nat.le_refl 3) (show (Route.step action).Tidy from trivial) (Nat.lt_succ_self scope) view
  refine Set.Subset.antisymm ?_ (Set.union_subset stays ?_)
  · rintro known ⟨node, live, named⟩
    cases action with
    | use | checkArity => exact .inl ⟨node, live, named⟩
    | define id name line kind =>
      by_cases part : kind = .partialDefinition
      · simp only [Step.see, part, if_true] at live
        rcases live with rfl | old
        · exact .inr named.symm
        · exact .inl ⟨node, old, named⟩
      · simp only [Step.see, part, if_false] at live
        rcases live with rfl | ⟨same, _⟩ | ⟨old, _⟩
        · exact .inr named.symm
        · exact .inr (named.symm.trans same)
        · exact .inl ⟨node, old, named⟩
    | declare declaration id name line =>
      rcases live with rfl | ⟨old, _⟩
      · rw [Node.name_binding] at named
        exact .inr named.symm
      · exact .inl ⟨node, old, named⟩
  · intro known defined
    cases action with
    | use | checkArity => exact defined.elim
    | define id name line kind =>
      obtain rfl : known = name := defined
      by_cases part : kind = .partialDefinition
      · simp only [Step.see, part, if_true]
        exact ⟨_, .inl rfl, rfl⟩
      · simp only [Step.see, part, if_false]
        exact ⟨_, .inl rfl, rfl⟩
    | declare declaration id name line =>
      obtain rfl : known = name := defined
      exact ⟨_, .inl rfl, Node.name_binding declaration scope known⟩

/-- The passes over a loop start with names that are known before it or defined in it. -/
theorem names_passes {body : View → View} {defined : Set String} {view : View}
    (adds : ∀ start : View, (body start).names = start.names ∪ defined) {start : View}
    (passes : View.Passes body view.live view start) : start.names ⊆ view.names ∪ defined := by
  induction passes with
  | first => exact Set.subset_union_left
  | @again before _ ih =>
    have next : (before.next body view.live).names = view.names ∪ (body before).names :=
      View.names_union (body before) view (body before)
    rw [next, adds before]
    exact Set.union_subset Set.subset_union_left (Set.union_subset ih Set.subset_union_right)

theorem names_settled {body : View → View} {defined : Set String} {view final : View}
    (adds : ∀ start : View, (body start).names = start.names ∪ defined) (settled : View.Settled body view final) :
    final.names = view.names ∪ defined := by
  refine Set.Subset.antisymm (names_passes adds settled.passes) (Set.union_subset ?_ ?_)
  · exact View.names_mono settled.closed.1
  · have grown := View.names_mono settled.closed.2
    rw [adds final] at grown
    exact Set.subset_union_right.trans grown

/-- The names that are live behind a route. -/
theorem names_route (enough : 3 ≤ limit) (route : Route) (tidy : route.Tidy) (inside : scope < next) (view : View) :
    (route.see limit scope next view).names = view.names ∪ route.names := by
  induction route generalizing scope next view with
  | stay | jump _ | aside _ _ | function _ _ _ _ _ => exact (Set.union_empty _).symm
  | step action => exact names_step action view
  | seq first second ihFirst ihSecond | ensure first second ihFirst ihSecond
  | finish first second ihFirst ihSecond =>
    have later : scope < next + first.functionIds.length := Nat.lt_add_right _ inside
    simp only [see, ihSecond tidy.2 later, ihFirst tidy.1 inside, names, Set.union_assoc]
  | fork left right ihLeft ihRight =>
    have later : scope < next + left.functionIds.length := Nat.lt_add_right _ inside
    have again : ((left.see limit scope next view).withLive view.live).names = view.names := rfl
    simp only [see, View.names_union, ihRight tidy.2 later, again, ihLeft tidy.1 inside, names]
    exact (Set.union_union_distrib_left _ _ _).symm
  | attempt body ih =>
    simp only [see, View.names_union, ih tidy inside, names]
    rw [← Set.union_assoc, Set.union_self]
  | loop body ih =>
    obtain ⟨final, settled, same⟩ := (body.describes enough tidy inside).settled enough view
    have kept : ((body.see limit scope next final).withLive final.live).names = final.names := rfl
    simp only [see, same, kept]
    exact names_settled (ih tidy inside) settled

/-- A step connects a use if its name is known. -/
theorem reached_step (action : Step) (view : View) :
    (action.see scope view).Reached (.occurrence id name .use) ↔
      view.Reached (.occurrence id name .use) ∨ (Route.step action).Reads id name view.names := by
  cases action with
  | checkArity => exact (or_iff_left not_false).symm
  | use own called line indexed arrayOnly =>
    constructor
    · rintro ⟨definition, old | ⟨same, live, named⟩⟩
      · exact .inl ⟨definition, old⟩
      · obtain ⟨rfl, rfl, _⟩ := Node.occurrence.inj same
        exact .inr ⟨rfl, rfl, definition, live, named⟩
    · rintro (⟨definition, old⟩ | ⟨rfl, rfl, definition, live, named⟩)
      · exact ⟨definition, .inl old⟩
      · exact ⟨definition, .inr ⟨rfl, live, named⟩⟩
  | define own called line kind =>
    refine Iff.trans ?_ (or_iff_left not_false).symm
    by_cases part : kind = .partialDefinition
    · simp only [Step.see, part, if_true]
      refine exists_congr fun definition => or_iff_left fun read => ?_
      cases read.1
    · simp only [Step.see, part, if_false]
      exact Iff.rfl
  | declare declaration own called line =>
    refine Iff.trans ?_ (or_iff_left not_false).symm
    refine exists_congr fun definition => or_iff_right fun declared => ?_
    cases declared

/-- What the route reaches: what is reached before, and the uses on it and in its functions that have their names
defined before them. -/
theorem reached_see (enough : 3 ≤ limit) (route : Route) (tidy : route.Tidy) (inside : scope < next)
    (repeated : Bool) (view : View) :
    (route.see limit scope next view).Reached (.occurrence id name .use) ↔
      view.Reached (.occurrence id name .use) ∨ route.Reads id name view.names ∨
        ∃ region ∈ route.regions next repeated, region.body.Reads id name region.names := by
  induction route generalizing scope next repeated view with
  | stay | jump _ => simp [see, Reads, regions]
  | step action =>
    rw [see, reached_step]
    simp [regions]
  | seq first second ihFirst ihSecond | ensure first second ihFirst ihSecond
  | finish first second ihFirst ihSecond =>
    have later : scope < next + first.functionIds.length := Nat.lt_add_right _ inside
    rw [see, ihSecond tidy.2 later repeated, ihFirst tidy.1 inside repeated, names_route enough first tidy.1 inside]
    simp only [Reads, regions, List.mem_append, or_and_right, exists_or]
    exact or_assoc.trans (or_congr_right or_or_or_comm)
  | fork left right ihLeft ihRight =>
    have later : scope < next + left.functionIds.length := Nat.lt_add_right _ inside
    have right := ihRight tidy.2 later repeated ((left.see limit scope next view).withLive view.live)
    have left := ihLeft tidy.1 inside repeated view
    simp only [Reads, regions, List.mem_append, or_and_right, exists_or]
    exact (right.trans (or_congr_left left)).trans (or_assoc.trans (or_congr_right or_or_or_comm))
  | attempt body ih => exact ih tidy inside repeated view
  | aside body ih => exact ih tidy.tidy inside repeated view
  | loop body ih =>
    have describes := body.describes enough tidy inside
    obtain ⟨final, settled, same⟩ := describes.settled enough view
    have within := ih tidy inside true
    have adds := names_route enough body tidy inside
    have before {start : View} (passes : View.Passes (body.see limit scope next) view.live view start)
        (reached : start.Reached (.occurrence id name .use)) :
        view.Reached (.occurrence id name .use) ∨ body.Reads id name (view.names ∪ body.names) ∨
          ∃ region ∈ body.regions next true, region.body.Reads id name region.names := by
      induction passes with
      | first => exact .inl reached
      | @again earlier passes ih =>
        rcases (within earlier).mp reached with old | reads | inner
        · exact ih old
        · exact .inr (.inl (reads.mono (names_passes adds passes)))
        · exact .inr (.inr inner)
    simp only [see, same]
    refine (within final).trans ?_
    rw [names_settled adds settled]
    constructor
    · rintro (old | found)
      · exact before settled.passes old
      · exact .inr found
    · rintro (old | found)
      · exact .inl (old.mono (describes.edges_passes settled.passes))
      · exact .inr found
  | function own called line body ih =>
    have entered := ih tidy (Nat.lt_succ_self next) repeated (view.withLive {node | node ∈ implicitNodes next})
    simp only [Reads, regions, List.mem_cons, exists_eq_or_imp, false_or]
    exact entered

end Route

namespace Program

variable (program : Program) (settings : Settings)

/-- A use has an incoming edge if its name is defined before it in its scope. -/
theorem reached_iff_reads (id : IdentId) (name : String) :
    (∃ definition, (definition, .occurrence id name .use) ∈ (program.resolve settings).analysis.graph.links) ↔
      ∃ region ∈ program.withIds.1.regions, region.body.Reads id name region.names := by
  have nothing : View.start.names = Region.names ⟨ScopeTable.script, [], program.withIds.1.route, false⟩ := by
    ext name
    exact ⟨fun ⟨_, live, _⟩ => live.elim, fun ⟨_, listed, _⟩ => by cases listed⟩
  have empty : ¬ View.start.Reached (.occurrence id name .use) := fun ⟨_, edge⟩ => edge
  rw [program.resolve_links settings]
  refine (program.withIds.1.route.reached_see (three_le_walkLimit program.withIds.2) program.withIds.1.tidy_route
    Nat.one_pos false .start).trans ((or_iff_right empty).trans ?_)
  rw [nothing]
  simp only [regions, List.mem_cons, exists_eq_or_imp]

end Program
end ArrayLift
