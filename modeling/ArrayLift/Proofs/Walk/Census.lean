import ArrayLift.Proofs.Walk.Route
import ArrayLift.Resolution.IdentIds
import Mathlib.Tactic.Tauto

/-! What stands on the route through a program: the occurrences with the scopes they belong to, and the
functions in the order of their opening. In a program with numbered identifiers every identity belongs to
one occurrence, and every function has an identity of its own. -/
namespace ArrayLift

/-- The identity of the identifier at a step. -/
def Step.id? : Step → Option IdentId
  | .use id .. | .define id .. | .declare _ id .. => some id
  | .checkArity .. => none

def Step.occurrence? (scope : ScopeId) : Step → Option Occurrence
  | .use id name line indexed arrayOnly => some ⟨id, name, line, scope, .use, indexed, arrayOnly, .unknown⟩
  | .define id name line kind => some ⟨id, name, line, scope, kind, false, false, .unknown⟩
  | .declare _ id name line => some ⟨id, name, line, scope, .declaration, false, false, .unknown⟩
  | .checkArity .. => none

theorem Step.id?_of_occurrence? {action : Step} {scope : ScopeId} {occurrence : Occurrence}
    (own : action.occurrence? scope = some occurrence) :
    action.id? = some occurrence.id ∧ occurrence.scope = scope := by
  cases action with
  | checkArity => cases own
  | use | define | declare =>
    cases own
    exact ⟨rfl, rfl⟩

namespace Route

/-- The functions on a route by the identities of their names, in the order of their opening. -/
def functionIds : Route → List (Option IdentId)
  | .stay | .step _ | .jump _ => []
  | .seq first second | .fork first second | .ensure first second | .finish first second =>
    functionIds first ++ functionIds second
  | .attempt body | .loop body | .aside body => functionIds body
  | .function id _ _ body => id :: functionIds body

/-- The occurrences on a route that starts in a scope. The first function on it opens the scope `next`,
and every further one the scope after the one before. -/
def occurrences : Route → ScopeId → ScopeId → List Occurrence
  | .stay, _, _ | .jump _, _, _ => []
  | .step action, scope, _ => (action.occurrence? scope).toList
  | .seq first second, scope, next | .fork first second, scope, next | .ensure first second, scope, next
  | .finish first second, scope, next =>
    occurrences first scope next ++ occurrences second scope (next + first.functionIds.length)
  | .attempt body, scope, next | .loop body, scope, next | .aside body, scope, next =>
    occurrences body scope next
  | .function id name line body, scope, next =>
    (id.toList.map fun id => ⟨id, name, line, scope, .functionName, false, false, .unknown⟩)
      ++ occurrences body next (next + 1)

/-- The steps on a route with the scopes they belong to. -/
def places : Route → ScopeId → ScopeId → List (ScopeId × Step)
  | .stay, _, _ | .jump _, _, _ => []
  | .step action, scope, _ => [(scope, action)]
  | .seq first second, scope, next | .fork first second, scope, next | .ensure first second, scope, next
  | .finish first second, scope, next =>
    places first scope next ++ places second scope (next + first.functionIds.length)
  | .attempt body, scope, next | .loop body, scope, next | .aside body, scope, next => places body scope next
  | .function _ _ _ body, _, next => places body next (next + 1)

attribute [local simp] functionIds occurrences places

/-- What a route defines in its own scope. -/
def definitions : Route → List IdentId
  | .step (.define id ..) => [id]
  | .stay | .step _ | .jump _ | .aside _ | .function .. => []
  | .seq first second | .fork first second | .ensure first second | .finish first second =>
    definitions first ++ definitions second
  | .attempt body | .loop body => definitions body

/-- What it defines there in loops. -/
def loopDefinitions : Route → List IdentId
  | .stay | .step _ | .jump _ | .aside _ | .function .. => []
  | .seq first second | .fork first second | .ensure first second | .finish first second =>
    loopDefinitions first ++ loopDefinitions second
  | .attempt body => loopDefinitions body
  | .loop body => definitions body

/-- Nothing that a loop defines is defined before the loop. -/
def LoopsApart : Route → Prop
  | .stay | .step _ | .jump _ => True
  | .seq first second | .fork first second | .ensure first second | .finish first second =>
    first.LoopsApart ∧ second.LoopsApart ∧ ∀ id ∈ first.definitions, id ∉ second.loopDefinitions
  | .attempt body | .loop body | .aside body | .function _ _ _ body => body.LoopsApart

theorem occurrence_of_definition {route : Route} {id : IdentId} (member : id ∈ route.definitions)
    (scope next : ScopeId) : ∃ occurrence ∈ route.occurrences scope next, occurrence.id = id := by
  induction route generalizing next with
  | stay | jump _ | aside _ _ | function _ _ _ _ _ => cases member
  | step action =>
    cases action with
    | use | declare | checkArity => cases member
    | define own name line kind =>
      obtain rfl := List.mem_singleton.mp member
      exact ⟨_, List.mem_singleton_self _, rfl⟩
  | seq first second ihFirst ihSecond | fork first second ihFirst ihSecond | ensure first second ihFirst ihSecond
  | finish first second ihFirst ihSecond =>
    rcases List.mem_append.mp member with inFirst | inSecond
    · obtain ⟨occurrence, listed, same⟩ := ihFirst inFirst next
      exact ⟨occurrence, List.mem_append_left _ listed, same⟩
    · obtain ⟨occurrence, listed, same⟩ := ihSecond inSecond (next + first.functionIds.length)
      exact ⟨occurrence, List.mem_append_right _ listed, same⟩
  | attempt body ih | loop body ih => exact ih member next

/-- At a step with an identity stands an occurrence. -/
theorem occurrence_of_place {route : Route} {scope next : ScopeId} {place : ScopeId × Step}
    (member : place ∈ route.places scope next) {id : IdentId} (own : place.2.id? = some id) :
    ∃ occurrence ∈ route.occurrences scope next,
      place.2.occurrence? place.1 = some occurrence ∧ occurrence.id = id := by
  induction route generalizing scope next with
  | stay | jump _ => cases member
  | step action =>
    obtain rfl := List.mem_singleton.mp member
    cases action with
    | checkArity => cases own
    | use | define | declare =>
      cases own
      exact ⟨_, List.mem_singleton_self _, rfl, rfl⟩
  | seq first second ihFirst ihSecond | fork first second ihFirst ihSecond | ensure first second ihFirst ihSecond
  | finish first second ihFirst ihSecond =>
    rcases List.mem_append.mp member with inFirst | inSecond
    · obtain ⟨occurrence, listed, found⟩ := ihFirst inFirst
      exact ⟨occurrence, List.mem_append_left _ listed, found⟩
    · obtain ⟨occurrence, listed, found⟩ := ihSecond inSecond
      exact ⟨occurrence, List.mem_append_right _ listed, found⟩
  | attempt body ih | loop body ih | aside body ih => exact ih member
  | function id name line body ih =>
    obtain ⟨occurrence, listed, found⟩ := ih member
    exact ⟨occurrence, List.mem_append_right _ listed, found⟩

/-- An occurrence that is not the name of a function stands at a step. -/
theorem place_of_occurrence {route : Route} {scope next : ScopeId} {occurrence : Occurrence}
    (member : occurrence ∈ route.occurrences scope next) (plain : occurrence.kind ≠ .functionName) :
    ∃ place ∈ route.places scope next, place.2.occurrence? place.1 = some occurrence := by
  induction route generalizing scope next with
  | stay | jump _ => cases member
  | step action => exact ⟨_, List.mem_singleton_self _, Option.mem_toList.mp member⟩
  | seq first second ihFirst ihSecond | fork first second ihFirst ihSecond | ensure first second ihFirst ihSecond
  | finish first second ihFirst ihSecond =>
    rcases List.mem_append.mp member with inFirst | inSecond
    · obtain ⟨place, visited, found⟩ := ihFirst inFirst
      exact ⟨place, List.mem_append_left _ visited, found⟩
    · obtain ⟨place, visited, found⟩ := ihSecond inSecond
      exact ⟨place, List.mem_append_right _ visited, found⟩
  | attempt body ih | loop body ih | aside body ih => exact ih member
  | function id name line body ih =>
    rcases List.mem_append.mp member with own | inner
    · obtain ⟨_, _, rfl⟩ := List.mem_map.mp own
      exact absurd rfl plain
    · exact ih inner

theorem loopDefinitions_subset (route : Route) : route.loopDefinitions ⊆ route.definitions := by
  induction route with
  | stay | step _ | jump _ | aside _ _ | function _ _ _ _ _ => exact List.nil_subset _
  | seq first second ihFirst ihSecond | fork first second ihFirst ihSecond | ensure first second ihFirst ihSecond
  | finish first second ihFirst ihSecond =>
    refine List.append_subset.mpr ⟨?_, ?_⟩
    · exact List.subset_append_of_subset_left _ ihFirst
    · exact List.subset_append_of_subset_right _ ihSecond
  | attempt body ih => exact ih
  | loop body => exact List.Subset.refl _

/-- The identities on a route lie in a range, and each stands for one occurrence and one function. -/
structure Spans (first last : Nat) (route : Route) : Prop where
  ordered : first ≤ last
  within : ∀ scope next, ∀ occurrence ∈ route.occurrences scope next,
    first ≤ occurrence.id ∧ last > occurrence.id
  single : ∀ scope next, ∀ left ∈ route.occurrences scope next, ∀ right ∈ route.occurrences scope next,
    left.id = right.id → left = right
  named : ∀ function ∈ route.functionIds, ∃ id : Nat, function = some id ∧ first ≤ id ∧ id < last
  distinct : route.functionIds.Nodup
  loops : route.LoopsApart
  /-- An identity stands at one step. -/
  steps : ∀ scope next, ∀ one ∈ route.places scope next, ∀ other ∈ route.places scope next, ∀ id,
    one.2.id? = some id → other.2.id? = some id → one = other

namespace Spans

variable {first middle last : Nat} {left right body : Route}

theorem stay (ordered : first ≤ last) : Route.stay.Spans first last :=
  ⟨ordered, by simp, by simp, by simp, by simp, trivial, by simp⟩

theorem jump (exit : Exit) (ordered : first ≤ last) : (Route.jump exit).Spans first last :=
  ⟨ordered, by simp, by simp, by simp, by simp, trivial, by simp⟩

/-- A single step at an identifier whose identity is the first of the range. -/
theorem step {action : Step} (ordered : first < last)
    (own : ∀ scope, ∀ occurrence ∈ action.occurrence? scope, occurrence.id = first) :
    (Route.step action).Spans first last := by
  refine ⟨by omega, ?_, ?_, by simp, by simp, trivial, by simp⟩
  · intro scope next occurrence member
    rw [own scope occurrence (by simpa using member)]
    exact ⟨Nat.le_refl _, ordered⟩
  · intro scope next one inOne other inOther _
    simp only [occurrences, Option.mem_toList] at inOne inOther
    exact Option.some.inj (inOne.symm.trans inOther)

theorem widen {lower upper : Nat} (spans : body.Spans first last) (below : lower ≤ first)
    (above : last ≤ upper) : body.Spans lower upper := by
  have ordered := spans.ordered
  refine ⟨by omega, ?_, spans.single, ?_, spans.distinct, spans.loops, spans.steps⟩
  · intro scope next occurrence member
    have inside := spans.within scope next occurrence member
    omega
  · intro function member
    obtain ⟨id, same, inside⟩ := spans.named function member
    exact ⟨id, same, by omega⟩

theorem definitions (spans : body.Spans first last) {id : Nat} (member : id ∈ body.definitions) :
    first ≤ id ∧ last > id := by
  obtain ⟨occurrence, listed, same⟩ := occurrence_of_definition member 0 0
  have inside := spans.within 0 0 occurrence listed
  rw [same] at inside
  exact inside

theorem definitions_apart {lower upper : Nat} (one : left.Spans first middle)
    (other : right.Spans lower upper) (disjoint : middle ≤ lower ∨ upper ≤ first) :
    ∀ id ∈ left.definitions, id ∉ right.definitions := by
  intro id inLeft inRight
  have insideLeft := one.definitions inLeft
  have insideRight := other.definitions inRight
  omega

theorem place (spans : body.Spans first last) {scope next : ScopeId} {place : ScopeId × Step}
    (member : place ∈ body.places scope next) {id : Nat} (own : place.2.id? = some id) :
    first ≤ id ∧ last > id := by
  obtain ⟨occurrence, listed, _, same⟩ := occurrence_of_place member own
  have inside := spans.within scope next occurrence listed
  rw [same] at inside
  exact inside

/-- Two routes in a sequence whose identities have nothing in common. -/
private theorem apart {lower upper : Nat} (one : left.Spans first middle) (other : right.Spans lower upper)
    (disjoint : middle ≤ lower ∨ upper ≤ first) :
    (Route.seq left right).Spans (min first lower) (max middle upper) := by
  have orderedOne := one.ordered
  have orderedOther := other.ordered
  refine ⟨by omega, ?_, ?_, ?_, ?_, ⟨one.loops, other.loops, ?_⟩, ?_⟩
  · intro scope next occurrence member
    rcases List.mem_append.mp member with inLeft | inRight
    · have inside := one.within _ _ _ inLeft
      omega
    · have inside := other.within _ _ _ inRight
      omega
  · intro scope next a inA b inB same
    rcases List.mem_append.mp inA with leftA | rightA <;> rcases List.mem_append.mp inB with leftB | rightB
    · exact one.single _ _ a leftA b leftB same
    · have insideA := one.within _ _ _ leftA
      have insideB := other.within _ _ _ rightB
      rw [same] at insideA
      omega
    · have insideA := other.within _ _ _ rightA
      have insideB := one.within _ _ _ leftB
      rw [same] at insideA
      omega
    · exact other.single _ _ a rightA b rightB same
  · intro function member
    rcases List.mem_append.mp member with inLeft | inRight
    · obtain ⟨id, same, inside⟩ := one.named function inLeft
      exact ⟨id, same, by omega⟩
    · obtain ⟨id, same, inside⟩ := other.named function inRight
      exact ⟨id, same, by omega⟩
  · refine List.nodup_append.mpr ⟨one.distinct, other.distinct, ?_⟩
    intro a inA b inB same
    obtain ⟨id, sameA, insideA⟩ := one.named a inA
    obtain ⟨id', sameB, insideB⟩ := other.named b inB
    have equal : id = id' := Option.some.inj (sameA.symm.trans (same.trans sameB))
    omega
  · intro id before inLoop
    exact one.definitions_apart other disjoint id before (right.loopDefinitions_subset inLoop)
  · intro scope next a inA b inB id ownA ownB
    rcases List.mem_append.mp inA with leftA | rightA <;> rcases List.mem_append.mp inB with leftB | rightB
    · exact one.steps _ _ a leftA b leftB id ownA ownB
    · have insideA := one.place leftA ownA
      have insideB := other.place rightB ownB
      omega
    · have insideA := other.place rightA ownA
      have insideB := one.place leftB ownB
      omega
    · exact other.steps _ _ a rightA b rightB id ownA ownB

/-- The second route goes on where the identities of the first end. -/
theorem seq (one : left.Spans first middle) (other : right.Spans middle last) :
    (Route.seq left right).Spans first last := by
  have orderedOne := one.ordered
  have orderedOther := other.ordered
  exact (apart one other (by omega)).widen (by omega) (by omega)

/-- The identities of the second route end where the first starts. -/
theorem seq_swap (one : left.Spans middle last) (other : right.Spans first middle) :
    (Route.seq left right).Spans first last := by
  have orderedOne := one.ordered
  have orderedOther := other.ordered
  exact (apart one other (by omega)).widen (by omega) (by omega)

theorem fork (one : left.Spans first middle) (other : right.Spans middle last) :
    (Route.fork left right).Spans first last :=
  let both := one.seq other
  ⟨both.ordered, both.within, both.single, both.named, both.distinct, both.loops, both.steps⟩

theorem ensure (one : left.Spans first middle) (other : right.Spans middle last) :
    (Route.ensure left right).Spans first last :=
  let both := one.seq other
  ⟨both.ordered, both.within, both.single, both.named, both.distinct, both.loops, both.steps⟩

theorem finish (one : left.Spans first middle) (other : right.Spans middle last) :
    (Route.finish left right).Spans first last :=
  let both := one.seq other
  ⟨both.ordered, both.within, both.single, both.named, both.distinct, both.loops, both.steps⟩

theorem attempt (spans : body.Spans first last) : (Route.attempt body).Spans first last :=
  ⟨spans.ordered, spans.within, spans.single, spans.named, spans.distinct, spans.loops, spans.steps⟩

theorem loop (spans : body.Spans first last) : (Route.loop body).Spans first last :=
  ⟨spans.ordered, spans.within, spans.single, spans.named, spans.distinct, spans.loops, spans.steps⟩

theorem aside (spans : body.Spans first last) : (Route.aside body).Spans first last :=
  ⟨spans.ordered, spans.within, spans.single, spans.named, spans.distinct, spans.loops, spans.steps⟩

/-- The name of a function comes before everything inside. -/
theorem function (name : String) (line : SourceLine) (lower : first < middle)
    (spans : body.Spans middle last) : (Route.function (some first) name line body).Spans first last := by
  have ordered := spans.ordered
  refine ⟨by omega, ?_, ?_, ?_, ?_, spans.loops, fun _ next => spans.steps next (next + 1)⟩
  · intro scope next occurrence member
    rcases List.mem_append.mp member with own | inside
    · simp only [Option.toList_some, List.map_cons, List.map_nil, List.mem_singleton] at own
      subst own
      exact ⟨Nat.le_refl first, Nat.lt_of_lt_of_le lower ordered⟩
    · have inside := spans.within _ _ _ inside
      omega
  · intro scope next a inA b inB same
    simp only [occurrences, Option.toList_some, List.map_cons, List.map_nil, List.cons_append,
      List.nil_append, List.mem_cons] at inA inB
    rcases inA with ownA | insideA <;> rcases inB with ownB | insideB
    · exact ownA.trans ownB.symm
    · have inside := spans.within _ _ _ insideB
      rw [← same, ownA] at inside
      exact absurd lower (Nat.not_lt.mpr inside.1)
    · have inside := spans.within _ _ _ insideA
      rw [same, ownB] at inside
      exact absurd lower (Nat.not_lt.mpr inside.1)
    · exact spans.single _ _ a insideA b insideB same
  · intro function member
    rcases List.mem_cons.mp member with own | inside
    · exact ⟨first, own, Nat.le_refl _, by omega⟩
    · obtain ⟨id, same, inside⟩ := spans.named function inside
      exact ⟨id, same, by omega⟩
  · refine List.nodup_cons.mpr ⟨?_, spans.distinct⟩
    intro member
    obtain ⟨id, same, inside⟩ := spans.named _ member
    rw [← Option.some.inj same] at inside
    exact absurd lower (Nat.not_lt.mpr inside.1)

end Spans

/-- A route without functions has the same occurrences whatever scope is opened next. -/
theorem occurrences_next (route : Route) (closed : route.functionIds = []) (scope next other : ScopeId) :
    route.occurrences scope next = route.occurrences scope other := by
  induction route generalizing scope next other with
  | stay | step _ | jump _ => rfl
  | seq left right ihLeft ihRight | fork left right ihLeft ihRight | ensure left right ihLeft ihRight
  | finish left right ihLeft ihRight =>
    obtain ⟨closedLeft, closedRight⟩ := List.append_eq_nil_iff.mp closed
    simp only [occurrences]
    rw [ihLeft closedLeft scope next other, ihRight closedRight scope _ _]
  | attempt body ih | loop body ih | aside body ih => exact ih closed scope next other
  | function id name line body ih => simp at closed

/-- So are its steps. -/
theorem places_next (route : Route) (closed : route.functionIds = []) (scope next other : ScopeId) :
    route.places scope next = route.places scope other := by
  induction route generalizing scope next other with
  | stay | step _ | jump _ => rfl
  | seq left right ihLeft ihRight | fork left right ihLeft ihRight | ensure left right ihLeft ihRight
  | finish left right ihLeft ihRight =>
    obtain ⟨closedLeft, closedRight⟩ := List.append_eq_nil_iff.mp closed
    simp only [places]
    rw [ihLeft closedLeft scope next other, ihRight closedRight scope _ _]
  | attempt body ih | loop body ih | aside body ih => exact ih closed scope next other
  | function id name line body ih => simp at closed

/-- A route with the occurrences of another one in a different order, or more than once. -/
theorem Spans.reorder {first last : Nat} {route other : Route} (spans : other.Spans first last)
    (included : ∀ scope next, route.occurrences scope next ⊆ other.occurrences scope next)
    (visited : ∀ scope next, route.places scope next ⊆ other.places scope next)
    (functions : route.functionIds = other.functionIds) (loops : route.LoopsApart) :
    route.Spans first last := by
  refine ⟨spans.ordered, ?_, ?_, functions ▸ spans.named, functions ▸ spans.distinct, loops,
    fun scope next one inOne other inOther =>
      spans.steps scope next one (visited scope next inOne) other (visited scope next inOther)⟩
  · intro scope next occurrence member
    exact spans.within scope next occurrence (included scope next member)
  · intro scope next left inLeft right inRight
    exact spans.single scope next left (included scope next inLeft) right (included scope next inRight)

/-- A condition is visited before each iteration and once more at the end. -/
theorem Spans.again {first middle last : Nat} {condition body : Route}
    (closed : condition.functionIds = []) (straight : condition.loopDefinitions = [])
    (one : condition.Spans first middle) (other : body.Spans middle last) :
    (Route.finish (.loop (.seq condition body)) condition).Spans first last := by
  have behind : ∀ id ∈ (Route.loop (.seq condition body)).definitions, id ∉ condition.loopDefinitions := by
    rw [straight]
    exact fun id _ => List.not_mem_nil
  refine (one.seq other).reorder ?_ ?_ (by simp [closed]) ⟨(one.seq other).loops, one.loops, behind⟩
  · intro scope next occurrence member
    rcases List.mem_append.mp member with inLoop | behind
    · exact inLoop
    · rw [occurrences_next condition closed scope _ next] at behind
      exact List.mem_append_left _ behind
  · intro scope next place member
    rcases List.mem_append.mp member with inLoop | behind
    · exact inLoop
    · rw [places_next condition closed scope _ next] at behind
      exact List.mem_append_left _ behind

/-- The columns of a loop are visited before its name, although their identities come later. -/
theorem Spans.each {first middle lower last : Nat} {name columns body : Route}
    (simple : name.functionIds = []) (closed : columns.functionIds = []) (one : name.Spans first middle)
    (iterand : columns.Spans middle lower) (other : body.Spans lower last) :
    (Route.seq columns (.finish (.loop (.seq name body)) .stay)).Spans first last := by
  have ordered := iterand.ordered
  have own : (Route.seq name body).LoopsApart := by
    refine ⟨one.loops, other.loops, fun id before inLoop => ?_⟩
    exact one.definitions_apart other (.inl ordered) id before (body.loopDefinitions_subset inLoop)
  have before : ∀ id ∈ columns.definitions, id ∉ (Route.loop (.seq name body)).definitions ++ [] := by
    intro id inColumns
    rw [List.append_nil]
    apply List.not_mem_append
    · exact iterand.definitions_apart one (.inr (Nat.le_refl middle)) id inColumns
    · exact iterand.definitions_apart other (.inl (Nat.le_refl lower)) id inColumns
  have loops : (Route.seq columns (.finish (.loop (.seq name body)) .stay)).LoopsApart :=
    ⟨iterand.loops, ⟨own, trivial, fun id _ => List.not_mem_nil⟩, before⟩
  refine (one.seq (iterand.seq other)).reorder ?_ ?_ (by simp [simple, closed]) loops
  · intro scope next occurrence member
    simp only [occurrences, simple, closed, List.length_nil, Nat.add_zero, List.mem_append] at member ⊢
    grind
  · intro scope next place member
    simp only [places, simple, closed, List.length_nil, Nat.add_zero, List.mem_append] at member ⊢
    grind

end Route
end ArrayLift
