import ArrayLift.Proofs.Looping.Calls
import ArrayLift.Proofs.Walk.Outcome
import ArrayLift.Proofs.Walk.Transfer

/-! How often the walk passes a loop. A third walk over a body is the last one. It is needed only where the body has
declared a name anew that was declared before it: without a declaration in its scope a loop is settled by the second
walk. -/
namespace ArrayLift

open DefUse

namespace Point

/-- A loop is walked until the state at its start stays the same: the count of the walks over its body, and the point
behind the last one. -/
inductive Settles (body : Point → Point) (entry : Flow) : Point → Nat → Point → Prop where
  | last {point : Point} (same : (point.pass body entry).flow.same point.flow = true) :
    Settles body entry point 1 ((body point).withFlow point.flow)
  | again {point final : Point} {walks : Nat} (differs : (point.pass body entry).flow.same point.flow = false)
    (rest : Settles body entry (point.pass body entry) walks final) : Settles body entry point (walks + 1) final

variable {body : Point → Point} {entry : Flow} {point : Point}

/-- There is one way to walk a loop. -/
theorem Settles.unique {one other : Point} {walks count : Nat} (first : Settles body entry point walks one)
    (second : Settles body entry point count other) : walks = count ∧ one = other := by
  induction first generalizing count with
  | last same =>
    cases second with
    | last _ => exact ⟨rfl, rfl⟩
    | again differs _ => rw [same] at differs; cases differs
  | again differs _ ih =>
    cases second with
    | last same => rw [same] at differs; cases differs
    | again _ rest =>
      obtain ⟨counted, ended⟩ := ih rest
      exact ⟨congrArg (· + 1) counted, ended⟩

/-- A bound that is not exceeded changes nothing. -/
theorem Settles.walkLoop {final : Point} {walks : Nat} (settles : Settles body entry point walks final) {limit : Nat}
    (enough : walks ≤ limit) : walkLoop body entry limit point = final := by
  induction settles generalizing limit with
  | last same =>
    obtain ⟨rest, rfl⟩ := Nat.exists_eq_add_of_le' enough
    exact if_pos same
  | @again point final walks differs _ ih =>
    obtain ⟨rest, rfl⟩ := Nat.exists_eq_add_of_le' enough
    have further : Point.walkLoop body entry (rest + walks + 1) point =
        Point.walkLoop body entry (rest + walks) (point.pass body entry) := if_neg (ne_true_of_eq_false differs)
    exact further.trans (ih (Nat.le_add_left walks rest))

/-- Bodies that do the same on the points that are come to are walked alike. -/
theorem Settles.congr {other : Point → Point} (holds : Point → Prop) {final : Point} {walks : Nat}
    (settles : Settles body entry point walks final) (same : ∀ point, holds point → body point = other point)
    (kept : ∀ point, holds point → holds (point.pass body entry)) (here : holds point) :
    Settles other entry point walks final := by
  induction settles with
  | @last point settled =>
    have equal := same point here
    rw [equal]
    refine .last ?_
    rwa [pass, equal] at settled
  | @again point final walks differs _ ih =>
    have equal : point.pass body entry = point.pass other entry := by rw [pass, same point here, pass]
    have rest := ih (kept point here)
    rw [equal] at differs rest
    exact .again differs rest

end Point

/-- The walks over the body of a loop, from the point at which the walk has come to it. -/
def LoopCall.Settles (call : LoopCall) : Nat → Point → Prop :=
  Point.Settles call.body call.start.flow call.start

/-- Without declarations in the body, the second pass over a loop starts where it ends. -/
theorem Transfer.Describes.stable_second {transfer : Transfer} {scope : ScopeId} {next last : Nat} {body : View → View}
    (describes : transfer.Describes scope next last body) (undeclared : ∀ name, transfer.declared name = none)
    (view : View) :
    let second := view.next body view.live
    view.live ∪ (body second).live = second.live := by
  intro second
  ext node
  have before : node ∈ second.live ↔ _ := describes.live_next view.live view node
  have pinned : second.Pinned scope node ↔ view.Pinned scope node := by
    have behind : second.Pinned scope node ↔ _ := describes.pinned view node
    simpa [Transfer.Declares, undeclared] using behind
  rw [Set.mem_union, describes.live, pinned, before]
  grind

namespace Route

/-- What a route declares in its scope stands there. -/
theorem exists_declaration {route : Route} {scope : ScopeId} (next : ScopeId) {name : String}
    {declaration : Declaration} (declares : (route.transfer scope).declared name = some declaration) :
    ∃ occurrence ∈ route.occurrences scope next, occurrence.scope = scope ∧ occurrence.kind = .declaration := by
  induction route generalizing next with
  | stay | jump _ | aside _ _ | function _ _ _ _ _ => cases declares
  | step action =>
    cases action with
    | use | checkArity => cases declares
    | define id text line kind =>
      by_cases part : kind = .partialDefinition <;> simp [transfer, Step.transfer, part, Transfer.idle] at declares
    | declare found id text line => exact ⟨_, List.mem_singleton_self _, rfl, rfl⟩
  | seq first second ihFirst ihSecond | fork first second ihFirst ihSecond | ensure first second ihFirst ihSecond
  | finish first second ihFirst ihSecond =>
    rcases Option.or_eq_some_iff.mp declares with later | ⟨_, before⟩
    · obtain ⟨occurrence, listed, found⟩ := ihSecond (next + first.functionIds.length) later
      exact ⟨occurrence, List.mem_append_right _ listed, found⟩
    · obtain ⟨occurrence, listed, found⟩ := ihFirst next before
      exact ⟨occurrence, List.mem_append_left _ listed, found⟩
  | attempt body ih | loop body ih => exact ih next declares

/-- The walk over a program may come to the route at the point. -/
structure Entered (census : Census) (route : Route) (scope next : ScopeId) (point : Point) : Prop where
  covers : census.Covers route scope next
  tidy : route.Tidy
  inside : scope < next
  valid : point.Valid census
  early : next ≤ point.findings.table.scopes.length

namespace Entered

variable {census : Census} {first second body : Route} {scope next : ScopeId} {point : Point} {limit : Nat}

/-- It may come to another route with the same occurrences and functions as well. -/
theorem like {route other : Route} (entered : route.Entered census scope next point)
    (occurrences : other.occurrences scope next = route.occurrences scope next)
    (functions : other.functionIds = route.functionIds) (tidy : other.Tidy) :
    other.Entered census scope next point := by
  refine ⟨⟨?_, ?_⟩, tidy, entered.inside, entered.valid, entered.early⟩
  · rw [occurrences]
    exact entered.covers.occurrences
  · rw [functions]
    exact entered.covers.functions

/-- It may come to the route again. -/
theorem again {route : Route} (entered : route.Entered census scope next point) {later : Point}
    (valid : later.Valid census) (grows : point.Grows later) : route.Entered census scope next later :=
  ⟨entered.covers, entered.tidy, entered.inside, valid, Nat.le_trans entered.early grows.scopes⟩

theorem left (entered : (Route.seq first second).Entered census scope next point) :
    first.Entered census scope next point :=
  ⟨entered.covers.left, entered.tidy.1, entered.inside, entered.valid, entered.early⟩

theorem follows {route : Route} (entered : route.Entered census scope next point) (some_pass : 0 < limit) :
    route.Follows census limit scope next point (route.walk limit scope point) :=
  route.walk_follows some_pass scope next point entered.covers entered.valid entered.early

theorem right (entered : (Route.seq first second).Entered census scope next point) (some_pass : 0 < limit) :
    second.Entered census scope (next + first.functionIds.length) (first.walk limit scope point) := by
  have before := entered.left.follows some_pass
  exact ⟨entered.covers.right, entered.tidy.2, Nat.lt_add_right _ entered.inside, before.reaches.valid, before.opened⟩

theorem other (entered : (Route.fork first second).Entered census scope next point) (some_pass : 0 < limit) :
    second.Entered census scope (next + first.functionIds.length)
      ((first.walk limit scope point).withFlow point.flow) := by
  have both : (Route.seq first second).Entered census scope next point := entered.like rfl rfl entered.tidy
  have before := both.left.follows some_pass
  have behind := both.right some_pass
  exact ⟨behind.covers, behind.tidy, behind.inside, (before.reaches.back entered.valid).valid, before.opened⟩

theorem function {id : Option IdentId} {name : String} {line : SourceLine}
    (entered : (Route.function id name line body).Entered census scope next point) :
    (point.enterFunction scope (.bare name id) [] line).1 = next ∧
      body.Entered census next (next + 1) (point.enterFunction scope (.bare name id) [] line).2 := by
  obtain ⟨known, rfl, listed, named, inner⟩ := entered.covers.function
  obtain ⟨own, reached, room⟩ := entered.valid.reaches_function named listed entered.early
  exact ⟨own, inner, entered.tidy, Nat.lt_succ_self next, reached.valid, room⟩

/-- The next walk over a body starts at a later point, whose view is that of the next pass. -/
theorem pass (entered : (Route.loop body).Entered census scope next point) (some_pass : 0 < limit) {start : Point}
    (valid : start.Valid census) (later : point.Grows start) :
    let second := start.pass (body.walk limit scope) point.flow
    second.Valid census ∧ point.Grows second ∧
      second.view = start.view.next (body.see limit scope next) point.view.live ∧
      (second.flow.same start.flow = true ↔
        point.view.live ∪ (body.see limit scope next start.view).live = start.view.live) := by
  intro second
  have inside : body.Entered census scope next point := entered.like rfl rfl entered.tidy
  have here := inside.again valid later
  have reached := (here.follows some_pass).reaches
  have grown := later.trans reached.grows
  have entry := entered.valid.flow.mono grown.graph
  have same := reached.same_iff valid entry
  have joined := reached.withFlow (entry.merge reached.valid.flow)
  rw [entered.valid.flow.live_mono grown.graph] at same
  rw [Flow.live_merge, entered.valid.flow.live_mono grown.graph, reached.live] at joined
  exact ⟨joined.valid, later.trans joined.grows, joined.view, same⟩

/-- All walks over a body start at later points. -/
theorem kept (entered : (Route.loop body).Entered census scope next point) (some_pass : 0 < limit) (start : Point)
    (here : start.Valid census ∧ point.Grows start) :
    (start.pass (body.walk limit scope) point.flow).Valid census ∧
      point.Grows (start.pass (body.walk limit scope) point.flow) := by
  obtain ⟨valid, later, -⟩ := entered.pass some_pass here.1 here.2
  exact ⟨valid, later⟩

/-- A loop is settled by the third walk, and by the second one if its body declares nothing in its scope. -/
theorem settles (entered : (Route.loop body).Entered census scope next point) (enough : 3 ≤ limit) :
    ∃ walks final, Point.Settles (body.walk limit scope) point.flow point walks final ∧ walks ≤ 3 ∧
      ((∀ name, (body.transfer scope).declared name = none) → walks ≤ 2) := by
  have describes := body.describes enough entered.tidy entered.inside
  have some_pass : 0 < limit := Nat.zero_lt_of_lt enough
  obtain ⟨valid, later, seen, once⟩ := entered.pass some_pass entered.valid (.refl point)
  obtain ⟨valid', later', seen', twice⟩ := entered.pass some_pass valid later
  obtain ⟨-, -, -, thrice⟩ := entered.pass some_pass valid' later'
  rw [seen] at seen' twice
  rw [seen'] at thrice
  let seen (view : View) : View := body.see limit scope next view
  let second := point.view.next seen point.view.live
  by_cases first : point.view.live ∪ (seen point.view).live = point.view.live
  · exact ⟨1, _, .last (once.mpr first), by decide, fun _ => by decide⟩
  have again := Bool.eq_false_iff.mpr (mt once.mp first)
  by_cases stable : point.view.live ∪ (seen second).live = second.live
  · exact ⟨2, _, .again again (.last (twice.mpr stable)), by decide, fun _ => Nat.le_refl 2⟩
  · have further := Bool.eq_false_iff.mpr (mt twice.mp stable)
    refine ⟨3, _, .again again (.again further (.last (thrice.mpr (describes.stable_third point.view)))),
      Nat.le_refl 3, fun undeclared => absurd (describes.stable_second undeclared point.view) stable⟩

end Entered

variable {census : Census} {limit : Nat}

/-- Every loop on the way of a walk is settled by the third walk over its body, and by the second one if nothing is
declared in its scope. -/
theorem settles_of_mem_loopCalls (enough : 3 ≤ limit) {call : LoopCall} (route : Route) :
    ∀ {scope next : ScopeId} {point : Point}, route.Entered census scope next point →
      call ∈ route.loopCalls limit scope point →
      ∃ walks final, call.Settles walks final ∧ walks ≤ 3 ∧
        ((∀ occurrence ∈ census.occurrences, occurrence.scope = call.scope → occurrence.kind ≠ .declaration) →
          walks ≤ 2) := by
  have some_pass : 0 < limit := Nat.zero_lt_of_lt enough
  induction route with
  | stay | jump _ | step _ => exact fun _ member => nomatch member
  | seq first second ihFirst ihSecond =>
    intro scope next point entered member
    rcases List.mem_append.mp member with inFirst | inSecond
    · exact ihFirst entered.left inFirst
    · exact ihSecond (entered.right some_pass) inSecond
  | ensure first second ihFirst ihSecond | finish first second ihFirst ihSecond =>
    intro scope next point entered member
    have both : (Route.seq first second).Entered census scope next point := entered.like rfl rfl entered.tidy
    rcases List.mem_append.mp member with inFirst | inSecond
    · exact ihFirst both.left inFirst
    · exact ihSecond (both.right some_pass) inSecond
  | fork left right ihLeft ihRight =>
    intro scope next point entered member
    have both : (Route.seq left right).Entered census scope next point := entered.like rfl rfl entered.tidy
    rcases List.mem_append.mp member with inLeft | inRight
    · exact ihLeft both.left inLeft
    · exact ihRight (entered.other some_pass) inRight
  | attempt body ih =>
    intro scope next point entered member
    exact ih (entered.like rfl rfl entered.tidy) member
  | aside body ih =>
    intro scope next point entered member
    exact ih (entered.like rfl rfl entered.tidy.tidy) member
  | loop body ih =>
    intro scope next point entered member
    rcases List.mem_cons.mp member with rfl | inside
    · obtain ⟨walks, final, settles, three, two⟩ := entered.settles enough
      refine ⟨walks, final, settles, three, fun none => two fun name => ?_⟩
      by_contra declared
      obtain ⟨declaration, declares⟩ := Option.ne_none_iff_exists'.mp declared
      obtain ⟨occurrence, listed, own, kind⟩ := exists_declaration next declares
      exact none occurrence (entered.covers.occurrences listed) own kind
    · obtain ⟨start, ⟨valid, later⟩, within⟩ := Point.exists_of_mem_eachWalk
        (fun start => start.Valid census ∧ point.Grows start) (entered.kept some_pass) limit
        ⟨entered.valid, .refl point⟩ inside
      have body : body.Entered census scope next point := entered.like rfl rfl entered.tidy
      exact ih (body.again valid later) within
  | function id name line body ih =>
    intro scope next point entered member
    obtain ⟨own, inner⟩ := entered.function
    simp only [loopCalls, own] at member
    exact ih inner member

/-- The bound on the walks over a loop is never met, so a larger one changes nothing. -/
theorem walk_limit (enough : 3 ≤ limit) {other : Nat} (larger : limit ≤ other) (route : Route) :
    ∀ {scope next : ScopeId} {point : Point}, route.Entered census scope next point →
      route.walk other scope point = route.walk limit scope point := by
  have some_pass : 0 < limit := Nat.zero_lt_of_lt enough
  induction route with
  | stay | jump _ | step _ => exact fun _ => rfl
  | seq first second ihFirst ihSecond =>
    intro scope next point entered
    simp only [walk, ihFirst entered.left, ihSecond (entered.right some_pass)]
  | ensure first second ihFirst ihSecond | finish first second ihFirst ihSecond =>
    intro scope next point entered
    have both : (Route.seq first second).Entered census scope next point := entered.like rfl rfl entered.tidy
    simp only [walk, ihFirst both.left, ihSecond (both.right some_pass)]
  | fork left right ihLeft ihRight =>
    intro scope next point entered
    have both : (Route.seq left right).Entered census scope next point := entered.like rfl rfl entered.tidy
    simp only [walk, ihLeft both.left, ihRight (entered.other some_pass)]
  | attempt body ih =>
    intro scope next point entered
    have inside : body.Entered census scope next point := entered.like rfl rfl entered.tidy
    simp only [walk, ih inside]
  | aside body ih =>
    intro scope next point entered
    have inside : body.Entered census scope next point := entered.like rfl rfl entered.tidy.tidy
    simp only [walk, ih inside]
  | loop body ih =>
    intro scope next point entered
    have inside : body.Entered census scope next point := entered.like rfl rfl entered.tidy
    obtain ⟨walks, final, settles, three, -⟩ := entered.settles enough
    have within := Nat.le_trans three enough
    have alike := settles.congr (fun start => start.Valid census ∧ point.Grows start)
      (fun start here => (ih (inside.again here.1 here.2)).symm) (entered.kept some_pass) ⟨entered.valid, .refl point⟩
    exact (alike.walkLoop (Nat.le_trans within larger)).trans (settles.walkLoop within).symm
  | function id name line body ih =>
    intro scope next point entered
    obtain ⟨own, inner⟩ := entered.function
    simp only [walk, own, ih inner]

end Route

/-- The walk over a numbered program starts at the beginning of its route. -/
theorem Program.entered_route (program : Program) :
    program.withIds.1.route.Entered program.census ScopeTable.script 1
      ⟨.empty, .start program.withIds.1.declaredFunctions⟩ :=
  ⟨program.covers_route, program.withIds.1.tidy_route, Nat.one_pos, Point.start_valid _ _, Point.start_opened _⟩

/-- Every loop that resolution comes to, at whatever depth and in whatever scope, is left after at most three walks over
its body, and after at most two if the scope that encloses it has no declaration. The bound that resolution sets is
never met: it leaves the loop where an unbounded one would, and a larger one finds the same. -/
theorem Program.loops_settle (program : Program) (settings : Settings) :
    let numbered := program.withIds.1
    let limit := walkLimit program.withIds.2
    (∀ call ∈ numbered.loopCalls limit, ∃ walks final,
      call.Settles walks final ∧ (∀ counted behind, call.Settles counted behind → counted = walks) ∧ walks ≤ 3 ∧
      ((∀ occurrence ∈ (program.resolve settings).analysis.table.occurrences,
          occurrence.scope = call.scope → occurrence.kind ≠ .declaration) → walks ≤ 2) ∧
      Point.walkLoop call.body call.start.flow limit call.start = final) ∧
    ∀ larger ≥ limit, numbered.findings larger = numbered.findings limit := by
  intro numbered limit
  have enough : 3 ≤ limit := Program.three_le_walkLimit program.withIds.2
  constructor
  · intro call member
    rw [Program.loopCalls_route] at member
    obtain ⟨walks, final, settles, three, two⟩ :=
      numbered.route.settles_of_mem_loopCalls enough program.entered_route member
    refine ⟨walks, final, settles, fun counted behind again => (again.unique settles).1, three,
      fun undeclared => two fun occurrence listed own => ?_, settles.walkLoop (Nat.le_trans three enough)⟩
    have noted := (program.resolve_occurrences settings _).mpr ⟨occurrence, listed, rfl⟩
    have different := undeclared _ noted own
    exact different
  · intro larger above
    rw [Program.findings_route, Program.findings_route,
      numbered.route.walk_limit enough above program.entered_route]

/-- A loop in a loop. What is defined in the inner one reaches its own start on the second walk over the outer one. -/
def loopInLoop : Program :=
  ⟨[.whileLoop 1 (.named "x" 1) [.whileLoop 2 (.named "y" 2) [.assignOne (.named "x" 3) (.named "y" 3)]]]⟩

example : (loopInLoop.withIds.1.loopCalls (Program.walkLimit loopInLoop.withIds.2)).map
    (fun call => call.start.flow.facts.length) = [0, 0, 1] := by decide

end ArrayLift
