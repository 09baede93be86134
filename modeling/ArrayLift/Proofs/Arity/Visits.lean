import ArrayLift.Proofs.Walk.Route
import ArrayLift.Resolution.Analysis

/-! How often the walk reports that several targets are assigned from a single value. A report is made on every
visit, so the places on a route are reported once each exactly if the walk passes the loops around them once. -/
namespace ArrayLift

/-- Is a source a single value? That of a name is if the name is a variable, that of something computed always. -/
def ValueSource.isSingle (table : ScopeTable) : ValueSource → Bool
  | .several => false
  | .single _ => true
  | .named root => root.all fun root => table.roleOf root.1 = .variable

/-- Does a step take several values from a single one? -/
def Step.isMismatch (table : ScopeTable) : Step → Bool
  | .checkArity _ _ source => source.isSingle table
  | _ => false

/-- The reports on counts of values that are due for what has been found. -/
def Findings.reports (table : ScopeTable) (findings : Findings) : Nat :=
  findings.diagnostics.countP (·.concern = .arityMismatch) +
    findings.pending.countP fun pending => (pending.diagnostic? table).isSome

/-- The visits to something in a loop, over all walks of its body. -/
def Point.loopVisits (body : Point → Point) (visits : Point → Nat) (entry : Flow) : Nat → Point → Nat
  | 0, _ => 0
  | walks + 1, point =>
    let walked := body point
    let next := entry.merge walked.flow
    visits point + if next.same point.flow then 0 else loopVisits body visits entry walks (walked.withFlow next)

namespace Route

variable (table : ScopeTable) (limit : Nat)

/-- The places on a route where several values are taken from a single one. -/
def mismatches : Route → Nat
  | .stay | .jump _ => 0
  | .step action => if action.isMismatch table then 1 else 0
  | .seq first second | .fork first second | .ensure first second | .finish first second =>
    mismatches first + mismatches second
  | .attempt body | .loop body | .aside body | .function _ _ _ body => mismatches body

/-- The visits of the walk to these places. -/
def visits : Route → ScopeId → Point → Nat
  | .stay, _, _ | .jump _, _, _ => 0
  | .step action, _, _ => if action.isMismatch table then 1 else 0
  | .seq first second, scope, point | .ensure first second, scope, point
  | .finish first second, scope, point =>
    visits first scope point + visits second scope (first.walk limit scope point)
  | .fork left right, scope, point =>
    visits left scope point + visits right scope ((left.walk limit scope point).withFlow point.flow)
  | .attempt body, scope, point | .aside body, scope, point => visits body scope point
  | .loop body, scope, point =>
    Point.loopVisits (body.walk limit scope) (visits body scope) point.flow limit point
  | .function id name line body, scope, point =>
    let (inner, entered) := point.enterFunction scope (.bare name id) [] line
    visits body inner entered

/-- Every loop around such a place is settled by its first pass: it makes no definition live that is not live
before it. -/
def PassedOnce : Route → ScopeId → Point → Prop
  | .stay, _, _ | .jump _, _, _ | .step _, _, _ => True
  | .seq first second, scope, point | .ensure first second, scope, point
  | .finish first second, scope, point =>
    PassedOnce first scope point ∧ PassedOnce second scope (first.walk limit scope point)
  | .fork left right, scope, point =>
    PassedOnce left scope point ∧ PassedOnce right scope ((left.walk limit scope point).withFlow point.flow)
  | .attempt body, scope, point | .aside body, scope, point => PassedOnce body scope point
  | .loop body, scope, point => body.mismatches table = 0 ∨
    (PassedOnce body scope point ∧ (point.flow.merge (body.walk limit scope point).flow).same point.flow = true)
  | .function id name line body, scope, point =>
    let (inner, entered) := point.enterFunction scope (.bare name id) [] line
    PassedOnce body inner entered

end Route

namespace Point

variable {table : ScopeTable}

theorem reports_checkSource (point : Point) (line : SourceLine) (targets : Nat) (source : ValueSource) :
    (point.checkSource line targets source).findings.reports table =
      point.findings.reports table + if source.isSingle table then 1 else 0 := by
  cases source with
  | several => rfl
  | single description =>
    simp [checkSource, Findings.reports, ValueSource.isSingle, Diagnostic.arityMismatch, Diagnostic.withNote,
      Diagnostic.warning, Diagnostic.plain]
    omega
  | named root =>
    cases root with
    | none =>
      simp [checkSource, Findings.reports, ValueSource.isSingle, PendingAssignment.diagnostic?]
      omega
    | some root =>
      by_cases role : table.roleOf root.1 = .variable <;>
        simp [checkSource, Findings.reports, ValueSource.isSingle, PendingAssignment.diagnostic?, role]
      omega

theorem reports_enterFunction (point : Point) (scope : ScopeId) (id : Option IdentId) (name : String)
    (line : SourceLine) : (point.enterFunction scope (.bare name id) [] line).2.findings.reports table =
      point.findings.reports table := by
  cases id with
  | none => rfl
  | some id =>
    simp only [enterFunction, functionScope, Ident.bare, Ident.id]
    split
    · rfl
    · rfl

end Point

theorem Step.reports_walk (table : ScopeTable) (action : Step) (scope : ScopeId) (point : Point) :
    (action.walk scope point).findings.reports table =
      point.findings.reports table + if action.isMismatch table then 1 else 0 := by
  cases action with
  | use id name line indexed arrayOnly => rfl
  | define id name line kind =>
    simp only [Step.walk, Point.define, Ident.bare, Ident.id]
    by_cases part : kind = .partialDefinition
    · rw [if_pos part]
      rfl
    · rw [if_neg part]
      rfl
  | declare declaration id name line => rfl
  | checkArity line targets source => exact point.reports_checkSource line targets source

theorem Point.reports_walkLoop {table : ScopeTable} {body : Point → Point} {visits : Point → Nat}
    (each : ∀ point, (body point).findings.reports table = point.findings.reports table + visits point)
    (entry : Flow) (walks : Nat) (point : Point) :
    (walkLoop body entry walks point).findings.reports table =
      point.findings.reports table + loopVisits body visits entry walks point := by
  induction walks generalizing point with
  | zero => rfl
  | succ walks ih =>
    simp only [walkLoop, loopVisits]
    split
    · simp only [withFlow, each, Nat.add_zero]
    · rw [ih, ← Nat.add_assoc, ← each]
      rfl

namespace Route

variable {table : ScopeTable} {limit : Nat}

/-- Every visit adds a report, and nothing else does. -/
theorem reports_walk (route : Route) (scope : ScopeId) (point : Point) :
    (route.walk limit scope point).findings.reports table =
      point.findings.reports table + route.visits table limit scope point := by
  induction route generalizing scope point with
  | stay | jump _ => rfl
  | step action => exact action.reports_walk table scope point
  | seq first second ihFirst ihSecond | ensure first second ihFirst ihSecond
  | finish first second ihFirst ihSecond =>
    simp only [walk, visits, ihSecond, ihFirst, Nat.add_assoc]
  | fork left right ihLeft ihRight =>
    have other := ihRight scope ((left.walk limit scope point).withFlow point.flow)
    have one : ((left.walk limit scope point).withFlow point.flow).findings.reports table = _ :=
      ihLeft scope point
    rw [one, Nat.add_assoc] at other
    exact other
  | attempt body ih | aside body ih => exact ih scope point
  | loop body ih => exact Point.reports_walkLoop (ih scope) point.flow limit point
  | function id name line body ih =>
    have inside := ih (point.enterFunction scope (.bare name id) [] line).1
      (point.enterFunction scope (.bare name id) [] line).2
    rw [Point.reports_enterFunction] at inside
    exact inside

/-- Where there is nothing to report, nothing is visited. -/
theorem visits_of_no_mismatch (route : Route) (none : route.mismatches table = 0) (scope : ScopeId)
    (point : Point) : route.visits table limit scope point = 0 := by
  induction route generalizing scope point with
  | stay | jump _ => rfl
  | step action => exact none
  | seq first second ihFirst ihSecond | ensure first second ihFirst ihSecond | finish first second ihFirst ihSecond
  | fork first second ihFirst ihSecond =>
    obtain ⟨noFirst, noSecond⟩ := Nat.add_eq_zero_iff.mp none
    simp only [visits, ihFirst noFirst, ihSecond noSecond]
  | attempt body ih | aside body ih => exact ih none scope point
  | loop body ih =>
    have still (walks : Nat) (point : Point) (entry : Flow) :
        Point.loopVisits (body.walk limit scope) (visits table limit body scope) entry walks point = 0 := by
      induction walks generalizing point with
      | zero => rfl
      | succ walks again => simp [Point.loopVisits, ih none, again]
    exact still limit point point.flow
  | function id name line body ih => exact ih none _ _

/-- Every place is visited, and all of them once exactly if no loop around them is passed again. -/
theorem visits_eq_iff (enough : 2 ≤ limit) (route : Route) (scope : ScopeId) (point : Point) :
    route.mismatches table ≤ route.visits table limit scope point ∧
      (route.visits table limit scope point = route.mismatches table ↔ route.PassedOnce table limit scope point) := by
  induction route generalizing scope point with
  | stay | jump _ | step _ => exact ⟨Nat.le_refl _, fun _ => trivial, fun _ => rfl⟩
  | seq first second ihFirst ihSecond | ensure first second ihFirst ihSecond
  | finish first second ihFirst ihSecond =>
    obtain ⟨atLeast, once⟩ := ihFirst scope point
    obtain ⟨atLeast', once'⟩ := ihSecond scope (first.walk limit scope point)
    simp only [visits, mismatches, PassedOnce, ← once, ← once']
    omega
  | fork left right ihLeft ihRight =>
    obtain ⟨atLeast, once⟩ := ihLeft scope point
    obtain ⟨atLeast', once'⟩ := ihRight scope ((left.walk limit scope point).withFlow point.flow)
    simp only [visits, mismatches, PassedOnce, ← once, ← once']
    omega
  | attempt body ih | aside body ih => exact ih scope point
  | loop body ih =>
    by_cases none : body.mismatches table = 0
    · have still : (Route.loop body).visits table limit scope point = 0 :=
        visits_of_no_mismatch (.loop body) none scope point
      refine ⟨?_, fun _ => .inl none, fun _ => still.trans none.symm⟩
      exact Nat.le_trans (Nat.le_of_eq none) (Nat.zero_le _)
    obtain ⟨walks, rfl⟩ := Nat.exists_eq_add_of_le' enough
    obtain ⟨atLeast, once⟩ := ih scope point
    simp only [visits, mismatches, PassedOnce, none, false_or, ← once, Point.loopVisits]
    by_cases settled : (point.flow.merge (body.walk (walks + 2) scope point).flow).same point.flow = true
    · simp only [settled, if_true, Nat.add_zero, and_true, iff_self]
      exact atLeast
    · -- The second pass visits everything once more.
      have again := (ih scope ((body.walk (walks + 2) scope point).withFlow
        (point.flow.merge (body.walk (walks + 2) scope point).flow))).1
      simp only [settled, Bool.false_eq_true, if_false, and_false, iff_false]
      omega
  | function id name line body ih => exact ih _ _

end Route
end ArrayLift
