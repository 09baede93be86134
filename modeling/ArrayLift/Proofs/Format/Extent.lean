import ArrayLift.Proofs.Format.Rewriting

/-! The extent of a text: it has no more tokens than characters, and its value no more arrays and objects than
tokens. -/
namespace ArrayLift.Json

namespace Token

/-- The tokens so far, and the one that has been started. -/
def Scan.count (scan : Scan) : Nat :=
  scan.tokens.length + match scan.stage with
    | .between => 0
    | _ => 1

variable {scan next : Scan} {tokens : List Token} {c : Char}

theorem count_start? (start : start? tokens c = some next) : next.count ≤ tokens.length + 1 := by
  unfold start? at start
  split at start
  · cases start
    exact Nat.le_succ _
  · split at start <;> first | (cases start; exact Nat.le_refl _) | skip
    obtain ⟨digit, -, rfl⟩ := Option.map_eq_some_iff.mp start
    exact Nat.le_refl _

theorem count_behindDigits? {negative : Bool} {whole : Nat} {reversed : List (Fin 10)}
    (behind : behindDigits? tokens negative whole reversed c = some next) : next.count ≤ tokens.length + 2 := by
  unfold behindDigits? at behind
  split at behind
  · cases behind
    exact Nat.le_succ _
  · exact count_start? behind

theorem count_behindWhole? {negative : Bool} {whole : Nat} (behind : behindWhole? tokens negative whole c = some next) :
    next.count ≤ tokens.length + 2 := by
  unfold behindWhole? at behind
  split at behind
  · cases behind
    exact Nat.le_succ _
  · exact count_behindDigits? behind

/-- One character starts one token at most. -/
theorem count_step? (step : step? scan c = some next) : next.count ≤ scan.count + 1 := by
  obtain ⟨stage, tokens⟩ := scan
  cases stage <;> simp only [step?] at step <;> simp only [Scan.count]
  case between => exact count_start? step
  case word =>
    split at step
    · split at step <;> cases step <;> simp only [List.length_cons] <;> omega
    · cases step
  case text =>
    split at step
    · cases step
      exact Nat.le_succ _
    split at step
    · cases step
      exact Nat.le_succ _
    split at step
    · cases step
    · cases step
      exact Nat.le_succ _
  case escape =>
    split at step
    · cases step
      exact Nat.le_succ _
    · obtain ⟨unit, -, rfl⟩ := Option.map_eq_some_iff.mp step
      exact Nat.le_succ _
  case unicode =>
    obtain ⟨digit, -, rfl⟩ := Option.map_eq_some_iff.mp step
    split <;> exact Nat.le_succ _
  case sign =>
    obtain ⟨digit, -, rfl⟩ := Option.map_eq_some_iff.mp step
    split <;> exact Nat.le_succ _
  case zero =>
    split at step
    · cases step
    · exact count_behindWhole? step
  case whole =>
    split at step
    · cases step
      exact Nat.le_succ _
    · exact count_behindWhole? step
  case point =>
    obtain ⟨digit, -, rfl⟩ := Option.map_eq_some_iff.mp step
    exact Nat.le_succ _
  case fraction =>
    split at step
    · cases step
      exact Nat.le_succ _
    · exact count_behindDigits? step
  case mark =>
    split at step
    · cases step
      exact Nat.le_succ _
    · obtain ⟨digit, -, rfl⟩ := Option.map_eq_some_iff.mp step
      exact Nat.le_succ _
  case markSign =>
    obtain ⟨digit, -, rfl⟩ := Option.map_eq_some_iff.mp step
    exact Nat.le_succ _
  case exponent =>
    split at step
    · cases step
      exact Nat.le_succ _
    · exact count_start? step

theorem count_run? {text : List Char} (run : run? scan text = some next) : next.count ≤ scan.count + text.length := by
  induction text generalizing scan with
  | nil =>
    cases run
    exact Nat.le_refl _
  | cons c rest ih =>
    obtain ⟨middle, step, run⟩ := Option.bind_eq_some_iff.mp run
    have first := count_step? step
    have later := ih run
    rw [List.length_cons]
    omega

/-- A text has no more tokens than characters. -/
theorem length_le_of_scan? {text : List Char} (read : scan? text = some tokens) : tokens.length ≤ text.length := by
  obtain ⟨last, run, finish⟩ := Option.bind_eq_some_iff.mp read
  have all : last.count ≤ 0 + text.length := count_run? run
  have complete : tokens.length ≤ last.count := by
    obtain ⟨stage, before⟩ := last
    cases stage <;> simp only [finish?, Option.some.injEq, reduceCtorEq] at finish <;> subst finish <;>
      simp [Scan.count]
  omega

end Token

theorem containersIn_reverse (items : List Json) : containersIn items.reverse = containersIn items := by
  have append (one other : List Json) : containersIn (one ++ other) = containersIn one + containersIn other := by
    induction one with
    | nil => exact (Nat.zero_add _).symm
    | cons item rest ih => rw [List.cons_append, containersIn, containersIn, ih, Nat.add_assoc]
  induction items with
  | nil => rfl
  | cons item rest ih =>
    rw [List.reverse_cons, append, ih, containersIn, containersIn, containersIn]
    omega

theorem containersAt_reverse (members : List (Text × Json)) : containersAt members.reverse = containersAt members := by
  have append (one other : List (Text × Json)) :
      containersAt (one ++ other) = containersAt one + containersAt other := by
    induction one with
    | nil => exact (Nat.zero_add _).symm
    | cons member rest ih => rw [List.cons_append, containersAt, containersAt, ih, Nat.add_assoc]
  induction members with
  | nil => rfl
  | cons member rest ih =>
    rw [List.reverse_cons, append, ih, containersAt, containersAt, containersAt]
    omega

/-- The arrays and objects so far, the open ones among them. -/
def Frame.containers : Frame → Nat
  | .array items => containersIn items + 1
  | .object members _ => containersAt members + 1

def Expects.containers : Expects → Nat
  | .value | .item => 0
  | .member => 1
  | .key members | .colon members _ => containersAt members + 1
  | .behind complete => complete.containers

def Build.containers (build : Build) : Nat :=
  (build.frames.map Frame.containers).sum + build.expects.containers

variable {build next : Build} {token : Token}

theorem containers_value? {frames : List Frame} (step : value? frames token = some next) :
    next.containers ≤ (frames.map Frame.containers).sum + 1 := by
  cases token <;> cases step <;>
    simp [Build.containers, Expects.containers, Frame.containers, containers, containersIn] <;> omega

/-- One token opens one array or object at most. -/
theorem containers_step? (step : step? build token = some next) : next.containers ≤ build.containers + 1 := by
  obtain ⟨frames, expects⟩ := build
  cases expects <;> simp only [step?] at step
  case value => exact containers_value? step
  case item =>
    split at step
    · cases step
      simp [Build.containers, Expects.containers, Frame.containers, containers, containersIn]
    · exact containers_value? step
  case member =>
    split at step <;> cases step <;> simp [Build.containers, Expects.containers, containers, containersAt]
  case key =>
    split at step <;> cases step
    simp [Build.containers, Expects.containers]
  case colon =>
    split at step <;> cases step
    simp [Build.containers, Expects.containers, Frame.containers]
    omega
  case behind value =>
    unfold behind? at step
    split at step <;> cases step <;>
      simp only [Build.containers, Expects.containers, Frame.containers, List.map_cons, List.sum_cons, containers,
        containersIn_reverse, containersAt_reverse, containersIn, containersAt] <;>
      omega

theorem containers_run? {tokens : List Token} (run : run? build tokens = some next) :
    next.containers ≤ build.containers + tokens.length := by
  induction tokens generalizing build with
  | nil =>
    cases run
    exact Nat.le_refl _
  | cons token rest ih =>
    obtain ⟨middle, step, run⟩ := Option.bind_eq_some_iff.mp run
    have first := containers_step? step
    have later := ih run
    rw [List.length_cons]
    omega

/-- A text has no more arrays and objects than characters. -/
theorem containers_le_of_parse? {text : String} {value : Json} (parsed : parse? text = some value) :
    value.containers ≤ text.length := by
  obtain ⟨tokens, scanned, built⟩ := Option.bind_eq_some_iff.mp parsed
  have short := Token.length_le_of_scan? scanned
  unfold ofTokens? at built
  split at built
  · rename_i run
    cases built
    have all : Build.containers ⟨[], .behind value⟩ ≤ Build.containers ⟨[], .value⟩ + tokens.length :=
      containers_run? run
    simp only [Build.containers, Expects.containers, List.map_nil, List.sum_nil, Nat.zero_add] at all
    exact Nat.le_trans all (String.length_toList ▸ short)
  · cases built

end ArrayLift.Json
