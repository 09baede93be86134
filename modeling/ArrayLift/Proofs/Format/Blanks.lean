import ArrayLift.Json.Value

/-! Blanks between tokens: a value keeps its tokens when blanks are put in or taken away there. -/
namespace ArrayLift.Json

namespace Token

/-- The same state behind further tokens. -/
def Scan.onto (base : List Token) (scan : Scan) : Scan :=
  ⟨scan.stage, scan.tokens ++ base⟩

variable {base tokens : List Token} {scan : Scan} {c : Char}

theorem start?_onto : start? (tokens ++ base) c = (start? tokens c).map (Scan.onto base) := by
  unfold start?
  split
  · rfl
  · split <;> first | rfl | (cases digit? c <;> rfl)

theorem behindNumber?_onto {negative : Bool} {whole : Nat} {reversed : List (Fin 10)} {exponent : Option Int} :
    behindNumber? (tokens ++ base) negative whole reversed exponent c =
      (behindNumber? tokens negative whole reversed exponent c).map (Scan.onto base) :=
  @start?_onto base (numberToken negative whole reversed exponent :: tokens) c

theorem behindDigits?_onto {negative : Bool} {whole : Nat} {reversed : List (Fin 10)} :
    behindDigits? (tokens ++ base) negative whole reversed c =
      (behindDigits? tokens negative whole reversed c).map (Scan.onto base) := by
  unfold behindDigits?
  split
  · rfl
  · exact behindNumber?_onto

theorem behindWhole?_onto {negative : Bool} {whole : Nat} :
    behindWhole? (tokens ++ base) negative whole c = (behindWhole? tokens negative whole c).map (Scan.onto base) := by
  unfold behindWhole?
  split
  · rfl
  · exact behindDigits?_onto

/-- What is read next does not depend on the tokens before. -/
theorem step?_onto : step? (scan.onto base) c = (step? scan c).map (Scan.onto base) := by
  obtain ⟨stage, tokens⟩ := scan
  cases stage <;> simp only [step?, Scan.onto]
  case between => exact start?_onto
  case word => split <;> first | rfl | (split <;> rfl)
  case text => split <;> first | rfl | (split <;> first | rfl | (split <;> rfl))
  case escape => split <;> first | rfl | (cases escaped? c <;> rfl)
  case unicode =>
    rw [Option.map_map]
    congr 1
    funext digit
    simp only [Function.comp]
    split <;> rfl
  case sign =>
    rw [Option.map_map]
    congr 1
    funext digit
    simp only [Function.comp]
    split <;> rfl
  case zero => split <;> first | rfl | exact behindWhole?_onto
  case whole => split <;> first | rfl | exact behindWhole?_onto
  case point => cases digit? c <;> rfl
  case fraction => split <;> first | rfl | exact behindDigits?_onto
  case mark => split <;> first | rfl | (cases digit? c <;> rfl)
  case markSign => cases digit? c <;> rfl
  case exponent => split <;> first | rfl | exact behindNumber?_onto

theorem run?_onto {text : List Char} : run? (scan.onto base) text = (run? scan text).map (Scan.onto base) := by
  induction text generalizing scan with
  | nil => rfl
  | cons c rest ih =>
    rw [run?, run?, step?_onto]
    cases step? scan c with
    | none => rfl
    | some next => exact ih

theorem finish?_onto : finish? (scan.onto base) = (finish? scan).map (base.reverse ++ ·) := by
  obtain ⟨stage, tokens⟩ := scan
  cases stage <;> simp [finish?, Scan.onto]

theorem run?_append {before after : List Char} :
    run? scan (before ++ after) = (run? scan before).bind fun next => run? next after := by
  induction before generalizing scan with
  | nil => rfl
  | cons c rest ih =>
    rw [List.cons_append, run?, run?]
    cases step? scan c with
    | none => rfl
    | some next => exact ih

/-- Behind complete tokens, a text has its own tokens. -/
theorem finish?_run?_between {text : List Char} :
    ((run? ⟨.between, base⟩ text).bind finish?) = (scan? text).map (base.reverse ++ ·) := by
  have own := @run?_onto base ⟨.between, []⟩ text
  rw [show Scan.onto base ⟨.between, []⟩ = ⟨.between, base⟩ from rfl] at own
  rw [own, scan?]
  cases run? ⟨.between, []⟩ text with
  | none => rfl
  | some next => exact finish?_onto

/-- A character that does not continue a number. -/
def endsNumber (c : Char) : Bool :=
  !c.isDigit && c != '.' && c != 'e' && c != 'E'

theorem endsNumber_of_isBlank (blank : isBlank c) : endsNumber c := by
  simp only [isBlank, Bool.or_eq_true, decide_eq_true_eq] at blank
  rcases blank with ((rfl | rfl) | rfl) | rfl <;> decide

/-- A character that does not continue a number is read as if the number were complete. -/
theorem step?_of_finish? {read : List Token} (complete : finish? scan = some read) (ends : endsNumber c) :
    step? scan c = start? read.reverse c := by
  obtain ⟨stage, tokens⟩ := scan
  simp only [endsNumber, Bool.and_eq_true, Bool.not_eq_true', bne_iff_ne, ne_eq] at ends
  obtain ⟨⟨⟨noDigit, noPoint⟩, noMark⟩, noMark'⟩ := ends
  have nothing : digit? c = none := by simp [digit?, noDigit]
  cases stage <;> simp only [finish?, Option.some.injEq, reduceCtorEq] at complete <;> subst complete <;>
    simp [step?, noDigit, nothing, behindWhole?, noPoint, behindDigits?, noMark, noMark', behindNumber?]

theorem run?_blanks {blanks : List Char} (blank : ∀ c ∈ blanks, isBlank c) :
    run? ⟨.between, base⟩ blanks = some ⟨.between, base⟩ := by
  induction blanks with
  | nil => rfl
  | cons c rest ih =>
    obtain ⟨here, later⟩ := List.forall_mem_cons.mp blank
    have first : step? ⟨.between, base⟩ c = some ⟨.between, base⟩ := if_pos here
    rw [run?, first]
    exact ih later

/-- Blanks in front of a text have no tokens. -/
theorem scan?_blanks {blanks after : List Char} (blank : ∀ c ∈ blanks, isBlank c) :
    scan? (blanks ++ after) = scan? after := by
  rw [scan?, run?_append, run?_blanks blank]
  rfl

/-- The tokens of two texts that do not meet inside a number. -/
theorem scan?_append {before : List Char} {c : Char} {rest : List Char} {read : List Token}
    (complete : scan? before = some read) (ends : endsNumber c) :
    scan? (before ++ c :: rest) = (scan? (c :: rest)).map (read ++ ·) := by
  obtain ⟨scan, reached, complete⟩ := Option.bind_eq_some_iff.mp complete
  rw [scan?, run?_append, reached, Option.bind_some, run?, step?_of_finish? complete ends]
  have own := @finish?_run?_between read.reverse (c :: rest)
  rwa [List.reverse_reverse] at own

/-- The stages inside a number. -/
def Stage.inNumber : Stage → Bool
  | .sign | .zero .. | .whole .. | .point .. | .fraction .. | .mark .. | .markSign .. | .exponent .. => true
  | _ => false

/-- A number goes on, or it is complete and the character stands behind it. -/
def Scan.Follows (c : Char) (next : Scan) : Prop :=
  (next.stage.inNumber ∧ next.tokens = []) ∨ ∃ numeral, start? [.number numeral] c = some next

theorem follows_behindDigits? {negative : Bool} {whole : Nat} {reversed : List (Fin 10)} {next : Scan}
    (behind : behindDigits? [] negative whole reversed c = some next) : next.Follows c := by
  unfold behindDigits? at behind
  split at behind
  · cases behind
    exact .inl ⟨rfl, rfl⟩
  · exact .inr ⟨_, behind⟩

theorem follows_behindWhole? {negative : Bool} {whole : Nat} {next : Scan}
    (behind : behindWhole? [] negative whole c = some next) : next.Follows c := by
  unfold behindWhole? at behind
  split at behind
  · cases behind
    exact .inl ⟨rfl, rfl⟩
  · exact follows_behindDigits? behind

theorem step?_inNumber {stage : Stage} {next : Scan} (inside : stage.inNumber)
    (step : step? ⟨stage, []⟩ c = some next) : next.Follows c := by
  cases stage <;> simp only [Stage.inNumber, Bool.false_eq_true] at inside <;> simp only [step?] at step
  case sign =>
    obtain ⟨digit, -, rfl⟩ := Option.map_eq_some_iff.mp step
    split <;> exact .inl ⟨rfl, rfl⟩
  case zero =>
    split at step
    · cases step
    · exact follows_behindWhole? step
  case whole =>
    split at step
    · cases step
      exact .inl ⟨rfl, rfl⟩
    · exact follows_behindWhole? step
  case point =>
    obtain ⟨digit, -, rfl⟩ := Option.map_eq_some_iff.mp step
    exact .inl ⟨rfl, rfl⟩
  case fraction =>
    split at step
    · cases step
      exact .inl ⟨rfl, rfl⟩
    · exact follows_behindDigits? step
  case mark =>
    split at step
    · cases step
      exact .inl ⟨rfl, rfl⟩
    · obtain ⟨digit, -, rfl⟩ := Option.map_eq_some_iff.mp step
      exact .inl ⟨rfl, rfl⟩
  case markSign =>
    obtain ⟨digit, -, rfl⟩ := Option.map_eq_some_iff.mp step
    exact .inl ⟨rfl, rfl⟩
  case exponent =>
    split at step
    · cases step
      exact .inl ⟨rfl, rfl⟩
    · exact .inr ⟨_, step⟩

/-- A text that goes on inside a number starts with the token of that number. -/
theorem number_first {right : List Token} : ∀ {text : List Char} {stage : Stage}, stage.inNumber →
    (run? ⟨stage, []⟩ text).bind finish? = some right → ∃ numeral later, right = .number numeral :: later
  | [], stage, inside, read => by
    cases stage <;> simp only [Stage.inNumber, Bool.false_eq_true] at inside <;>
      simp only [run?, Option.bind_some, finish?, reduceCtorEq] at read
    all_goals exact ⟨_, _, (Option.some.inj read).symm⟩
  | c :: rest, stage, inside, read => by
    rw [run?] at read
    obtain ⟨scan, reached, read⟩ := Option.bind_eq_some_iff.mp read
    obtain ⟨next, step, reached⟩ := Option.bind_eq_some_iff.mp reached
    rcases step?_inNumber inside step with ⟨inside, none⟩ | ⟨numeral, behind⟩
    · obtain ⟨stage, tokens⟩ := next
      subst none
      exact number_first inside (by rw [reached]; exact read)
    · rw [← List.nil_append [Token.number numeral], start?_onto] at behind
      obtain ⟨own, -, rfl⟩ := Option.map_eq_some_iff.mp behind
      rw [run?_onto] at reached
      obtain ⟨last, -, rfl⟩ := Option.map_eq_some_iff.mp reached
      rw [finish?_onto] at read
      obtain ⟨later, -, rfl⟩ := Option.map_eq_some_iff.mp read
      exact ⟨numeral, later, rfl⟩

/-- Only numbers start with a character that continues numbers. -/
theorem number_of_not_endsNumber {rest : List Char} {right : List Token} (continues : endsNumber c = false)
    (read : scan? (c :: rest) = some right) : ∃ numeral later, right = .number numeral :: later := by
  obtain ⟨scan, reached, read⟩ := Option.bind_eq_some_iff.mp read
  obtain ⟨next, step, reached⟩ := Option.bind_eq_some_iff.mp reached
  have digit : next.stage.inNumber ∧ next.tokens = [] := by
    simp only [step?, start?] at step
    split at step
    · rename_i blank
      rw [endsNumber_of_isBlank blank] at continues
      cases continues
    · split at step <;> first | exact absurd continues (by decide) | skip
      · cases step
        exact ⟨rfl, rfl⟩
      · obtain ⟨digit, -, rfl⟩ := Option.map_eq_some_iff.mp step
        exact ⟨rfl, rfl⟩
  obtain ⟨stage, tokens⟩ := next
  obtain ⟨inside, none⟩ := digit
  simp only at inside none
  subst none
  exact number_first inside (by rw [reached]; exact read)

/-- A text of tokens ends between two tokens or with a number. -/
theorem between_or_number {read : List Token} (complete : finish? scan = some read) :
    (scan.stage = .between ∧ scan.tokens.reverse = read) ∨ ∃ before numeral, read = before ++ [.number numeral] := by
  obtain ⟨stage, tokens⟩ := scan
  cases stage <;> simp only [finish?, Option.some.injEq, reduceCtorEq] at complete
  case between => exact .inl ⟨rfl, complete⟩
  all_goals exact .inr ⟨tokens.reverse, _, complete.symm.trans List.reverse_cons⟩

end Token

/-- No number stands behind a complete value. -/
theorem behind?_number {value : Json} {frames : List Frame} {numeral : Numeral} :
    behind? value frames (.number numeral) = none := by
  unfold behind?
  split <;> first | rfl | (rename_i close; cases close)

/-- Behind a number, a value is complete. -/
theorem step?_number {build next : Build} {numeral : Numeral} (step : step? build (.number numeral) = some next) :
    next.expects = .behind (.number numeral) := by
  obtain ⟨frames, expects⟩ := build
  cases expects <;> simp only [step?] at step
  case value =>
    cases step
    rfl
  case item =>
    cases step
    rfl
  case member => cases step
  case key => cases step
  case colon => cases step
  case behind value =>
    rw [behind?_number] at step
    cases step

/-- No value has one number right behind another. -/
theorem run?_numbers {one other : Numeral} {later : List Token} : ∀ {before : List Token} {build : Build},
    run? build (before ++ .number one :: .number other :: later) = none
  | [], build => by
    simp only [List.nil_append, run?]
    cases step : step? build (.number one) with
    | none => rfl
    | some next =>
      have complete := step?_number step
      have stuck : step? next (.number other) = none := by
        simp only [step?, complete]
        exact behind?_number
      rw [Option.bind_some, stuck, Option.bind_none]
  | token :: before, build => by
    rw [List.cons_append, run?]
    cases step? build token with
    | none => rfl
    | some next => exact run?_numbers

/-- Two texts that differ in the blanks at one place between tokens. -/
def Respaced (text text' : String) : Prop :=
  ∃ before blanks blanks' after left right,
    text.toList = before ++ blanks ++ after ∧ text'.toList = before ++ blanks' ++ after ∧
    (∀ c ∈ blanks, Token.isBlank c) ∧ (∀ c ∈ blanks', Token.isBlank c) ∧
    Token.scan? before = some left ∧ Token.scan? after = some right ∧ Token.scan? text.toList = some (left ++ right)

/-- A text that spells a value spells the same with other blanks. -/
theorem parse?_respaced {text text' : String} {value : Json} (respaced : Respaced text text')
    (parsed : parse? text = some value) : parse? text' = some value := by
  obtain ⟨before, blanks, blanks', after, left, right, -, same, -, blank, first, last, whole⟩ := respaced
  have spelled : ofTokens? (left ++ right) = some value := by simpa [parse?, whole] using parsed
  have tokens : Token.scan? text'.toList = some (left ++ right) := by
    rw [same, List.append_assoc]
    match blanks', after with
    | c :: blanks', after =>
      have later : Token.scan? (c :: (blanks' ++ after)) = some right := (Token.scan?_blanks blank).trans last
      rw [List.cons_append, Token.scan?_append first (Token.endsNumber_of_isBlank (blank c (List.mem_cons_self ..))),
        later, Option.map_some]
    | [], [] =>
      cases last
      simpa using first
    | [], c :: rest =>
      cases ends : Token.endsNumber c with
      | true => rw [List.nil_append, Token.scan?_append first ends, last, Option.map_some]
      | false =>
        obtain ⟨scan, reached, complete⟩ := Option.bind_eq_some_iff.mp first
        rcases Token.between_or_number complete with ⟨between, read⟩ | ⟨earlier, one, rfl⟩
        · obtain ⟨stage, tokens⟩ := scan
          simp only at between read
          subst between read
          rw [List.nil_append, Token.scan?, Token.run?_append, reached, Option.bind_some, Token.finish?_run?_between,
            last, Option.map_some]
        · obtain ⟨other, later, rfl⟩ := Token.number_of_not_endsNumber ends last
          rw [List.append_assoc, List.singleton_append, ofTokens?, run?_numbers] at spelled
          cases spelled
  rw [parse?, tokens]
  exact spelled

end ArrayLift.Json
