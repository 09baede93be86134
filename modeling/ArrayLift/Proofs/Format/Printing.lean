import ArrayLift.Json.Printer
import ArrayLift.Proofs.Format.Blanks

/-! A printed value reads back as itself. -/
namespace ArrayLift.Json

namespace Token

variable {tokens : List Token}

/-! Numbers -/

theorem digit?_digitChar : ∀ digit : Fin 10, digit? (Nat.digitChar digit.val) = some digit := by
  decide

theorem start?_digitChar : ∀ digit : Fin 10, digit.val ≠ 0 →
    start? tokens (Nat.digitChar digit.val) = some ⟨.whole false digit.val, tokens⟩
  | ⟨0, _⟩, positive => absurd rfl positive
  | ⟨1, _⟩, _ | ⟨2, _⟩, _ | ⟨3, _⟩, _ | ⟨4, _⟩, _ | ⟨5, _⟩, _ | ⟨6, _⟩, _ | ⟨7, _⟩, _ | ⟨8, _⟩, _ | ⟨9, _⟩, _ => rfl

/-- Where a number without a sign, or the rest of a negative one, starts. -/
def beforeWhole (negative : Bool) : Stage :=
  if negative then .sign else .between

/-- The first digit of a number. -/
theorem step?_first (negative : Bool) (digit : Fin 10) (positive : digit.val ≠ 0) :
    step? ⟨beforeWhole negative, tokens⟩ (Nat.digitChar digit.val) = some ⟨.whole negative digit.val, tokens⟩ := by
  cases negative with
  | false => exact start?_digitChar digit positive
  | true =>
    have nonzero : digit ≠ 0 := fun zero => positive (by rw [zero]; rfl)
    simp [beforeWhole, step?, digit?_digitChar, nonzero]

theorem toDigits_succ {value : Nat} (long : 10 ≤ value) :
    Nat.toDigits 10 value = Nat.toDigits 10 (value / 10) ++ [Nat.digitChar (value % 10)] := by
  have split := @Nat.toDigits_append_toDigits 10 (value / 10) (value % 10) (by decide) (by omega) (by omega)
  have last : Nat.toDigits 10 (value % 10) = [Nat.digitChar (value % 10)] := Nat.toDigits_of_lt_base (by omega)
  rw [Nat.div_add_mod, last] at split
  exact split.symm

theorem run?_toDigits (negative : Bool) {value : Nat} (positive : value ≠ 0) :
    run? ⟨beforeWhole negative, tokens⟩ (Nat.toDigits 10 value) = some ⟨.whole negative value, tokens⟩ := by
  induction value using Nat.strongRecOn with
  | _ value ih =>
    by_cases long : 10 ≤ value
    · rw [toDigits_succ long, run?_append, ih (value / 10) (by omega) (by omega), Option.bind_some, run?]
      have digit := digit?_digitChar ⟨value % 10, by omega⟩
      simp only at digit
      simp only [step?, digit, Option.bind_some, run?]
      congr 3
      omega
    · rw [Nat.toDigits_of_lt_base (by omega), run?, step?_first negative ⟨value, by omega⟩ positive]
      rfl

/-- Behind a whole part. -/
def behindWhole (negative : Bool) (value : Nat) : Stage :=
  if value = 0 then .zero negative else .whole negative value

theorem run?_nat (negative : Bool) (value : Nat) :
    run? ⟨beforeWhole negative, tokens⟩ (toString value).toList = some ⟨behindWhole negative value, tokens⟩ := by
  rw [Nat.toString_eq_repr, Nat.toList_repr, behindWhole]
  split
  · rename_i zero
    subst zero
    cases negative <;> rfl
  · rename_i positive
    exact run?_toDigits negative positive

/-- A whole part goes on with a point or an exponent, and it may be complete. -/
theorem step?_behindWhole (negative : Bool) (value : Nat) :
    step? ⟨behindWhole negative value, tokens⟩ '.' = some ⟨.point negative value, tokens⟩ ∧
      step? ⟨behindWhole negative value, tokens⟩ 'e' = some ⟨.mark negative value [], tokens⟩ ∧
      finish? ⟨behindWhole negative value, tokens⟩ = some (.number ⟨negative, value, [], none⟩ :: tokens).reverse := by
  unfold behindWhole
  split
  · rename_i zero
    subst zero
    exact ⟨rfl, rfl, rfl⟩
  · exact ⟨rfl, rfl, rfl⟩

/-- The digits behind a point. -/
theorem run?_fraction (negative : Bool) (whole : Nat) (digits : List (Fin 10)) : ∀ reversed : List (Fin 10),
    run? ⟨.fraction negative whole reversed, tokens⟩ (digits.map fun digit => Nat.digitChar digit.val) =
      some ⟨.fraction negative whole (digits.reverse ++ reversed), tokens⟩ := by
  induction digits with
  | nil => exact fun _ => rfl
  | cons digit rest ih =>
    intro reversed
    simp only [List.map_cons, run?, step?, digit?_digitChar, Option.bind_some, ih, List.reverse_cons, List.append_assoc,
      List.singleton_append]

/-- The digits of an exponent. -/
theorem run?_exponent (negative : Bool) (whole : Nat) (reversed : List (Fin 10)) (down : Bool) {stage : Stage}
    (first : ∀ digit : Fin 10, step? ⟨stage, tokens⟩ (Nat.digitChar digit.val) =
      some ⟨.exponent negative whole reversed down digit.val, tokens⟩) (value : Nat) :
    run? ⟨stage, tokens⟩ (Nat.toDigits 10 value) = some ⟨.exponent negative whole reversed down value, tokens⟩ := by
  induction value using Nat.strongRecOn with
  | _ value ih =>
    by_cases long : 10 ≤ value
    · rw [toDigits_succ long, run?_append, ih (value / 10) (by omega), Option.bind_some, run?]
      have digit := digit?_digitChar ⟨value % 10, by omega⟩
      simp only at digit
      simp only [step?, digit, Option.bind_some, run?]
      congr 3
      omega
    · rw [Nat.toDigits_of_lt_base (by omega), run?, first ⟨value, by omega⟩]
      rfl

theorem digitChar_ne_sign : ∀ digit : Fin 10, Nat.digitChar digit.val ≠ '+' ∧ Nat.digitChar digit.val ≠ '-' := by
  decide

/-- An exponent with its sign. -/
theorem finish?_exponent (negative : Bool) (whole : Nat) (reversed : List (Fin 10)) (exponent : Int) :
    (run? ⟨.mark negative whole reversed, tokens⟩ (toString exponent).toList).bind finish? =
      some (.number ⟨negative, whole, reversed.reverse, some exponent⟩ :: tokens).reverse := by
  rw [Int.toString_eq_repr, Int.repr_eq_if]
  split
  · rename_i positive
    rw [Nat.toList_repr, run?_exponent negative whole reversed false]
    · simp [finish?, numberToken, signed, Int.toNat_of_nonneg positive]
    · intro digit
      obtain ⟨noPlus, noMinus⟩ := digitChar_ne_sign digit
      simp [step?, noPlus, noMinus, digit?_digitChar]
  · rename_i below
    have minus : step? ⟨.mark negative whole reversed, tokens⟩ '-' =
        some ⟨.markSign negative whole reversed true, tokens⟩ := rfl
    rw [String.toList_append, Nat.toList_repr, show "-".toList = ['-'] from rfl, List.singleton_append, run?, minus,
      Option.bind_some, run?_exponent negative whole reversed true]
    · have value : signed true (-exponent).toNat = exponent := by
        simp only [signed, if_true]
        omega
      simp [finish?, numberToken, value]
    · intro digit
      simp [step?, digit?_digitChar]

/-- The text of a number has the token of that number. -/
theorem scan?_numeral (numeral : Numeral) : scan? numeral.text = some [.number numeral] := by
  obtain ⟨negative, whole, fraction, exponent⟩ := numeral
  have sign : run? ⟨.between, []⟩ (if negative then ['-'] else []) = some ⟨beforeWhole negative, []⟩ := by
    cases negative <;> rfl
  obtain ⟨point, mark, complete⟩ := @step?_behindWhole [] negative whole
  rw [scan?, Numeral.text, List.append_assoc, List.append_assoc, run?_append, sign, Option.bind_some, run?_append,
    run?_nat, Option.bind_some, run?_append]
  cases fraction with
  | nil =>
    simp only [List.isEmpty_nil, if_true, run?, Option.bind_some]
    cases exponent with
    | none => exact complete
    | some exponent =>
      simp only [run?, mark, Option.bind_some]
      exact finish?_exponent negative whole [] exponent
  | cons digit rest =>
    have first : step? ⟨.point negative whole, []⟩ (Nat.digitChar digit.val) =
        some ⟨.fraction negative whole [digit], []⟩ := by
      simp [step?, digit?_digitChar]
    rw [List.isEmpty_cons, if_neg Bool.false_ne_true, List.map_cons, run?, point, Option.bind_some, run?, first,
      Option.bind_some, run?_fraction, Option.bind_some]
    cases exponent with
    | none => simp [run?, finish?, numberToken]
    | some exponent =>
      have mark' : step? ⟨.fraction negative whole (rest.reverse ++ [digit]), []⟩ 'e' =
          some ⟨.mark negative whole (rest.reverse ++ [digit]), []⟩ := rfl
      dsimp only
      rw [run?, mark', Option.bind_some, finish?_exponent]
      simp

/-! Strings -/

theorem hexDigit?_digitChar : ∀ digit : Fin 16, hexDigit? (Nat.digitChar digit.val) = some digit.val := by
  decide

/-- An escape of four digits. -/
theorem run?_hexDigits (units : List Nat) {value : Nat} (small : value < 65536) :
    run? ⟨.unicode units 4 0, tokens⟩ (hexDigits 4 value) = some ⟨.text (value :: units), tokens⟩ := by
  have digit (value : Nat) : hexDigit? (Nat.digitChar (value % 16)) = some (value % 16) :=
    hexDigit?_digitChar ⟨value % 16, by omega⟩
  simp only [hexDigits, List.nil_append, List.cons_append, run?, step?, digit, Option.map_some, Option.bind_some]
  simp
  omega

theorem run?_encodeChar (units : List Nat) (c : Char) :
    run? ⟨.text units, tokens⟩ (encodeChar c) = some ⟨.text (c.toNat :: units), tokens⟩ := by
  unfold encodeChar
  -- The characters that have an escape of one letter.
  iterate 7
    split
    · rename_i same
      subst same
      rfl
  split
  · rename_i small
    have escape : run? ⟨.text units, tokens⟩ ['\\', 'u'] = some ⟨.unicode units 4 0, tokens⟩ := rfl
    have digits := @run?_hexDigits tokens units c.toNat (by omega)
    rw [show '\\' :: 'u' :: hexDigits 4 c.toNat = ['\\', 'u'] ++ hexDigits 4 c.toNat from rfl, run?_append, escape]
    exact digits
  · rename_i noQuote noBackslash _ _ _ _ _ large
    simp [run?, step?, noQuote, noBackslash, large]

theorem run?_chars (chars : List Char) : ∀ units : List Nat,
    run? ⟨.text units, tokens⟩ (chars.flatMap encodeChar) =
      some ⟨.text ((chars.map Char.toNat).reverse ++ units), tokens⟩ := by
  induction chars with
  | nil => exact fun _ => rfl
  | cons c rest ih =>
    intro units
    rw [List.flatMap_cons, run?_append, run?_encodeChar, Option.bind_some, ih]
    simp

/-- A character is no half of a surrogate pair. -/
theorem not_surrogate (c : Char) : isLeadingSurrogate c.toNat = false ∧ isTrailingSurrogate c.toNat = false := by
  have valid := c.valid
  simp only [isLeadingSurrogate, isTrailingSurrogate, Bool.and_eq_false_iff, decide_eq_false_iff_not]
  simp only [UInt32.isValidChar, Nat.isValidChar] at valid
  simp only [Char.toNat]
  omega

theorem joinPairs_chars : ∀ chars : List Char, joinPairs (chars.map Char.toNat) = some chars
  | [] => rfl
  | [c] => by
    obtain ⟨leading, trailing⟩ := not_surrogate c
    simp [joinPairs, leading, trailing]
  | c :: d :: rest => by
    obtain ⟨leading, trailing⟩ := not_surrogate c
    have later := joinPairs_chars (d :: rest)
    simp only [List.map_cons] at later
    simp [joinPairs, leading, trailing, later]

/-- The text of a string has the token of that string. -/
theorem scan?_quoted (text : Text) : scan? (quoted text) = some [.string text] := by
  cases text with
  | none => decide
  | some text =>
    have start : run? ⟨.between, []⟩ ['"'] = some ⟨.text [], []⟩ := rfl
    rw [scan?, quoted, List.cons_append, ← List.singleton_append, run?_append, start, Option.bind_some, run?_append,
      run?_chars, Option.bind_some]
    simp [run?, step?, finish?, textOfReversed, joinPairs_chars]

/-! Values -/

section Marks

variable {before after : List Char} {c : Char} {token : Token} {read later : List Token}

/-- Tokens behind a punctuation mark. -/
theorem scan?_mark (mark : start? [] c = some ⟨.between, [token]⟩) (last : scan? after = some later) :
    scan? (c :: after) = some (token :: later) := by
  rw [scan?, run?, step?, mark, Option.bind_some, finish?_run?_between, last]
  rfl

/-- Tokens with a punctuation mark between them. -/
theorem scan?_between (first : scan? before = some read) (ends : endsNumber c)
    (mark : start? [] c = some ⟨.between, [token]⟩) (last : scan? after = some later) :
    scan? (before ++ c :: after) = some (read ++ token :: later) := by
  rw [scan?_append first ends, scan?_mark mark last, Option.map_some]

end Marks
end Token

mutual
/-- The tokens of a value. -/
def tokens : Json → List Token
  | .null => [.null]
  | .bool value => [.bool value]
  | .number numeral => [.number numeral]
  | .string value => [.string value]
  | .array items => .openArray :: itemsTokens items ++ [.closeArray]
  | .object members => .openObject :: membersTokens members ++ [.closeObject]

/-- The items of an array with commas between them. -/
def itemsTokens : List Json → List Token
  | [] => []
  | [item] => tokens item
  | item :: rest => tokens item ++ .comma :: itemsTokens rest

/-- The members of an object with commas between them. -/
def membersTokens : List (Text × Json) → List Token
  | [] => []
  | [(key, value)] => .string key :: .colon :: tokens value
  | (key, value) :: rest => .string key :: .colon :: tokens value ++ .comma :: membersTokens rest
end

section Lists

variable {item next : Json} {rest : List Json} {member member' : Text × Json} {others : List (Text × Json)}

theorem itemsText_cons : itemsText (item :: next :: rest) = text item ++ ',' :: itemsText (next :: rest) := by
  rw [itemsText]
  exact List.cons_ne_nil _ _

theorem itemsTokens_cons :
    itemsTokens (item :: next :: rest) = tokens item ++ .comma :: itemsTokens (next :: rest) := by
  rw [itemsTokens]
  exact List.cons_ne_nil _ _

theorem membersText_cons : membersText (member :: member' :: others) =
    quoted member.1 ++ ':' :: text member.2 ++ ',' :: membersText (member' :: others) := by
  rw [membersText]
  exact List.cons_ne_nil _ _

theorem membersTokens_cons : membersTokens (member :: member' :: others) =
    .string member.1 :: .colon :: tokens member.2 ++ .comma :: membersTokens (member' :: others) := by
  rw [membersTokens]
  exact List.cons_ne_nil _ _

end Lists

mutual
/-- The text of a value has the tokens of that value. -/
theorem scan?_text : ∀ value : Json, Token.scan? value.text = some value.tokens
  | .null | .bool true | .bool false => by
    simp only [text, tokens]
    decide
  | .number numeral => by
    rw [text, tokens]
    exact Token.scan?_numeral numeral
  | .string value => by
    rw [text, tokens]
    exact Token.scan?_quoted value
  | .array items => by
    rw [text, tokens]
    exact Token.scan?_mark rfl (scan?_itemsText items)
  | .object members => by
    rw [text, tokens]
    exact Token.scan?_mark rfl (scan?_membersText members)

theorem scan?_itemsText : ∀ items : List Json,
    Token.scan? (itemsText items ++ [']']) = some (itemsTokens items ++ [.closeArray])
  | [] => rfl
  | [item] => by
    rw [itemsText, itemsTokens]
    exact Token.scan?_between (scan?_text item) rfl rfl rfl
  | item :: next :: rest => by
    have later := scan?_itemsText (next :: rest)
    rw [itemsText_cons, itemsTokens_cons, List.append_assoc, List.append_assoc]
    exact Token.scan?_between (scan?_text item) rfl rfl later

theorem scan?_membersText : ∀ members : List (Text × Json),
    Token.scan? (membersText members ++ ['\x7d']) = some (membersTokens members ++ [.closeObject])
  | [] => rfl
  | [(key, value)] => by
    have content : Token.scan? (text value ++ ['\x7d']) = some (tokens value ++ [.closeObject]) :=
      Token.scan?_between (scan?_text value) rfl rfl rfl
    rw [membersText, membersTokens]
    simp only [List.append_assoc, List.cons_append]
    exact Token.scan?_between (Token.scan?_quoted key) rfl rfl content
  | (key, value) :: next :: rest => by
    have later := scan?_membersText (next :: rest)
    have content : Token.scan? (text value ++ ',' :: (membersText (next :: rest) ++ ['\x7d'])) =
        some (tokens value ++ .comma :: (membersTokens (next :: rest) ++ [.closeObject])) :=
      Token.scan?_between (scan?_text value) rfl rfl later
    rw [membersText_cons, membersTokens_cons]
    simp only [List.append_assoc, List.cons_append]
    exact Token.scan?_between (Token.scan?_quoted key) rfl rfl content
end

theorem run?_append {build : Build} {before after : List Token} :
    run? build (before ++ after) = (run? build before).bind fun next => run? next after := by
  induction before generalizing build with
  | nil => rfl
  | cons token rest ih =>
    rw [List.cons_append, run?, run?]
    cases step? build token with
    | none => rfl
    | some next => exact ih

/-- Where an array has just been opened, a value is read like anywhere else. -/
theorem run?_item {frames : List Frame} (value : Json) {rest : List Token} :
    run? ⟨frames, .item⟩ (value.tokens ++ rest) = run? ⟨frames, .value⟩ (value.tokens ++ rest) := by
  have same {token : Token} (opens : token ≠ .closeArray) :
      step? ⟨frames, .item⟩ token = step? ⟨frames, .value⟩ token := by
    simp only [step?]
    split
    · exact absurd rfl opens
    · rfl
  cases value <;> simp only [tokens, List.cons_append, run?] <;> rw [same Token.noConfusion]

mutual
/-- The tokens of a value build that value. -/
theorem run?_tokens : ∀ (value : Json) (frames : List Frame),
    run? ⟨frames, .value⟩ value.tokens = some ⟨frames, .behind value⟩
  | .null, _ | .bool _, _ | .number _, _ | .string _, _ => by
    simp only [tokens]
    rfl
  | .array items, frames => by
    have opened : step? ⟨frames, .value⟩ .openArray = some ⟨.array [] :: frames, .item⟩ := rfl
    rw [tokens, List.cons_append, run?, opened, Option.bind_some]
    have later := run?_itemsTokens items frames []
    match items with
    | [] => rfl
    | [item] =>
      rw [itemsTokens] at later ⊢
      rw [run?_item]
      exact later (List.cons_ne_nil _ _)
    | item :: next :: rest =>
      rw [itemsTokens_cons, List.append_assoc] at later ⊢
      rw [run?_item]
      exact later (List.cons_ne_nil _ _)
  | .object members, frames => by
    have later := run?_membersTokens members frames []
    rw [tokens]
    match members with
    | [] => rfl
    | [member] =>
      rw [membersTokens] at later ⊢
      exact later (List.cons_ne_nil _ _)
    | member :: next :: rest =>
      rw [membersTokens_cons] at later ⊢
      exact later (List.cons_ne_nil _ _)

theorem run?_itemsTokens : ∀ (items : List Json) (frames : List Frame) (done : List Json), items ≠ [] →
    run? ⟨.array done :: frames, .value⟩ (itemsTokens items ++ [.closeArray]) =
      some ⟨frames, .behind (.array (done.reverse ++ items))⟩
  | [], _, _, filled => absurd rfl filled
  | [item], frames, done, _ => by
    rw [itemsTokens, run?_append, run?_tokens item, Option.bind_some]
    simp [run?, step?, behind?]
  | item :: next :: rest, frames, done, _ => by
    have mark : step? ⟨.array done :: frames, .behind item⟩ .comma =
        some ⟨.array (item :: done) :: frames, .value⟩ := rfl
    have later := run?_itemsTokens (next :: rest) frames (item :: done) (List.cons_ne_nil _ _)
    rw [itemsTokens_cons, List.append_assoc, run?_append, run?_tokens item, Option.bind_some, List.cons_append, run?,
      mark, Option.bind_some, later]
    simp

theorem run?_membersTokens : ∀ (members : List (Text × Json)) (frames : List Frame) (done : List (Text × Json)),
    members ≠ [] → run? ⟨frames, .key done⟩ (membersTokens members ++ [.closeObject]) =
      some ⟨frames, .behind (.object (done.reverse ++ members))⟩
  | [], _, _, filled => absurd rfl filled
  | [(key, value)], frames, done, _ => by
    have name : run? ⟨frames, .key done⟩ [.string key, .colon] = some ⟨.object done key :: frames, .value⟩ := rfl
    rw [membersTokens, show Token.string key :: .colon :: tokens value = [.string key, .colon] ++ tokens value from rfl,
      run?_append, run?_append, name, Option.bind_some, run?_tokens value, Option.bind_some]
    simp [run?, step?, behind?]
  | (key, value) :: next :: rest, frames, done, _ => by
    have name : run? ⟨frames, .key done⟩ [.string key, .colon] = some ⟨.object done key :: frames, .value⟩ := rfl
    have mark : step? ⟨.object done key :: frames, .behind value⟩ .comma = some ⟨frames, .key ((key, value) :: done)⟩ :=
      rfl
    have later := run?_membersTokens (next :: rest) frames ((key, value) :: done) (List.cons_ne_nil _ _)
    rw [membersTokens_cons,
      show Token.string key :: .colon :: tokens value = [.string key, .colon] ++ tokens value from rfl,
      List.append_assoc, run?_append, run?_append, name, Option.bind_some, run?_tokens value, Option.bind_some,
      List.cons_append, run?, mark, Option.bind_some, later]
    simp
end

theorem ofTokens?_tokens (value : Json) : ofTokens? value.tokens = some value := by
  rw [ofTokens?, run?_tokens]

/-- A printed value reads back as itself. -/
theorem parse?_render (value : Json) : parse? value.render = some value := by
  rw [parse?, render, String.toList_ofList, scan?_text, Option.bind_some, ofTokens?_tokens]

end ArrayLift.Json
