import ArrayLift.Proofs.Grouping.Grammar

/-! A reader that goes through the tokens once and keeps what is open on a stack. It gives every expression of the
grammar back, so that the grammar takes no two expressions for the same tokens. -/
namespace ArrayLift.Python

/-- What is open where an expression is read. -/
inductive Frame where
  | opening
  | sign
  /-- An operator behind its left operand. -/
  | awaiting (left : Phrase) (operator : String) (level : Level)

namespace Frame

/-- How tight a frame holds what follows it; parentheses hold until they are closed. -/
def rank : Frame → Nat
  | opening => 0
  | sign => Level.sign.rank
  | awaiting _ _ level => level.rank

def close (phrase : Phrase) : Frame → Phrase
  | opening => phrase
  | sign => .minus phrase
  | awaiting left operator _ => .between operator left phrase

/-- Does the frame end before an operator? Nothing ends before a power, and no parenthesis before any operator. -/
def endsBefore (level : Level) (frame : Frame) : Bool :=
  level ≠ .power && level.rank ≤ frame.rank

/-- Does the frame end where a parenthesis is closed? -/
def endsInside (frame : Frame) : Bool :=
  0 < frame.rank

end Frame

/-- Close frames, the innermost first. -/
def closeAll (frames : List Frame) (phrase : Phrase) : Phrase :=
  frames.foldl Frame.close phrase

/-- Close the frames that end here. -/
def settle (ends : Frame → Bool) : List Frame → Phrase → List Frame × Phrase
  | [], phrase => ([], phrase)
  | frame :: rest, phrase => if ends frame then settle ends rest (frame.close phrase) else (frame :: rest, phrase)

inductive State where
  /-- An operand has to follow. -/
  | before (frames : List Frame)
  /-- An operand has been read. -/
  | behind (frames : List Frame) (operand : Phrase)

def State.advance : State → String → Option State
  | before frames, token =>
    if token = "-" then some (.before (.sign :: frames))
    else if token = "(" then some (.before (.opening :: frames))
    else some (.behind frames (.atom token))
  | behind frames operand, token =>
    if token = ")" then
      match settle Frame.endsInside frames operand with
      | (.opening :: rest, inner) => some (.behind rest (.group inner))
      | _ => none
    else (operatorLevel? token).map fun level =>
      let (rest, left) := settle (Frame.endsBefore level) frames operand
      .before (.awaiting left token level :: rest)

/-- The expression that is left when nothing is open. -/
def State.finish : State → Option Phrase
  | before _ => none
  | behind frames operand =>
    match settle Frame.endsInside frames operand with
    | ([], whole) => some whole
    | _ => none

def parse (tokens : List String) : Option Phrase :=
  (tokens.foldlM State.advance (.before [])).bind State.finish

example : (parse (lexemes "-a ** b * c")).map Phrase.tree =
    some (.binary "*" (.negated (.binary "**" (.leaf "a") (.leaf "b"))) (.leaf "c")) := by decide

theorem settle_append {ends : Frame → Bool} {opened frames : List Frame} (all : ∀ frame ∈ opened, ends frame = true)
    (stays : ∀ frame ∈ frames.head?, ends frame = false) (phrase : Phrase) :
    settle ends (opened ++ frames) phrase = (frames, closeAll opened phrase) := by
  induction opened generalizing phrase with
  | nil =>
    cases frames with
    | nil => rfl
    | cons frame rest => simp [settle, closeAll, stays frame rfl]
  | cons frame rest ih =>
    obtain ⟨first, others⟩ := List.forall_mem_cons.mp all
    rw [List.cons_append, settle, if_pos first, ih others]
    rfl

theorem closeAll_append (opened : List Frame) (frame : Frame) (phrase : Phrase) :
    closeAll (opened ++ [frame]) phrase = frame.close (closeAll opened phrase) := by
  simp [closeAll]

/-- Operators hold looser than signs, except for powers. -/
theorem rank_operator {operator : String} {level : Level} (known : operatorLevel? operator = some level) :
    level = .power ∨ level.rank < Level.sign.rank := by
  have each : ∀ entry ∈ operators, entry.2 = .power ∨ entry.2.rank < Level.sign.rank := by decide
  exact each _ (mem_operators known)

theorem Level.rank_pos (level : Level) : 0 < level.rank := by
  cases level <;> decide

theorem Phrase.level_between {operator : String} {level : Level} (known : operatorLevel? operator = some level)
    (left right : Phrase) : (Phrase.between operator left right).level = level := by
  simp only [Phrase.level, known, Option.getD_some]

/-- No operator of an expression of this level ends the innermost frame: there is none but powers, or they hold
tighter. -/
def Admits (frames : List Frame) (level : Level) : Prop :=
  Level.sign.rank ≤ level.rank ∨ ∀ frame ∈ frames.head?, frame.rank < level.rank

/-- What the tokens of an expression leave open, with the operand read last. -/
structure Leaves (phrase : Phrase) (opened : List Frame) (last : Phrase) : Prop where
  whole : closeAll opened last = phrase
  held : ∀ frame ∈ opened, phrase.level.rank ≤ frame.rank ∨ Level.sign.rank ≤ frame.rank
  shut : phrase.level = .atom → opened = []

theorem Leaves.endsInside {phrase last : Phrase} {opened : List Frame} (leaves : Leaves phrase opened last) :
    ∀ frame ∈ opened, frame.endsInside = true := by
  intro frame member
  have positive := phrase.level.rank_pos
  have sign := Level.sign.rank_pos
  have held := leaves.held frame member
  simp only [Frame.endsInside, decide_eq_true_eq]
  omega

theorem Leaves.self {phrase : Phrase} : Leaves phrase [] phrase :=
  ⟨rfl, List.forall_mem_nil _, fun _ => rfl⟩

theorem Level.eq_atom {level : Level} (tight : Level.atom.rank ≤ level.rank) : level = .atom := by
  cases level <;> first | rfl | exact absurd tight (by decide)

/-- An operator ends what its left operand has left open, and nothing else. -/
theorem advance_operator {operator : String} {level : Level} (known : operatorLevel? operator = some level)
    {left last : Phrase} {opened frames : List Frame} (leaves : Leaves left opened last)
    (fits : if level = .power then Level.atom.rank ≤ left.level.rank else level.rank ≤ left.level.rank)
    (admits : Admits frames level) :
    State.advance (.behind (opened ++ frames) last) operator = some (.before (.awaiting left operator level :: frames)) := by
  have unclosed : operator ≠ ")" := by
    rintro rfl
    have missing : operatorLevel? ")" = none := by decide
    rw [missing] at known
    cases known
  have settled : settle (Frame.endsBefore level) (opened ++ frames) last = (frames, left) := by
    split at fits
    case isTrue power =>
      have none : opened = [] := leaves.shut (Level.eq_atom fits)
      rw [settle_append (by simp [none]) (by simp [Frame.endsBefore, power]), leaves.whole]
    case isFalse other =>
      have loose := (rank_operator known).resolve_left other
      rw [settle_append ?_ ?_, leaves.whole]
      · intro frame member
        have held := leaves.held frame member
        simp only [Frame.endsBefore, Bool.and_eq_true, decide_eq_true_eq]
        exact ⟨other, by omega⟩
      · intro frame head
        have held := admits.resolve_left (Nat.not_le.mpr loose) frame head
        simp only [Frame.endsBefore, Bool.and_eq_false_iff, decide_eq_false_iff_not]
        exact .inr (Nat.not_le.mpr held)
  simp only [State.advance, if_neg unclosed, known, settled, Option.map_some]

theorem Phrase.advance_tokens {phrase : Phrase} (proper : phrase.Proper) {frames : List Frame}
    (admits : Admits frames phrase.level) :
    ∃ opened last, phrase.tokens.foldlM State.advance (.before frames) = some (.behind (opened ++ frames) last) ∧
      Leaves phrase opened last := by
  induction phrase generalizing frames with
  | atom text =>
    have operand : isOperand text = true := proper
    have unsigned : text ≠ "-" := by
      rintro rfl
      exact absurd operand (by decide)
    have unopened : text ≠ "(" := by
      rintro rfl
      exact absurd operand (by decide)
    exact ⟨[], .atom text, by simp [Phrase.tokens, State.advance, unsigned, unopened], .self⟩
  | group inner ih =>
    have admits : Admits (.opening :: frames) inner.level := .inr (by simpa [Frame.rank] using inner.level.rank_pos)
    obtain ⟨opened, last, read, leaves⟩ := ih proper admits
    have closed : settle Frame.endsInside (opened ++ .opening :: frames) last = (.opening :: frames, inner) := by
      rw [settle_append leaves.endsInside (by simp [Frame.endsInside, Frame.rank]), leaves.whole]
    refine ⟨[], .group inner, ?_, .self⟩
    simp [Phrase.tokens, read, State.advance, closed]
  | minus operand ih =>
    have admits : Admits (.sign :: frames) operand.level := .inl proper.1
    obtain ⟨opened, last, read, leaves⟩ := ih proper.2 admits
    refine ⟨opened ++ [.sign], last, ?_, ?_, ?_, by simp [Phrase.level]⟩
    · simp [Phrase.tokens, read, State.advance]
    · rw [closeAll_append, leaves.whole]
      rfl
    · intro frame member
      obtain member | member := List.mem_append.mp member
      · have held := leaves.held frame member
        have tight := proper.1
        exact .inr (by omega)
      · obtain rfl := List.mem_singleton.mp member
        exact .inr (Nat.le_refl _)
  | between operator left right ihLeft ihRight =>
    obtain ⟨inLeft, inRight, level, known, fits⟩ := proper
    have own : (Phrase.between operator left right).level = level := Phrase.level_between known left right
    have signPower : Level.sign.rank < Level.power.rank := by decide
    have signAtom : Level.sign.rank < Level.atom.rank := by decide
    have loose := rank_operator known
    rw [own] at admits
    have fitsLeft : if level = .power then Level.atom.rank ≤ left.level.rank else level.rank ≤ left.level.rank := by
      split at fits <;> simp [*, fits.1]
    have fitsRight : level.rank < right.level.rank ∨ Level.sign.rank ≤ right.level.rank := by
      split at fits
      · exact .inr fits.2
      · exact .inl fits.2
    have admitsLeft : Admits frames left.level := by
      split at fitsLeft
      · exact .inl (by omega)
      · refine admits.imp (fun tight => by omega) fun above frame head => ?_
        exact Nat.lt_of_lt_of_le (above frame head) fitsLeft
    have admitsRight : Admits (.awaiting left operator level :: frames) right.level :=
      fitsRight.symm.imp_right fun tighter => by simpa [Frame.rank] using tighter
    obtain ⟨opened, last, read, leaves⟩ := ihLeft inLeft admitsLeft
    obtain ⟨later, final, readRight, leavesRight⟩ := ihRight inRight admitsRight
    refine ⟨later ++ [.awaiting left operator level], final, ?_, ?_, ?_, ?_⟩
    · simp [Phrase.tokens, read, advance_operator known leaves fitsLeft admits, readRight]
    · rw [closeAll_append, leavesRight.whole]
      rfl
    · rw [own]
      intro frame member
      obtain member | member := List.mem_append.mp member
      · have held := leavesRight.held frame member
        omega
      · obtain rfl := List.mem_singleton.mp member
        exact .inl (Nat.le_refl _)
    · rw [own]
      rintro rfl
      exact absurd loose (by decide)

/-- Every expression of the grammar is read from its tokens. -/
theorem parse_tokens {phrase : Phrase} (proper : phrase.Proper) : parse phrase.tokens = some phrase := by
  have admits : Admits [] phrase.level := .inr (by simp)
  obtain ⟨opened, last, read, leaves⟩ := Phrase.advance_tokens proper admits
  have settled : settle Frame.endsInside (opened ++ []) last = ([], phrase) := by
    rw [settle_append leaves.endsInside (by simp), leaves.whole]
  simp only [parse, read, Option.bind_some, State.finish, settled]

/-- No two expressions have the same tokens. -/
theorem Phrase.eq_of_tokens {one other : Phrase} (oneProper : one.Proper) (otherProper : other.Proper)
    (same : one.tokens = other.tokens) : one = other :=
  Option.some.inj ((parse_tokens oneProper).symm.trans (same ▸ parse_tokens otherProper))

/-- A text means one tree. -/
theorem Reads.unique {text : String} {one other : Tree} (first : Reads text one) (second : Reads text other) :
    one = other := by
  obtain ⟨phrase, proper, tokens, rfl⟩ := first
  obtain ⟨second, again, same, rfl⟩ := second
  rw [Phrase.eq_of_tokens proper again (tokens.trans same.symm)]

end ArrayLift.Python
