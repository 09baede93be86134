import ArrayLift.Code.Expression
import ArrayLift.Proofs.Naming.DefaultWords

/-! How source names become Python names. A reserved name gets a suffix, whatever other names there are, so that it
may meet a name that has the suffix already. -/
namespace ArrayLift

namespace ReservedWords

variable (words : ReservedWords)

/-- The Python name of a source name under a set of reserved words. -/
def mangled (name : String) : String :=
  pythonName name (words.contains name)

/-- One name is reserved; the other one is not, and it is the first one with the suffix. -/
def Meets (name other : String) : Prop :=
  words.contains name = true ∧ words.contains other = false ∧ other = name ++ collisionSuffix

instance (name other : String) : Decidable (words.Meets name other) :=
  inferInstanceAs (Decidable (_ ∧ _ ∧ _))

theorem suffixed_inj {one other : String} (same : one ++ collisionSuffix = other ++ collisionSuffix) : one = other := by
  have lists := congrArg String.toList same
  simp only [String.toList_append, List.append_left_inj] at lists
  exact String.toList_injective lists

variable {words}

theorem mangled_reserved {name : String} (reserved : words.contains name = true) :
    words.mangled name = name ++ collisionSuffix := by
  simp only [mangled, pythonName, reserved, if_true]

theorem mangled_free {name : String} (free : words.contains name = false) : words.mangled name = name := by
  simp only [mangled, pythonName, free, Bool.false_eq_true, if_false]

/-- Two names become one exactly if one of them meets the other. -/
theorem mangled_eq_iff {one other : String} (different : one ≠ other) :
    words.mangled one = words.mangled other ↔ words.Meets one other ∨ words.Meets other one := by
  cases reserved : words.contains one <;> cases otherReserved : words.contains other
  · simp [mangled_free reserved, mangled_free otherReserved, Meets, reserved, otherReserved, different]
  · simp [mangled_free reserved, mangled_reserved otherReserved, Meets, reserved, otherReserved]
  · simp [mangled_reserved reserved, mangled_free otherReserved, Meets, reserved, otherReserved, eq_comm]
  · have apart : one ++ collisionSuffix ≠ other ++ collisionSuffix := fun same => different (suffixed_inj same)
    simp [mangled_reserved reserved, mangled_reserved otherReserved, Meets, reserved, otherReserved, apart]

/-- A Python name is reserved exactly if its source name is, with the suffix and without. -/
theorem contains_mangled_iff (name : String) :
    words.contains (words.mangled name) = true ↔
      words.contains name = true ∧ words.contains (name ++ collisionSuffix) = true := by
  cases reserved : words.contains name
  · simp [mangled_free reserved, reserved]
  · simp [mangled_reserved reserved]

/-- No word that is reserved by default ends in the suffix, so that no Python name is one of them. -/
theorem contains_mangled_standard (name : String) : standard.contains (standard.mangled name) = false := by
  have unlisted : name ++ collisionSuffix ∉ defaultWords := suffixed_not_mem (by simp [defaultWords]) name
  refine Bool.eq_false_iff.mpr fun contained => ?_
  have suffixed := ((contains_mangled_iff name).mp contained).2
  rw [contains_standard, decide_eq_true_eq] at suffixed
  exact unlisted suffixed

end ReservedWords

namespace Code

/-- An identifier without a default value that is flagged as the reserved words demand. -/
structure Flagged (words : ReservedWords) (ident : Ident) : Prop where
  bare : ident.init = none
  flag : ident.reserved = words.contains ident.name

theorem Flagged.identText {words : ReservedWords} {ident : Ident} (flagged : Flagged words ident) :
    identText words ident = .ok (words.mangled ident.name) := by
  obtain ⟨name, init, role, reserved, id⟩ := ident
  obtain ⟨rfl : init = none, rfl : reserved = words.contains name⟩ := flagged
  simp only [Code.identText, Bool.or_self]
  rfl

/-- Two identifiers of different names are rendered alike exactly if one of the names is reserved and the other one
is not and is the first with the suffix. What is rendered is reserved exactly if the name is both with the suffix
and without; with the words that are reserved by default it never is. -/
theorem identText_alike_iff {words : ReservedWords} {one other : Ident} (oneFlagged : Flagged words one)
    (otherFlagged : Flagged words other) (different : one.name ≠ other.name) :
    ∃ left right, identText words one = .ok left ∧ identText words other = .ok right ∧
      (left = right ↔ words.Meets one.name other.name ∨ words.Meets other.name one.name) ∧
      (words.contains left = true ↔ words.contains one.name = true ∧
        words.contains (one.name ++ ReservedWords.collisionSuffix) = true) ∧
      (words = .standard → words.contains left = false ∧ words.contains right = false) := by
  refine ⟨_, _, oneFlagged.identText, otherFlagged.identText, ReservedWords.mangled_eq_iff different,
    ReservedWords.contains_mangled_iff _, fun same => ?_⟩
  rw [same]
  exact ⟨ReservedWords.contains_mangled_standard _, ReservedWords.contains_mangled_standard _⟩

/-- A reserved name, flagged. -/
def reservedLen : Ident :=
  .mk "len" none .unknown true none

/-- The name and the same name with the suffix are rendered alike, and if both are reserved, what is rendered is. -/
theorem reservedLen_meets :
    (Flagged .standard reservedLen ∧ Flagged .standard (.named "len_") ∧ reservedLen.name ≠ "len_" ∧
        identText .standard reservedLen = identText .standard (.named "len_")) ∧
      Flagged (.extend .empty ["len", "len_"]) reservedLen ∧
      ∃ text, identText (.extend .empty ["len", "len_"]) reservedLen = .ok text ∧
        ReservedWords.contains (.extend .empty ["len", "len_"]) text = true := by
  have reserved : ReservedWords.standard.contains "len" = true := by
    simp [ReservedWords.contains_standard, ReservedWords.defaultWords]
  have free : ReservedWords.standard.contains "len_" = false := by
    simp [ReservedWords.contains_standard, ReservedWords.defaultWords]
  have standard : Flagged .standard reservedLen := ⟨rfl, reserved.symm⟩
  have suffixed : Flagged .standard (.named "len_") := ⟨rfl, free.symm⟩
  refine ⟨⟨standard, suffixed, by decide, ?_⟩, ?_⟩
  · have alike : ReservedWords.standard.mangled "len" = ReservedWords.standard.mangled "len_" := by
      rw [ReservedWords.mangled_reserved reserved, ReservedWords.mangled_free free]
      rfl
    rw [standard.identText, suffixed.identText]
    exact congrArg Except.ok alike
  · have both : Flagged (ReservedWords.empty.extend ["len", "len_"]) reservedLen := ⟨rfl, by decide⟩
    exact ⟨both, _, both.identText, by decide⟩

/-- Names that are not reserved keep apart. -/
theorem identText_alike_iff_free :
    ∃ left right, identText .standard (.named "a") = .ok left ∧ identText .standard (.named "b") = .ok right ∧
      left ≠ right := by
  have oneFree : ReservedWords.standard.contains "a" = false := by
    simp [ReservedWords.contains_standard, ReservedWords.defaultWords]
  have otherFree : ReservedWords.standard.contains "b" = false := by
    simp [ReservedWords.contains_standard, ReservedWords.defaultWords]
  have one : Flagged .standard (.named "a") := ⟨rfl, oneFree.symm⟩
  have other : Flagged .standard (.named "b") := ⟨rfl, otherFree.symm⟩
  obtain ⟨left, right, leftText, rightText, alike, _⟩ := identText_alike_iff one other (by decide)
  refine ⟨left, right, leftText, rightText, fun same => ?_⟩
  have apart : ¬(ReservedWords.standard.Meets "a" "b" ∨ ReservedWords.standard.Meets "b" "a") := by
    simp [ReservedWords.Meets, oneFree, otherFree]
  exact apart (alike.mp same)

end Code
end ArrayLift
