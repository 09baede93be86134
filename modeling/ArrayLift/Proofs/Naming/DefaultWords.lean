import ArrayLift.Vocabulary.ReservedWords

/-! The words that are reserved by default. They are all different, so that the set holds them as they are listed,
and the list tells whether a name is one of them. -/
namespace ArrayLift.ReservedWords

theorem mem_extend {word : String} (list : List String) (words : ReservedWords) :
    word ∈ (words.extend list).words ↔ word ∈ words.words ∨ word ∈ list := by
  induction list generalizing words with
  | nil => simp [extend]
  | cons first rest ih =>
    have step : words.extend (first :: rest) = (words.insert first).extend rest := rfl
    have inserted : word ∈ (words.insert first).words ↔ word ∈ words.words ∨ word = first := by
      unfold insert
      split <;> simp_all [or_comm]
    rw [step, ih, inserted, List.mem_cons, or_assoc]

/-- Words that are new and all different come to stand before the others, the last one first. -/
theorem words_extend {list : List String} {words : ReservedWords} (fresh : (list.reverse ++ words.words).Nodup) :
    (words.extend list).words = list.reverse ++ words.words := by
  induction list generalizing words with
  | nil => rfl
  | cons first rest ih =>
    rw [List.reverse_cons, List.append_assoc, List.singleton_append] at fresh ⊢
    have absent : first ∉ words.words := (List.nodup_cons.mp (List.nodup_append.mp fresh).2.1).1
    have inserted : (words.insert first).words = first :: words.words := by rw [insert, dif_neg absent]
    have step : words.extend (first :: rest) = (words.insert first).extend rest := rfl
    rw [step, ← inserted, ih (inserted.symm ▸ fresh)]

theorem eq_of_words {one other : ReservedWords} (same : one.words = other.words) : one = other := by
  cases one
  cases other
  cases same
  rfl

theorem nodup_defaultWords : defaultWords.reverse.Nodup := by
  simp [defaultWords]

/-- The set holds the listed words and no others, so that it need not be built to be known. -/
theorem standard_eq : standard = ⟨defaultWords.reverse, nodup_defaultWords⟩ := by
  apply eq_of_words
  have fresh : (defaultWords.reverse ++ empty.words).Nodup := by
    rw [empty, List.append_nil]
    exact nodup_defaultWords
  rw [standard, words_extend fresh, empty, List.append_nil]

theorem contains_standard (name : String) : standard.contains name = decide (name ∈ defaultWords) := by
  rw [standard_eq, contains, List.contains_eq_mem]
  exact decide_eq_decide.mpr List.mem_reverse

/-- No name with the suffix is among words that do not end in it. -/
theorem suffixed_not_mem {list : List String} (clear : ∀ word ∈ list, word.toList.getLast? ≠ some '_')
    (name : String) : name ++ collisionSuffix ∉ list :=
  fun listed => clear _ listed (by simp [String.toList_append, collisionSuffix])

end ArrayLift.ReservedWords
