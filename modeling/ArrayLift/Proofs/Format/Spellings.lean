import ArrayLift.Proofs.Format.Decoders
import ArrayLift.Proofs.Format.Distinct
import ArrayLift.Proofs.Format.Printing
import ArrayLift.Proofs.Format.Changes

/-! The texts of a program: decoding depends on the tree that a text spells, not on how the text spells it. -/
namespace ArrayLift

theorem Respells.ne_null {schema : Schema} {value value' : Json} (respelled : Respells schema value value') :
    value ≠ .null ∧ value' ≠ .null := by
  cases respelled <;> exact ⟨Json.noConfusion, Json.noConfusion⟩

theorem Overfills.ne_null {schema : Schema} {value value' : Json} (overfilled : Overfills schema value value') :
    value ≠ .null ∧ value' ≠ .null := by
  cases overfilled <;> exact ⟨Json.noConfusion, Json.noConfusion⟩

namespace Program

/-- A value holds a program exactly if it spells the program and is not too deep. -/
theorem ofJson?_eq_some_iff {value : Json} {program : Program} :
    ofJson? value = some program ↔
      (Schema.record .program).denoted? value = some program.datum ∧
        (Schema.record .program).depth value ≤ Json.depthLimit := by
  rw [← Schema.read_eq_some_iff, read_datum, Option.map_eq_some_iff, ofJson?]
  constructor
  · intro decoded
    exact ⟨program, decoded, rfl⟩
  · rintro ⟨other, decoded, same⟩
    rwa [datum_inj same] at decoded

/-- Another text after any count of changes: blanks between tokens are put in or taken away, or a record or an
alternative anywhere in the tree is spelled in another way. -/
inductive Respelled (text : String) : String → Prop where
  | refl : Respelled text text
  | blanks {earlier text' : String} (respelled : Respelled text earlier) (changed : Json.Respaced earlier text') :
      Respelled text text'
  | tree {earlier text' : String} {value value' : Json} (respelled : Respelled text earlier)
      (parsed : Json.parse? earlier = some value) (parsed' : Json.parse? text' = some value')
      (changed : ChangedIn Respells (.record .program) value value') : Respelled text text'

/-- Another text with a second copy of a known field, or with a second key beside the name of an alternative, anywhere
in the tree. -/
def Overfilled (text text' : String) : Prop :=
  ∃ value value', Json.parse? text = some value ∧ Json.parse? text' = some value' ∧
    ChangedIn Overfills (.record .program) value value'

/-- However a text is respelled, it spells the same program. -/
theorem Respelled.denoted? {text text' : String} {datum : Datum} (respelled : Respelled text text')
    (spelled : ∃ value, Json.parse? text = some value ∧ (Schema.record .program).denoted? value = some datum) :
    ∃ value, Json.parse? text' = some value ∧ (Schema.record .program).denoted? value = some datum := by
  induction respelled with
  | refl => exact spelled
  | blanks _ changed ih =>
    obtain ⟨value, parsed, own⟩ := ih
    exact ⟨value, Json.parse?_respaced changed parsed, own⟩
  | @tree earlier text' value value' _ parsed parsed' changed ih =>
    obtain ⟨other, parsed'', own⟩ := ih
    cases parsed.symm.trans parsed''
    exact ⟨value', parsed', changed.denoted?_mono Respells.ne_null Schema.denoted?_respelled datum own⟩

/-- A printed value holds the same program as its text. -/
theorem parse?_render (value : Json) : parse? value.render = ofJson? value := by
  rw [parse?, Json.parse?_render, Option.bind_some]

/-- A text that is respelled from the text of a program is decoded to the same program, exactly if what is part of the
tree is not too deep. An overfilled text is rejected. -/
theorem parse?_respelled {text : String} {program : Program} (parsed : parse? text = some program) :
    (∀ text', Respelled text text' → ∃ value, Json.parse? text' = some value ∧
      (parse? text' = some program ↔ (Schema.record .program).depth value ≤ Json.depthLimit)) ∧
    ∀ text', Overfilled text text' → parse? text' = none := by
  obtain ⟨value, spelled, decoded⟩ := Option.bind_eq_some_iff.mp parsed
  refine ⟨fun text' respelled => ?_, fun text' overfilled => ?_⟩
  · obtain ⟨value', parsed', own⟩ := respelled.denoted? ⟨value, spelled, (ofJson?_eq_some_iff.mp decoded).1⟩
    refine ⟨value', parsed', ?_⟩
    rw [parse?, parsed', Option.bind_some, ofJson?_eq_some_iff, and_iff_right own]
  · obtain ⟨value, value', -, parsed', changed⟩ := overfilled
    rw [parse?, parsed', Option.bind_some]
    refine Option.eq_none_iff_forall_ne_some.mpr fun program decoded => ?_
    have nothing := ChangedIn.denoted?_eq_none Overfills.ne_null Schema.denoted?_overfilled changed
    cases nothing.symm.trans (ofJson?_eq_some_iff.mp decoded).1

/-- The encoding of a program with one statement, whose kind is given. -/
def ofKind (kind : Json) : Json :=
  .ofFields [("statements", .array [.ofFields [("line", .ofNat 1), ("kind", kind)]])]

/-- A blank before the text and a null beside the name of a statement change nothing; a second list of statements is
refused. -/
theorem parse?_respelled_pass :
    parse? (ofKind (.ofText "pass")).render = some ⟨[.word 1 .pass]⟩ ∧
      parse? (String.ofList (' ' :: (ofKind (.ofAlternative "pass" .null)).text)) = some ⟨[.word 1 .pass]⟩ ∧
      parse? (Json.ofFields [("statements", .array []),
        ("statements", .array [.ofFields [("line", .ofNat 1), ("kind", .ofText "pass")]])]).render = none := by
  have parsed : parse? (ofKind (.ofText "pass")).render = some ⟨[.word 1 .pass]⟩ := by
    rw [parse?_render]
    rfl
  obtain ⟨respelled, overfilled⟩ := parse?_respelled parsed
  have kind : ChangedIn Respells (.choice .stmtKind) (.ofText "pass") (.ofAlternative "pass" .null) :=
    .here (.opened rfl)
  have statement := @ChangedIn.field Respells .stmt ⟨"kind", .choice .stmtKind, .required⟩ _ _
    [(some "line", .ofNat 1)] [] (List.mem_cons_self ..) kind
  have opened : ChangedIn Respells (.record .program) (ofKind (.ofText "pass"))
      (ofKind (.ofAlternative "pass" .null)) :=
    @ChangedIn.field Respells .program ⟨"statements", .stmts, .required⟩ _ _ [] [] (List.mem_singleton_self _)
      (.item [] [] statement)
  have respaced : Json.Respaced (ofKind (.ofAlternative "pass" .null)).render
      (String.ofList (' ' :: (ofKind (.ofAlternative "pass" .null)).text)) := by
    have scanned := Json.scan?_text (ofKind (.ofAlternative "pass" .null))
    refine ⟨[], [], [' '], _, [], _, ?_, ?_, List.forall_mem_nil _, List.forall_mem_singleton.mpr rfl, rfl,
      scanned, ?_⟩
    · rw [Json.render, String.toList_ofList]
      rfl
    · rw [String.toList_ofList]
      rfl
    · rw [Json.render, String.toList_ofList]
      exact scanned
  refine ⟨parsed, ?_, overfilled _ ⟨_, _, Json.parse?_render _, Json.parse?_render _, ?_⟩⟩
  · obtain ⟨value, spelled, same⟩ := respelled _
      (.blanks (.tree .refl (Json.parse?_render _) (Json.parse?_render _) opened) respaced)
    cases (Json.parse?_respaced respaced (Json.parse?_render _)).symm.trans spelled
    exact same.mpr (by decide)
  · exact .here (@Overfills.copied .program ⟨"statements", .stmts, .required⟩ (List.mem_singleton_self _) (.array []) []
      _ ⟨_, List.mem_cons_self ..⟩)

end Program
end ArrayLift
