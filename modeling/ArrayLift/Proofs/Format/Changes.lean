import ArrayLift.Proofs.Format.Respelling

/-! Changes at any place of a tree: what holds of the spelling of one record or alternative holds wherever it stands. -/
namespace ArrayLift

/-- A change at one place of a value that is part of a tree. -/
inductive ChangedIn (change : Schema → Json → Json → Prop) : Schema → Json → Json → Prop where
  | here {schema : Schema} {value value' : Json} (changed : change schema value value') :
      ChangedIn change schema value value'
  | item {items : Schema} {value value' : Json} (before after : List Json)
      (inside : ChangedIn change items value value') :
      ChangedIn change (.list items) (.array (before ++ value :: after)) (.array (before ++ value' :: after))
  | place {kind : RecordKind} {field : Field} {value value' : Json} (before after : List Json)
      (declared : kind.fields[before.length]? = some field) (inside : ChangedIn change field.schema value value') :
      ChangedIn change (.record kind) (.array (before ++ value :: after)) (.array (before ++ value' :: after))
  | field {kind : RecordKind} {field : Field} {value value' : Json} (before after : List (Json.Text × Json))
      (declared : field ∈ kind.fields) (inside : ChangedIn change field.schema value value') :
      ChangedIn change (.record kind) (.object (before ++ (some field.name, value) :: after))
        (.object (before ++ (some field.name, value') :: after))
  | content {kind : ChoiceKind} {name : String} {schema : Schema} {value value' : Json}
      (beside : kind.schemaOf? (some name) = some schema) (inside : ChangedIn change schema value value') :
      ChangedIn change (.choice kind) (.object [(some name, value)]) (.object [(some name, value')])

namespace ChangedIn

variable {change : Schema → Json → Json → Prop} {schema : Schema} {value value' : Json} {datum : Datum}

/-- Only values that are not null are changed, and into such. -/
theorem ne_null (present : ∀ {schema value value'}, change schema value value' → value ≠ .null ∧ value' ≠ .null)
    (inside : ChangedIn change schema value value') : value ≠ .null ∧ value' ≠ .null := by
  cases inside with
  | here changed => exact present changed
  | _ => exact ⟨Json.noConfusion, Json.noConfusion⟩

end ChangedIn

section Replacement

variable {readAs : Schema → Json → Option Datum} {value value' : Json}

/-- With one item replaced, a lookup by place changes at that place only. -/
theorem Json.lookup_zip_replaced {name : String} : ∀ {names : List String} {before after : List Json}, names.Nodup →
    names[before.length]? = some name → ∀ key, (names.zip (before ++ value :: after)).lookup key =
      if key = name then some value else (names.zip (before ++ value' :: after)).lookup key
  | first :: names, [], after, _, placed, key => by
    obtain rfl : first = name := by simpa using placed
    by_cases same : key = first
    · simp [same]
    · simp [List.lookup_cons, same, beq_eq_false_iff_ne.mpr same]
  | first :: names, item :: before, after, distinct, placed, key => by
    obtain ⟨fresh, distinct⟩ := List.nodup_cons.mp distinct
    have placed : names[before.length]? = some name := by simpa using placed
    have later := @Json.lookup_zip_replaced name names before after distinct placed key
    simp only [List.cons_append, List.zip_cons_cons, List.lookup_cons]
    by_cases same : key = first
    · subst same
      have other : key ≠ name := fun equal => fresh (equal ▸ List.mem_of_getElem? placed)
      simp [other]
    · simpa [beq_eq_false_iff_ne.mpr same] using later
  | [], before, _, _, placed, _ => by simp at placed

end Replacement

namespace Schema

variable {items : Schema} {kind : RecordKind} {field : Field} {value value' : Json} {datum : Datum}

theorem denoted?_item (before after : List Json)
    (kept : ∀ datum, denoted? items value = some datum → denoted? items value' = some datum)
    (spelled : denoted? (.list items) (.array (before ++ value :: after)) = some datum) :
    denoted? (.list items) (.array (before ++ value' :: after)) = some datum := by
  rw [denoted?_eq, readIn, Json.items?] at spelled ⊢
  obtain ⟨data, made, rfl⟩ := Option.map_eq_some_iff.mp spelled
  rw [Option.map_eq_some_iff]
  refine ⟨data, ?_, rfl⟩
  clear spelled
  induction before generalizing data with
  | nil =>
    rw [List.nil_append, List.mapM_cons] at made ⊢
    obtain ⟨first, own, rest⟩ := Option.bind_eq_some_iff.mp made
    rw [kept first own]
    exact rest
  | cons item before ih =>
    rw [List.cons_append, List.mapM_cons] at made ⊢
    obtain ⟨first, own, rest⟩ := Option.bind_eq_some_iff.mp made
    obtain ⟨later, others, rest⟩ := Option.bind_eq_some_iff.mp rest
    rw [own, ih later others]
    exact rest

/-- One item of the array of a record is replaced. -/
theorem denoted?_place {before after : List Json} (declared : kind.fields[before.length]? = some field)
    (present : value ≠ .null) (present' : value' ≠ .null)
    (kept : ∀ datum, denoted? field.schema value = some datum → denoted? field.schema value' = some datum)
    (spelled : denoted? (.record kind) (.array (before ++ value :: after)) = some datum) :
    denoted? (.record kind) (.array (before ++ value' :: after)) = some datum := by
  have named : kind.names[before.length]? = some field.name := by simp [RecordKind.names, declared]
  rw [denoted?_eq, readIn, Json.record?] at spelled ⊢
  split at spelled
  · rename_i fits
    rw [if_pos (by simpa using fits)]
    obtain ⟨values, made, rfl⟩ := Option.map_eq_some_iff.mp spelled
    rw [Option.bind_some, Option.map_eq_some_iff]
    refine ⟨values, Field.readAll_mono made fun other known datum read => ?_, rfl⟩
    have own := @Json.lookup_zip_replaced value value' _ _ _ after kind.names_nodup named other.name
    have new := @Json.lookup_zip_replaced value' value _ _ _ after kind.names_nodup named other.name
    by_cases same : other.name = field.name
    · obtain rfl := RecordKind.field_eq_of_name known (List.mem_of_getElem? declared) same
      rw [own, if_pos rfl, Field.read_of_ne_null present] at read
      rw [new, if_pos rfl, Field.read_of_ne_null present']
      exact kept _ read
    · rwa [own, if_neg same] at read
  · cases spelled

/-- One member of a record is replaced. -/
theorem denoted?_field {before after : List (Json.Text × Json)} (declared : field ∈ kind.fields)
    (present : value ≠ .null) (present' : value' ≠ .null)
    (kept : ∀ datum, denoted? field.schema value = some datum → denoted? field.schema value' = some datum)
    (spelled : denoted? (.record kind) (.object (before ++ (some field.name, value) :: after)) = some datum) :
    denoted? (.record kind) (.object (before ++ (some field.name, value') :: after)) = some datum := by
  refine denoted?_object_mono spelled (fun well => ⟨fun member listed => ?_, fun name known => ?_⟩) ?_
  · rcases List.mem_append.mp listed with early | late
    · exact well.1 member (List.mem_append_left _ early)
    · rcases List.mem_cons.mp late with rfl | late
      · rfl
      · exact well.1 member (List.mem_append_right _ (List.mem_cons_of_mem _ late))
  · have once := well.2 name known
    by_cases same : field.name = name
    · subst same
      rw [Json.membersAt_append, Json.membersAt_cons_self] at once ⊢
      simpa using once
    · rw [Json.membersAt_append, Json.membersAt_cons_of_ne same] at once ⊢
      exact once
  · intro well other known datum read
    by_cases same : field.name = other.name
    · obtain rfl := RecordKind.field_eq_of_name declared known same
      have once := well.2 field.name (List.mem_map_of_mem known)
      rw [Json.membersAt_append, Json.membersAt_cons_self, List.length_append, List.length_cons] at once
      have early : Json.membersAt field.name before = [] := List.eq_nil_of_length_eq_zero (by omega)
      rw [Json.membersAt_append, Json.membersAt_cons_self, early, List.nil_append, List.head?_cons] at read ⊢
      rw [Field.read_of_ne_null present] at read
      rw [Field.read_of_ne_null present']
      exact kept _ read
    · rw [Json.membersAt_append, Json.membersAt_cons_of_ne same] at read ⊢
      exact read

/-- What stands beside the name of an alternative is replaced. -/
theorem denoted?_content {kind : ChoiceKind} {name : String} {schema : Schema}
    (beside : kind.schemaOf? (some name) = some schema) (present : value ≠ .null) (present' : value' ≠ .null)
    (kept : ∀ datum, denoted? schema value = some datum → denoted? schema value' = some datum)
    (spelled : denoted? (.choice kind) (.object [(some name, value)]) = some datum) :
    denoted? (.choice kind) (.object [(some name, value')]) = some datum := by
  rw [denoted?_eq, readIn] at spelled ⊢
  obtain ⟨inner, made, rfl⟩ := Option.map_eq_some_iff.mp spelled
  obtain ⟨payload, found, made⟩ := Option.bind_eq_some_iff.mp made
  have beside : payload.schema? = some schema := by simpa [ChoiceKind.schemaOf?, found] using beside
  rw [Payload.read_of_ne_null present beside] at made
  rw [found, Option.bind_some, Payload.read_of_ne_null present' beside, kept _ made, Option.map_some]

end Schema

namespace ChangedIn

variable {change : Schema → Json → Json → Prop} {schema : Schema} {value value' : Json} {datum : Datum}

/-- A change that keeps what single records and alternatives spell keeps what every value spells. -/
theorem denoted?_mono (present : ∀ {schema value value'}, change schema value value' → value ≠ .null ∧ value' ≠ .null)
    (kept : ∀ {schema value value' datum}, change schema value value' → schema.denoted? value = some datum →
      schema.denoted? value' = some datum)
    (inside : ChangedIn change schema value value') : ∀ datum, schema.denoted? value = some datum →
      schema.denoted? value' = some datum := by
  induction inside with
  | here changed => exact fun datum => kept changed
  | item before after inside ih => exact fun datum => Schema.denoted?_item before after ih
  | place before after declared inside ih =>
    have both := inside.ne_null present
    exact fun datum => Schema.denoted?_place declared both.1 both.2 ih
  | field before after declared inside ih =>
    have both := inside.ne_null present
    exact fun datum => Schema.denoted?_field declared both.1 both.2 ih
  | content beside inside ih =>
    have both := inside.ne_null present
    exact fun datum => Schema.denoted?_content beside both.1 both.2 ih

/-- A change that leaves a record or an alternative nothing to spell leaves the whole nothing to spell. -/
theorem denoted?_eq_none
    (present : ∀ {schema value value'}, change schema value value' → value ≠ .null ∧ value' ≠ .null)
    (spoilt : ∀ {schema value value'}, change schema value value' → schema.denoted? value' = none)
    (inside : ChangedIn change schema value value') : schema.denoted? value' = none := by
  have step {outer schema : Schema} {whole value value' : Json} (inside : ChangedIn change schema value value')
      (within : (schema, value') ∈ outer.parts whole) (nothing : schema.denoted? value' = none) :
      outer.denoted? whole = none := by
    refine Option.eq_none_iff_forall_ne_some.mpr fun datum spelled => ?_
    rw [Schema.denoted?_eq] at spelled
    rcases Schema.read_of_part spelled within with null | ⟨datum, own⟩
    · exact (inside.ne_null present).2 null
    · cases nothing.symm.trans own
  induction inside with
  | here changed => exact spoilt changed
  | item before after inside ih =>
    refine step inside ?_ ih
    exact List.mem_map_of_mem (List.mem_append_right _ (List.mem_cons_self ..))
  | @place kind field value value' before after declared inside ih =>
    refine step inside ?_ ih
    refine List.mem_map.mpr ⟨(field, value'), List.mem_iff_getElem?.mpr ⟨before.length, ?_⟩, rfl⟩
    simp [List.getElem?_zip_eq_some, declared]
  | field before after declared inside ih =>
    refine step inside ?_ ih
    refine List.mem_filterMap.mpr ⟨_, List.mem_append_right _ (List.mem_cons_self ..), ?_⟩
    simp [RecordKind.schemaOf?_name declared]
  | content beside inside ih =>
    refine step inside ?_ ih
    exact List.mem_filterMap.mpr ⟨_, List.mem_singleton_self _, by simp [beside]⟩

end ChangedIn
end ArrayLift
