import ArrayLift.Proofs.Format.Schema

/-! Reading within a limit: a value is read exactly if it spells something and its depth is within the limit. -/
namespace ArrayLift

namespace Json

theorem mem_of_mem_membersAt {key : String} {members : List (Text × Json)} {value : Json}
    (listed : value ∈ membersAt key members) : (some key, value) ∈ members := by
  obtain ⟨⟨name, _⟩, inside, rfl⟩ := List.mem_map.mp listed
  obtain ⟨member, same⟩ := List.mem_filter.mp inside
  rw [← eq_of_beq same]
  exact member

/-- A field that a record holds is a member of its object, or stands at the place of the field. -/
theorem mem_of_record? {names : List String} {value content : Json} {contents : String → Option Json} {name : String}
    (opened : value.record? names = some contents) (held : contents name = some content) :
    (∃ members, value = .object members ∧ (some name, content) ∈ members) ∨
      ∃ items, value = .array items ∧ (name, content) ∈ names.zip items := by
  cases value with
  | object members =>
    refine .inl ⟨members, rfl, ?_⟩
    simp only [record?] at opened
    split at opened
    · cases opened
      exact mem_of_mem_membersAt (List.mem_of_mem_head? held)
    · cases opened
  | array items =>
    refine .inr ⟨items, rfl, ?_⟩
    simp only [record?] at opened
    split at opened
    · cases opened
      obtain ⟨before, after, split, -⟩ := List.lookup_eq_some_iff.mp held
      rw [split]
      simp
    · cases opened
  | _ => cases opened

end Json

theorem Field.find?_name {field : Field} : ∀ {fields : List Field}, (fields.map Field.name).Nodup → field ∈ fields →
    fields.find? (fun other => other.name == field.name) = some field
  | first :: rest, distinct, declared => by
    obtain ⟨fresh, distinct⟩ := List.nodup_cons.mp distinct
    rcases List.mem_cons.mp declared with rfl | later
    · simp
    · have other : first.name ≠ field.name := fun same => fresh (same ▸ List.mem_map_of_mem later)
      rw [List.find?_cons_of_neg (by simpa using other), Field.find?_name distinct later]

namespace RecordKind

/-- The fields of a record have different names. -/
theorem field_eq_of_name {kind : RecordKind} {field other : Field} (declared : field ∈ kind.fields)
    (declared' : other ∈ kind.fields) (same : field.name = other.name) : field = other := by
  have found := Field.find?_name kind.names_nodup declared
  rw [same, Field.find?_name kind.names_nodup declared'] at found
  exact (Option.some.inj found).symm

theorem schemaOf?_name {kind : RecordKind} {field : Field} (declared : field ∈ kind.fields) :
    kind.schemaOf? (some field.name) = some field.schema := by
  rw [schemaOf?, Field.find?_name kind.names_nodup declared, Option.map_some]

end RecordKind

namespace Schema

/-- The values inside a value that are part of a tree, with their schemas. -/
def parts : Schema → Json → List (Schema × Json)
  | .list items, .array values => values.map fun value => (items, value)
  | .record kind, .array values => (kind.fields.zip values).map fun (field, value) => (field.schema, value)
  | .record kind, .object members => members.filterMap fun (key, value) => (kind.schemaOf? key).map (·, value)
  | .choice kind, .object members => members.filterMap fun (key, value) => (kind.schemaOf? key).map (·, value)
  | _, _ => []

/-- What stands in a field of a record is a part of it. -/
theorem part_of_record? {kind : RecordKind} {value content : Json} {contents : String → Option Json} {field : Field}
    (declared : field ∈ kind.fields) (opened : value.record? kind.names = some contents)
    (held : contents field.name = some content) : (field.schema, content) ∈ (record kind).parts value := by
  have known := RecordKind.schemaOf?_name declared
  rcases Json.mem_of_record? opened held with ⟨members, rfl, listed⟩ | ⟨items, rfl, listed⟩
  · exact List.mem_filterMap.mpr ⟨_, listed, by simp [known]⟩
  · rw [RecordKind.names, List.zip_map_left] at listed
    obtain ⟨⟨other, content⟩, placed, matched⟩ := List.mem_map.mp listed
    obtain ⟨named, rfl⟩ := Prod.mk.inj matched
    rw [← named, RecordKind.schemaOf?_name (List.of_mem_zip placed).1] at known
    exact List.mem_map.mpr ⟨(other, content), placed, by simpa using known⟩

theorem depth_le_depthItems {items : Schema} {values : List Json} {value : Json} (listed : value ∈ values) :
    depth items value ≤ depthItems items values := by
  induction values with
  | nil => cases listed
  | cons first rest ih =>
    rw [depthItems]
    rcases List.mem_cons.mp listed with rfl | later
    · exact Nat.le_max_left ..
    · exact Nat.le_trans (ih later) (Nat.le_max_right ..)

theorem depth_le_depthPlaces {field : Field} {value : Json} : ∀ {fields : List Field} {values : List Json},
    (field, value) ∈ fields.zip values → depth field.schema value ≤ depthPlaces fields values
  | first :: fields, head :: values, listed => by
    rw [depthPlaces]
    rcases List.mem_cons.mp listed with same | later
    · cases same
      exact Nat.le_max_left ..
    · exact Nat.le_trans (depth_le_depthPlaces later) (Nat.le_max_right ..)

theorem depth_le_depthMembers {schemaOf? : Json.Text → Option Schema} {members : List (Json.Text × Json)}
    {key : Json.Text} {value : Json} {schema : Schema} (listed : (key, value) ∈ members)
    (known : schemaOf? key = some schema) : depth schema value ≤ depthMembers schemaOf? members := by
  induction members with
  | nil => cases listed
  | cons first rest ih =>
    rw [depthMembers]
    rcases List.mem_cons.mp listed with rfl | later
    · rw [known]
      exact Nat.le_max_left ..
    · exact Nat.le_trans (ih later) (Nat.le_max_right ..)

/-- A part is less deep than the whole. -/
theorem depth_lt_of_part {schema : Schema} {value : Json} {part : Schema × Json} (inside : part ∈ schema.parts value) :
    depth part.1 part.2 < schema.depth value := by
  have members {schemaOf? : Json.Text → Option Schema} {members : List (Json.Text × Json)}
      (inside : part ∈ members.filterMap fun (key, value) => (schemaOf? key).map (·, value)) :
      depth part.1 part.2 ≤ depthMembers schemaOf? members := by
    obtain ⟨⟨key, value⟩, listed, found⟩ := List.mem_filterMap.mp inside
    obtain ⟨schema, known, rfl⟩ := Option.map_eq_some_iff.mp found
    exact depth_le_depthMembers listed known
  unfold parts at inside
  split at inside
  · obtain ⟨value, listed, rfl⟩ := List.mem_map.mp inside
    exact Nat.lt_succ_of_le (depth_le_depthItems listed)
  · obtain ⟨⟨field, value⟩, listed, rfl⟩ := List.mem_map.mp inside
    exact Nat.lt_succ_of_le (depth_le_depthPlaces listed)
  · exact Nat.lt_succ_of_le (members inside)
  · exact Nat.lt_succ_of_le (members inside)
  · cases inside

/-- A value is opened, or it is read without going into it. -/
theorem readIn_of_depth_eq_zero {schema : Schema} {value : Json} (flat : schema.depth value = 0)
    (readAs : Schema → Json → Option Datum) : schema.readIn readAs value = schema.readFlat value := by
  unfold readIn
  split
  · cases value <;> first | rfl | cases flat
  · cases value <;> first | rfl | cases flat
  · cases flat
  · rfl

end Schema

section Congruence

variable {readAs readAs' : Schema → Json → Option Datum}

theorem Field.read_congr {field : Field} {content : Option Json}
    (same : ∀ value, content = some value → readAs field.schema value = readAs' field.schema value) :
    field.read readAs content = field.read readAs' content := by
  unfold Field.read
  split
  · rfl
  · split
    · rfl
    · exact same _ rfl
  · exact same _ rfl

theorem Field.readAll_congr {content content' : String → Option Json} : ∀ {fields : List Field},
    (∀ field ∈ fields, field.read readAs (content field.name) = field.read readAs' (content' field.name)) →
      Field.readAll readAs content fields = Field.readAll readAs' content' fields
  | [], _ => rfl
  | field :: rest, same => by
    obtain ⟨first, later⟩ := List.forall_mem_cons.mp same
    rw [Field.readAll, Field.readAll, first, Field.readAll_congr later]

theorem Payload.read_congr {payload : Payload} {value : Json}
    (same : ∀ schema, payload.schema? = some schema → readAs schema value = readAs' schema value) :
    payload.read readAs value = payload.read readAs' value := by
  unfold Payload.read
  split
  · rfl
  · rfl
  · exact same _ rfl
  · rfl
  · exact same _ rfl

theorem Json.items?_congr {α : Type} {decode decode' : Json → Option α} {value : Json}
    (same : ∀ items, value = .array items → ∀ item ∈ items, decode item = decode' item) :
    value.items? decode = value.items? decode' := by
  cases value with
  | array items =>
    have each := same items rfl
    clear same
    rw [items?, items?]
    induction items with
    | nil => rfl
    | cons item rest ih =>
      obtain ⟨first, later⟩ := List.forall_mem_cons.mp each
      rw [List.mapM_cons, List.mapM_cons, first, ih later]
  | _ => rfl

namespace Schema

/-- What is read depends on the parts only. -/
theorem readIn_congr {schema : Schema} {value : Json}
    (same : ∀ part ∈ schema.parts value, readAs part.1 part.2 = readAs' part.1 part.2) :
    schema.readIn readAs value = schema.readIn readAs' value := by
  unfold readIn
  split
  · rw [Json.items?_congr]
    rintro values rfl value listed
    exact same (_, value) (List.mem_map_of_mem listed)
  · rename_i kind
    cases opened : value.record? kind.names with
    | none => rfl
    | some contents =>
      refine congrArg (Option.map Datum.record) (Field.readAll_congr fun field declared => Field.read_congr ?_)
      exact fun content held => same (field.schema, content) (part_of_record? declared opened held)
  · rename_i kind name content
    cases found : kind.payload? name with
    | none => rfl
    | some payload =>
      refine congrArg (Option.map (Datum.choice name)) (Payload.read_congr fun schema beside => ?_)
      refine same (schema, content) (List.mem_filterMap.mpr ⟨_, List.mem_singleton_self _, ?_⟩)
      simp [ChoiceKind.schemaOf?, found, beside]
  · rfl

end Schema
end Congruence

section Reading

variable {readAs : Schema → Json → Option Datum} {value : Json} {datum : Datum}

theorem Json.of_items? {α : Type} {decode : Json → Option α} : ∀ {items : List Json} {values : List α},
    items.mapM decode = some values → ∀ item ∈ items, ∃ value, decode item = some value
  | [], _, _ => List.forall_mem_nil _
  | item :: rest, values, made => by
    rw [List.mapM_cons] at made
    obtain ⟨first, own, made⟩ := Option.bind_eq_some_iff.mp made
    obtain ⟨later, others, -⟩ := Option.bind_eq_some_iff.mp made
    exact List.forall_mem_cons.mpr ⟨⟨first, own⟩, Json.of_items? others⟩

theorem Field.of_read {field : Field} (made : field.read readAs (some value) = some datum) :
    value = .null ∨ ∃ datum, readAs field.schema value = some datum := by
  unfold Field.read at made
  split at made
  · rename_i none
    cases none
  · rename_i null
    exact .inl (Option.some.inj null)
  · rename_i same
    cases same
    exact .inr ⟨datum, made⟩

theorem Payload.of_read {payload : Payload} {schema : Schema} (beside : payload.schema? = some schema)
    (made : payload.read readAs value = some datum) :
    value = .null ∨ ∃ datum, readAs schema value = some datum := by
  unfold Payload.read at made
  split at made
  · exact .inl rfl
  · cases made
  · cases beside
    exact .inr ⟨datum, made⟩
  · exact .inl rfl
  · cases beside
    exact .inr ⟨datum, made⟩

theorem Field.read_of_readAll {contents : String → Option Json} :
    ∀ {fields : List Field} {values : List Datum}, Field.readAll readAs contents fields = some values →
      ∀ field ∈ fields, ∃ value, field.read readAs (contents field.name) = some value
  | [], _, _ => List.forall_mem_nil _
  | field :: rest, values, made => by
    rw [Field.readAll] at made
    obtain ⟨first, own, made⟩ := Option.bind_eq_some_iff.mp made
    obtain ⟨later, others, -⟩ := Option.bind_eq_some_iff.mp made
    exact List.forall_mem_cons.mpr ⟨⟨first, own⟩, Field.read_of_readAll others⟩

/-- A field that holds something other than null is read like its content. -/
theorem Field.read_of_ne_null (present : value ≠ .null) (field : Field) :
    field.read readAs (some value) = readAs field.schema value := by
  cases value <;> first | exact absurd rfl present | rfl

theorem Payload.read_of_ne_null (present : value ≠ .null) {payload : Payload} {schema : Schema}
    (beside : payload.schema? = some schema) : payload.read readAs value = readAs schema value := by
  cases payload <;> cases beside <;> cases value <;> first | exact absurd rfl present | rfl

end Reading

/-- Every field has its place beside a value if there are as many values. -/
theorem Field.exists_mem_zip {α : Type} {field : Field} {fields : List Field} {values : List α}
    (complete : values.length = fields.length) (declared : field ∈ fields) :
    ∃ value, (field, value) ∈ fields.zip values := by
  rw [← List.map_fst_zip (Nat.le_of_eq complete.symm)] at declared
  obtain ⟨⟨_, value⟩, placed, rfl⟩ := List.mem_map.mp declared
  exact ⟨value, placed⟩

theorem Json.lookup_zip {value : Json} {name : String} : ∀ {names : List String} {items : List Json}, names.Nodup →
    (name, value) ∈ names.zip items → (names.zip items).lookup name = some value
  | first :: names, item :: items, distinct, placed => by
    obtain ⟨fresh, distinct⟩ := List.nodup_cons.mp distinct
    rw [List.zip_cons_cons, List.lookup_cons]
    rcases List.mem_cons.mp placed with same | later
    · cases same
      simp
    · have other : name ≠ first := fun same => fresh (same ▸ (List.of_mem_zip later).1)
      simpa [beq_eq_false_iff_ne.mpr other] using Json.lookup_zip distinct later

/-- The one member of a key is the first one. -/
theorem Json.head?_membersAt {name : String} {members : List (Text × Json)} {value : Json}
    (once : (membersAt name members).length ≤ 1) (listed : (some name, value) ∈ members) :
    (membersAt name members).head? = some value := by
  have inside : value ∈ membersAt name members :=
    List.mem_map.mpr ⟨_, List.mem_filter.mpr ⟨listed, beq_self_eq_true _⟩, rfl⟩
  match found : membersAt name members with
  | [] => simp [found] at inside
  | [only] =>
    rw [found, List.mem_singleton] at inside
    rw [inside, List.head?_cons]
  | _ :: _ :: _ => simp [found] at once

namespace Schema

variable {schema : Schema} {value : Json} {datum : Datum}

section

variable {levels : Nat}

theorem depthItems_le {items : Schema} {values : List Json} (inside : ∀ value ∈ values, depth items value ≤ levels) :
    depthItems items values ≤ levels := by
  induction values with
  | nil => exact Nat.zero_le _
  | cons first rest ih =>
    obtain ⟨head, tail⟩ := List.forall_mem_cons.mp inside
    exact Nat.max_le.mpr ⟨head, ih tail⟩

theorem depthPlaces_le : ∀ {fields : List Field} {values : List Json},
    (∀ part ∈ fields.zip values, depth part.1.schema part.2 ≤ levels) → depthPlaces fields values ≤ levels
  | [], _, _ => by
    rw [depthPlaces]
    · exact Nat.zero_le _
    · rintro _ _ _ _ ⟨⟩
  | _ :: _, [], _ => Nat.zero_le _
  | _ :: _, _ :: _, inside => by
    obtain ⟨head, tail⟩ := List.forall_mem_cons.mp inside
    exact Nat.max_le.mpr ⟨head, depthPlaces_le tail⟩

theorem depthMembers_le {schemaOf? : Json.Text → Option Schema} {members : List (Json.Text × Json)}
    (inside : ∀ part ∈ members.filterMap fun (key, value) => (schemaOf? key).map (·, value),
      depth part.1 part.2 ≤ levels) : depthMembers schemaOf? members ≤ levels := by
  induction members with
  | nil => exact Nat.zero_le _
  | cons first rest ih =>
    rw [depthMembers]
    cases known : schemaOf? first.1 with
    | none =>
      simp only [List.filterMap_cons, known, Option.map_none] at inside
      exact Nat.max_le.mpr ⟨Nat.zero_le _, ih inside⟩
    | some schema =>
      simp only [List.filterMap_cons, known, Option.map_some, List.forall_mem_cons] at inside
      exact Nat.max_le.mpr ⟨inside.1, ih inside.2⟩

theorem depth_le_of_parts (inside : ∀ part ∈ schema.parts value, depth part.1 part.2 ≤ levels) :
    schema.depth value ≤ levels + 1 := by
  unfold depth
  split
  · exact Nat.succ_le_succ (depthItems_le (List.forall_mem_map.mp inside))
  · exact Nat.succ_le_succ (depthPlaces_le (List.forall_mem_map.mp inside))
  · exact Nat.succ_le_succ (depthMembers_le inside)
  · exact Nat.succ_le_succ (depthMembers_le inside)
  · exact Nat.zero_le _

end

/-- A part of a record stands in one of its fields. -/
theorem held_of_part {kind : RecordKind} {contents : String → Option Json} {part : Schema × Json}
    (opened : value.record? kind.names = some contents) (inside : part ∈ (record kind).parts value) :
    ∃ field ∈ kind.fields, field.schema = part.1 ∧ contents field.name = some part.2 := by
  cases value with
  | object members =>
    obtain ⟨⟨key, content⟩, listed, found⟩ := List.mem_filterMap.mp inside
    obtain ⟨schema, known, rfl⟩ := Option.map_eq_some_iff.mp found
    cases key with
    | none => cases known
    | some name =>
      obtain ⟨field, same, rfl⟩ := Option.map_eq_some_iff.mp known
      have declared := List.mem_of_find?_eq_some same
      have named : field.name = name := by simpa using List.find?_some same
      subst named
      refine ⟨field, declared, rfl, ?_⟩
      simp only [Json.record?] at opened
      split at opened
      · rename_i well
        cases opened
        have once := List.all_eq_true.mp (Bool.and_eq_true_iff.mp well).2 field.name (List.mem_map_of_mem declared)
        exact Json.head?_membersAt (of_decide_eq_true once) listed
      · cases opened
  | array items =>
    obtain ⟨⟨field, content⟩, placed, rfl⟩ := List.mem_map.mp inside
    refine ⟨field, (List.of_mem_zip placed).1, rfl, ?_⟩
    simp only [Json.record?] at opened
    split at opened
    · cases opened
      refine Json.lookup_zip kind.names_nodup ?_
      rw [RecordKind.names, List.zip_map_left]
      exact List.mem_map.mpr ⟨_, placed, rfl⟩
    · cases opened
  | _ => cases opened

/-- Whoever reads a value reads its parts, unless they are null. -/
theorem read_of_part {readAs : Schema → Json → Option Datum} (made : schema.readIn readAs value = some datum)
    {part : Schema × Json} (inside : part ∈ schema.parts value) :
    part.2 = .null ∨ ∃ datum, readAs part.1 part.2 = some datum := by
  unfold readIn at made
  split at made
  · obtain ⟨values, made, -⟩ := Option.map_eq_some_iff.mp made
    cases value with
    | array items =>
      obtain ⟨item, listed, rfl⟩ := List.mem_map.mp inside
      exact .inr (Json.of_items? made item listed)
    | _ => cases made
  · rename_i kind
    obtain ⟨contents, opened, made⟩ := Option.bind_eq_some_iff.mp made
    obtain ⟨values, made, -⟩ := Option.map_eq_some_iff.mp made
    obtain ⟨field, declared, same, held⟩ := held_of_part opened inside
    obtain ⟨own, read⟩ := Field.read_of_readAll made field declared
    rw [held] at read
    rw [← same]
    exact Field.of_read read
  · rename_i kind name content
    obtain ⟨inner, made, -⟩ := Option.map_eq_some_iff.mp made
    obtain ⟨payload, found, made⟩ := Option.bind_eq_some_iff.mp made
    obtain ⟨⟨key, value⟩, listed, known⟩ := List.mem_filterMap.mp inside
    cases List.mem_singleton.mp listed
    obtain ⟨schema, beside, rfl⟩ := Option.map_eq_some_iff.mp known
    exact Payload.of_read ((ChoiceKind.schemaOf?_eq found).symm.trans beside) made
  · rename_i notList notRecord notChoice
    unfold parts at inside
    split at inside
    · exact absurd rfl (notList _)
    · exact absurd rfl (notRecord _)
    · exact absurd rfl (notRecord _)
    · cases made
    · cases inside

theorem depth_null (schema : Schema) : schema.depth .null = 0 := by
  cases schema <;> rfl

/-- What is read within a limit is not deeper. -/
theorem depth_le_of_read : ∀ {levels : Nat} {schema : Schema} {value : Json} {datum : Datum},
    read levels schema value = some datum → schema.depth value ≤ levels
  | 0, schema, value, datum, made => by
    cases schema <;> cases value <;> first | exact Nat.le_refl 0 | cases made
  | levels + 1, schema, value, datum, made => by
    refine depth_le_of_parts fun part inside => ?_
    rcases read_of_part made inside with null | ⟨datum, own⟩
    · rw [null, depth_null]
      exact Nat.zero_le _
    · exact depth_le_of_read own

theorem read_eq_read {one other : Nat} (deep : schema.depth value ≤ one) (deep' : schema.depth value ≤ other) :
    read one schema value = read other schema value := by
  induction one generalizing other schema value with
  | zero =>
    cases other with
    | zero => rfl
    | succ other => exact (readIn_of_depth_eq_zero (Nat.le_zero.mp deep) _).symm
  | succ one ih =>
    cases other with
    | zero => exact readIn_of_depth_eq_zero (Nat.le_zero.mp deep') _
    | succ other =>
      refine readIn_congr fun part inside => ih ?_ ?_
      · exact Nat.le_of_lt_succ (Nat.lt_of_lt_of_le (depth_lt_of_part inside) deep)
      · exact Nat.le_of_lt_succ (Nat.lt_of_lt_of_le (depth_lt_of_part inside) deep')

/-- What a value spells, however deep it is. -/
def denoted? (schema : Schema) (value : Json) : Option Datum :=
  read (schema.depth value) schema value

theorem read_eq_denoted? {levels : Nat} (deep : schema.depth value ≤ levels) :
    read levels schema value = schema.denoted? value :=
  read_eq_read deep (Nat.le_refl _)

/-- A value is read exactly if it spells something and its depth is within the limit. -/
theorem read_eq_some_iff {levels : Nat} :
    read levels schema value = some datum ↔ schema.denoted? value = some datum ∧ schema.depth value ≤ levels := by
  constructor
  · intro made
    have deep := depth_le_of_read made
    exact ⟨read_eq_denoted? deep ▸ made, deep⟩
  · rintro ⟨spelled, deep⟩
    rw [read_eq_denoted? deep, spelled]

/-- What a value spells is read off what its parts spell. -/
theorem denoted?_eq (schema : Schema) (value : Json) : schema.denoted? value = schema.readIn denoted? value := by
  cases deep : schema.depth value with
  | zero => rw [denoted?, deep, readIn_of_depth_eq_zero deep, read]
  | succ levels =>
    rw [denoted?, deep, read]
    exact readIn_congr fun part inside =>
      read_eq_denoted? (Nat.le_of_lt_succ (Nat.lt_of_lt_of_eq (depth_lt_of_part inside) deep))

end Schema
end ArrayLift
