import ArrayLift.Proofs.Format.Respelling

/-! The writer of the format: data that fits its schema is read back from what is written, and what is written is as
deep as it looks. -/
namespace ArrayLift

namespace Json

mutual
/-- The levels of arrays and objects in a value. -/
def depth : Json → Nat
  | .array items => depthItems items + 1
  | .object members => depthMembers members + 1
  | _ => 0

def depthItems : List Json → Nat
  | [] => 0
  | item :: rest => max (depth item) (depthItems rest)

def depthMembers : List (Text × Json) → Nat
  | [] => 0
  | (_, value) :: rest => max (depth value) (depthMembers rest)
end

variable {levels : Nat}

theorem depthItems_le {items : List Json} : depthItems items ≤ levels ↔ ∀ item ∈ items, item.depth ≤ levels := by
  induction items with
  | nil => simp [depthItems]
  | cons item rest ih => rw [depthItems, Nat.max_le, ih, List.forall_mem_cons]

theorem depthMembers_le {members : List (Text × Json)} :
    depthMembers members ≤ levels ↔ ∀ member ∈ members, member.2.depth ≤ levels := by
  induction members with
  | nil => simp [depthMembers]
  | cons member rest ih => rw [depthMembers, Nat.max_le, ih, List.forall_mem_cons]

end Json

mutual
/-- The floating-point numbers in a datum. -/
def Datum.floats : Datum → List Binary64
  | .float value => [value]
  | .list items => floatsIn items
  | .record values => floatsIn values
  | .choice _ content => floats content
  | _ => []

def Datum.floatsIn : List Datum → List Binary64
  | [] => []
  | datum :: rest => floats datum ++ floatsIn rest
end

theorem Datum.mem_floatsIn {data : List Datum} {value : Binary64} :
    value ∈ floatsIn data ↔ ∃ datum ∈ data, value ∈ datum.floats := by
  induction data with
  | nil => simp [floatsIn]
  | cons first rest ih => simp [floatsIn, ih]

/-- The spelling of a finite number is read as that number. -/
def Binary64.ReadsBack (value : Binary64) : Prop :=
  ∀ negative rank, value = .finite negative rank → ofNumeral? (numeral negative rank) = some value

namespace Schema

mutual
/-- Write a datum. A field without a value is left out. -/
def write : Schema → Datum → Json
  | .text, .text value => .ofText value
  | .flag, .flag value => .bool value
  | .whole .., .whole value => .ofInt value
  | .float, .float (.finite negative rank) => .number (Binary64.numeral negative rank)
  | .list items, .list data => .array (writeItems items data)
  | .record kind, .record values => .object (writeFields kind.fields values)
  | .choice kind, .choice name content =>
    match kind.schemaOf? (some name) with
    | some schema => .ofAlternative name (write schema content)
    | none => .ofText name
  | _, _ => .null

def writeItems (items : Schema) : List Datum → List Json
  | [] => []
  | datum :: rest => write items datum :: writeItems items rest

def writeFields : List Field → List Datum → List (Json.Text × Json)
  | _ :: fields, .absent :: rest => writeFields fields rest
  | field :: fields, value :: rest => (some field.name, write field.schema value) :: writeFields fields rest
  | _, _ => []
end

attribute [local simp] write writeItems writeFields

/-- A datum has the form that its schema asks for, its numbers within their bounds. -/
inductive Fits : Schema → Datum → Prop where
  | text (value : String) : Fits .text (.text value)
  | flag (value : Bool) : Fits .flag (.flag value)
  | whole {least greatest value : Int} (above : least ≤ value) (below : value ≤ greatest) :
    Fits (.whole least greatest) (.whole value)
  | float {value : Binary64} (finite : value.isFinite) : Fits .float (.float value)
  | list {items : Schema} {data : List Datum} (each : ∀ datum ∈ data, Fits items datum) :
    Fits (.list items) (.list data)
  /-- Optional fields, and only these, may be without a value. -/
  | record {kind : RecordKind} {values : List Datum} (complete : values.length = kind.fields.length)
      (missing : ∀ part ∈ kind.fields.zip values, part.2 = .absent → part.1.presence = .optional)
      (each : ∀ part ∈ kind.fields.zip values, part.2 ≠ .absent → Fits part.1.schema part.2) :
    Fits (.record kind) (.record values)
  | bare {kind : ChoiceKind} {name : String} (known : kind.payload? name = some .nothing) :
    Fits (.choice kind) (.choice name .absent)
  | content {kind : ChoiceKind} {name : String} {schema : Schema} {content : Datum}
      (known : kind.payload? name = some (.content schema)) (fits : Fits schema content) :
    Fits (.choice kind) (.choice name content)
  | null {kind : ChoiceKind} {name : String} {schema : Schema} (known : kind.payload? name = some (.nullable schema)) :
    Fits (.choice kind) (.choice name .absent)
  | nullable {kind : ChoiceKind} {name : String} {schema : Schema} {content : Datum}
      (known : kind.payload? name = some (.nullable schema)) (fits : Fits schema content) :
    Fits (.choice kind) (.choice name content)

variable {schema : Schema} {datum : Datum}

theorem Fits.ne_absent (fits : Fits schema datum) : datum ≠ .absent := by
  cases fits <;> exact Datum.noConfusion

/-- The floating-point numbers in data that fits are finite. -/
theorem Fits.isFinite (fits : Fits schema datum) : ∀ value ∈ datum.floats, value.isFinite := by
  induction fits with
  | text | flag | whole | bare | null => exact List.forall_mem_nil _
  | float finite => exact List.forall_mem_singleton.mpr finite
  | list each ih =>
    intro value inside
    obtain ⟨datum, listed, inside⟩ := Datum.mem_floatsIn.mp inside
    exact ih datum listed value inside
  | @record kind values complete missing each ih =>
    intro value inside
    obtain ⟨datum, listed, inside⟩ := Datum.mem_floatsIn.mp inside
    rw [← List.map_snd_zip (Nat.le_of_eq complete)] at listed
    obtain ⟨part, placed, rfl⟩ := List.mem_map.mp listed
    refine ih part placed (fun missing => ?_) value inside
    rw [missing] at inside
    cases inside
  | content known fits ih | nullable known fits ih => exact ih

theorem writeItems_eq_map (items : Schema) (data : List Datum) : writeItems items data = data.map items.write := by
  induction data with
  | nil => rfl
  | cons datum rest ih => rw [writeItems, ih, List.map_cons]

theorem writeFields_absent {field : Field} {fields : List Field} {rest : List Datum} :
    writeFields (field :: fields) (.absent :: rest) = writeFields fields rest := by
  rw [writeFields]

theorem writeFields_present {field : Field} {fields : List Field} {value : Datum} {rest : List Datum}
    (present : value ≠ .absent) : writeFields (field :: fields) (value :: rest) =
      (some field.name, write field.schema value) :: writeFields fields rest := by
  cases value <;> first | exact absurd rfl present | rw [writeFields]; rintro ⟨⟩

/-- An alternative is written with its content, or as its name alone if it holds nothing. -/
theorem write_content (kind : ChoiceKind) (name : String) {schema : Schema} {content : Datum}
    (known : kind.schemaOf? (some name) = some schema) :
    write (.choice kind) (.choice name content) = .ofAlternative name (schema.write content) := by
  rw [write, known]

theorem write_bare (kind : ChoiceKind) (name : String) {content : Datum} (known : kind.schemaOf? (some name) = none) :
    write (.choice kind) (.choice name content) = .ofText name := by
  rw [write, known]

theorem write_absent (schema : Schema) : schema.write .absent = .null := by
  cases schema <;> rfl

/-- What is written for a record are its fields that have a value. -/
theorem mem_writeFields {member : Json.Text × Json} : ∀ {fields : List Field} {values : List Datum},
    member ∈ writeFields fields values ↔
      ∃ part ∈ fields.zip values, part.2 ≠ .absent ∧ member = (some part.1.name, write part.1.schema part.2)
  | [], values => by
    rw [writeFields]
    · simp
    · rintro _ _ _ ⟨⟩
    · rintro _ _ _ _ ⟨⟩
  | _ :: _, [] => by simp
  | field :: fields, value :: rest => by
    by_cases missing : value = .absent
    · rw [missing, writeFields_absent, mem_writeFields]
      simp
    · rw [writeFields_present missing, List.mem_cons, mem_writeFields]
      simp [missing]

theorem membersAt_writeFields_fresh {name : String} {fields : List Field} {values : List Datum}
    (fresh : ∀ field ∈ fields, field.name ≠ name) : Json.membersAt name (writeFields fields values) = [] := by
  refine List.eq_nil_iff_forall_not_mem.mpr fun value listed => ?_
  obtain ⟨part, placed, -, same⟩ := mem_writeFields.mp (Json.mem_of_mem_membersAt listed)
  exact fresh part.1 (List.of_mem_zip placed).1 (Option.some.inj (Prod.mk.inj same).1).symm

/-- A field is written once if it has a value, and not at all without one. -/
theorem membersAt_writeFields {part : Field × Datum} : ∀ {fields : List Field} {values : List Datum},
    (fields.map Field.name).Nodup → part ∈ fields.zip values →
      Json.membersAt part.1.name (writeFields fields values) =
        match part.2 with
        | .absent => []
        | value => [write part.1.schema value]
  | field :: fields, value :: rest, distinct, placed => by
    obtain ⟨fresh, distinct⟩ := List.nodup_cons.mp distinct
    rw [List.zip_cons_cons] at placed
    rcases List.mem_cons.mp placed with rfl | later
    · have others : Json.membersAt field.name (writeFields fields rest) = [] :=
        membersAt_writeFields_fresh fun other declared same => fresh (same ▸ List.mem_map_of_mem declared)
      split
      · rename_i missing
        simp only at missing
        rw [missing, writeFields_absent, others]
      · rename_i present
        rw [writeFields_present present, Json.membersAt_cons_self, others]
    · have other : field.name ≠ part.1.name := by
        intro same
        exact fresh (same ▸ List.mem_map_of_mem (List.of_mem_zip later).1)
      have own := membersAt_writeFields distinct later
      by_cases missing : value = .absent
      · rw [missing, writeFields_absent, own]
      · rw [writeFields_present missing, Json.membersAt_cons_of_ne other, own]

theorem Fits.write_ne_null (fits : Fits schema datum) : schema.write datum ≠ .null := by
  cases fits with
  | @float value finite =>
    cases value with
    | finite negative rank => rintro ⟨⟩
    | _ => cases finite
  | bare | content | null | nullable =>
    rw [write]
    split <;> rintro ⟨⟩
  | _ => rintro ⟨⟩

end Schema

theorem Numeral.toInt?_ofInt (value : Int) : (ofInt value).toInt? = some value := by
  by_cases negative : value < 0
  · have nonzero : value.natAbs ≠ 0 := by omega
    have same : -(value.natAbs : Int) = value := by omega
    rw [ofInt, decide_eq_true negative]
    exact (if_neg nonzero).trans (congrArg some same)
  · have same : (value.natAbs : Int) = value := by omega
    rw [ofInt, decide_eq_false negative]
    exact congrArg some same

theorem Json.intIn?_ofInt {least greatest value : Int} (above : least ≤ value) (below : value ≤ greatest) :
    (ofInt value).intIn? least greatest = some value := by
  simp [ofInt, intIn?, Numeral.toInt?_ofInt, above, below]

theorem Json.items?_map {α : Type} {decode : Json → Option α} {encode : α → Json} {values : List α}
    (each : ∀ value ∈ values, decode (encode value) = some value) :
    (Json.array (values.map encode)).items? decode = some values := by
  rw [items?]
  induction values with
  | nil => rfl
  | cons value rest ih =>
    obtain ⟨first, later⟩ := List.forall_mem_cons.mp each
    rw [List.map_cons, List.mapM_cons, first, ih later]
    rfl

/-- Fields that are read one by one are read together. -/
theorem Field.readAll_eq_some {readAs : Schema → Json → Option Datum} {contents : String → Option Json} :
    ∀ {fields : List Field} {values : List Datum}, values.length = fields.length →
      (∀ part ∈ fields.zip values, part.1.read readAs (contents part.1.name) = some part.2) →
      Field.readAll readAs contents fields = some values
  | [], [], _, _ => rfl
  | field :: fields, value :: rest, complete, each => by
    rw [List.zip_cons_cons, List.forall_mem_cons] at each
    rw [Field.readAll, each.1, Field.readAll_eq_some (Nat.succ.inj complete) each.2]
    rfl

namespace Schema

variable {schema : Schema} {datum : Datum}

theorem wellKeyed_writeFields {fields : List Field} {values : List Datum} (distinct : (fields.map Field.name).Nodup)
    (complete : values.length = fields.length) :
    Json.WellKeyed (fields.map Field.name) (writeFields fields values) := by
  constructor
  · intro member listed
    obtain ⟨part, -, -, rfl⟩ := mem_writeFields.mp listed
    rfl
  · intro name known
    obtain ⟨field, declared, rfl⟩ := List.mem_map.mp known
    obtain ⟨value, placed⟩ := Field.exists_mem_zip complete declared
    rw [membersAt_writeFields distinct placed]
    split
    · exact Nat.zero_le _
    · exact Nat.le_refl _

/-- An alternative with its content is read by its name. -/
theorem denoted?_ofAlternative {kind : ChoiceKind} {name : String} {payload : Payload}
    (known : kind.payload? name = some payload) (content : Json) :
    (Schema.choice kind).denoted? (.ofAlternative name content) =
      (payload.read denoted? content).map (.choice name) := by
  rw [denoted?_eq]
  simp only [Json.ofAlternative, Json.ofFields, List.map_cons, List.map_nil, readIn, known, Option.bind_some]

/-- A datum is read back from what is written for it, if its floating-point numbers are. -/
theorem denoted?_write (fits : Fits schema datum) (readable : ∀ value ∈ datum.floats, value.ReadsBack) :
    schema.denoted? (schema.write datum) = some datum := by
  induction fits with
  | text | flag => rw [denoted?_eq]; rfl
  | whole above below =>
    rw [denoted?_eq]
    simp only [write, readIn.eq_def, readFlat, Json.intIn?_ofInt above below, Option.map_some]
  | @float value finite =>
    have own := readable value (by simp [Datum.floats])
    cases value with
    | finite negative rank =>
      have spelled := own negative rank rfl
      rw [denoted?_eq]
      simp only [write, readIn.eq_def, readFlat, spelled, Option.map_some]
    | _ => cases finite
  | @list items data each ih =>
    have parts : ∀ part ∈ data, items.denoted? (items.write part) = some part := fun part listed =>
      ih part listed fun value inside => readable value (Datum.mem_floatsIn.mpr ⟨part, listed, inside⟩)
    rw [denoted?_eq, write, writeItems_eq_map, readIn, Json.items?_map parts, Option.map_some]
  | @record kind values complete missing each ih =>
    have distinct := kind.names_nodup
    rw [write, denoted?_object_eq_some_iff]
    refine ⟨wellKeyed_writeFields distinct complete, values, Field.readAll_eq_some complete fun part placed => ?_, rfl⟩
    rw [membersAt_writeFields distinct placed]
    obtain ⟨field, value⟩ := part
    split
    · rename_i absent
      have optional : field.presence = .optional := missing _ placed absent
      simp only at absent
      simp only [List.head?_nil, Field.read, optional, absent]
    · rename_i present
      have own := ih (field, value) placed present fun float inside =>
        readable float (Datum.mem_floatsIn.mpr ⟨value, (List.of_mem_zip placed).2, inside⟩)
      rw [List.head?_cons, Field.read_of_ne_null (each _ placed present).write_ne_null, own]
  | @bare kind name known =>
    rw [write_bare kind name (ChoiceKind.schemaOf?_eq known), denoted?_eq]
    simp only [Json.ofText, readIn.eq_def, readFlat, known]
  | @content kind name schema content known fits ih =>
    rw [write_content kind name (ChoiceKind.schemaOf?_eq known), denoted?_ofAlternative known, Payload.read,
      ih readable, Option.map_some]
  | @null kind name schema known =>
    rw [write_content kind name (ChoiceKind.schemaOf?_eq known), write_absent, denoted?_ofAlternative known,
      Payload.read, Option.map_some]
  | @nullable kind name schema content known fits ih =>
    rw [write_content kind name (ChoiceKind.schemaOf?_eq known), denoted?_ofAlternative known,
      Payload.read_of_ne_null fits.write_ne_null rfl, ih readable, Option.map_some]

theorem depthItems_eq {items : Schema} {values : List Json} (same : ∀ value ∈ values, items.depth value = value.depth) :
    depthItems items values = Json.depthItems values := by
  induction values with
  | nil => rfl
  | cons value rest ih =>
    obtain ⟨first, later⟩ := List.forall_mem_cons.mp same
    rw [depthItems, Json.depthItems, first, ih later]

theorem depthMembers_eq {schemaOf? : Json.Text → Option Schema} {members : List (Json.Text × Json)}
    (same : ∀ member ∈ members, ∃ schema, schemaOf? member.1 = some schema ∧ schema.depth member.2 = member.2.depth) :
    depthMembers schemaOf? members = Json.depthMembers members := by
  induction members with
  | nil => rfl
  | cons member rest ih =>
    obtain ⟨⟨schema, known, first⟩, later⟩ := List.forall_mem_cons.mp same
    simp only [depthMembers, Json.depthMembers, known, first, ih later]

/-- All of what is written is part of the tree. -/
theorem depth_write (fits : Fits schema datum) : schema.depth (schema.write datum) = (schema.write datum).depth := by
  have choice {kind : ChoiceKind} {name : String} {content : Datum}
      (inner : ∀ schema, kind.schemaOf? (some name) = some schema →
        schema.depth (schema.write content) = (schema.write content).depth) :
      (Schema.choice kind).depth (write (.choice kind) (.choice name content)) =
        (write (.choice kind) (.choice name content)).depth := by
    rw [write]
    split
    · rename_i schema known
      exact congrArg Nat.succ (depthMembers_eq (List.forall_mem_singleton.mpr ⟨schema, known, inner schema known⟩))
    · rfl
  induction fits with
  | text | flag | whole => rfl
  | @float value finite => cases value <;> rfl
  | @list items data each ih =>
    rw [write, writeItems_eq_map]
    refine congrArg Nat.succ (depthItems_eq fun value listed => ?_)
    obtain ⟨part, inside, rfl⟩ := List.mem_map.mp listed
    exact ih part inside
  | @record kind values complete missing each ih =>
    rw [write]
    refine congrArg Nat.succ (depthMembers_eq fun member listed => ?_)
    obtain ⟨part, placed, present, rfl⟩ := mem_writeFields.mp listed
    exact ⟨part.1.schema, RecordKind.schemaOf?_name (List.of_mem_zip placed).1, ih part placed present⟩
  | @bare kind name known =>
    refine choice fun schema beside => ?_
    cases (ChoiceKind.schemaOf?_eq known).symm.trans beside
  | @null kind name schema known =>
    refine choice fun schema beside => ?_
    rw [write_absent]
    cases schema <;> rfl
  | @content kind name schema content known fits ih | @nullable kind name schema content known fits ih =>
    refine choice fun other beside => ?_
    cases (ChoiceKind.schemaOf?_eq known).symm.trans beside
    exact ih

end Schema
end ArrayLift
