import ArrayLift.Proofs.Format.Levels

/-! Other spellings of a tree: the format leaves open in which order a record has its fields, which other members it
has, whether it is an array of its fields, and how an alternative that holds nothing is spelled. -/
namespace ArrayLift

/-- A value that a field has when it is missing. -/
def Field.Preset (field : Field) (value : Json) : Prop :=
  match field.presence with
  | .required => False
  | .optional => value = .null
  | .defaulted datum => field.schema.denoted? value = some datum

/-- An array of all fields of a record in the order of their declaration. Missing fields are filled in. -/
def RecordKind.Lists (kind : RecordKind) (members : List (Json.Text × Json)) (values : List Json) : Prop :=
  values.length = kind.fields.length ∧ ∀ part ∈ kind.fields.zip values,
    (some part.1.name, part.2) ∈ members ∨ (Json.membersAt part.1.name members = [] ∧ part.1.Preset part.2)

/-- Another spelling of one record or one alternative. -/
inductive Respells : Schema → Json → Json → Prop where
  /-- The members stand in another order. -/
  | reordered {kind : RecordKind} {members members' : List (Json.Text × Json)} (same : members.Perm members') :
      Respells (.record kind) (.object members) (.object members')
  /-- A member of an unknown name is added. -/
  | widened {kind : RecordKind} {name : String} (unknown : name ∉ kind.names) (content : Json)
      (before after : List (Json.Text × Json)) :
      Respells (.record kind) (.object (before ++ after)) (.object (before ++ (some name, content) :: after))
  /-- A field is left out that has its value when it is missing. -/
  | shortened {kind : RecordKind} {field : Field} {value : Json} (declared : field ∈ kind.fields)
      (preset : field.Preset value) (before after : List (Json.Text × Json)) :
      Respells (.record kind) (.object (before ++ (some field.name, value) :: after)) (.object (before ++ after))
  /-- The record is an array. -/
  | listed {kind : RecordKind} {members : List (Json.Text × Json)} {values : List Json}
      (lists : kind.Lists members values) : Respells (.record kind) (.object members) (.array values)
  /-- The name of an alternative that holds nothing stands in an object. -/
  | opened {kind : ChoiceKind} {name : String} (bare : kind.payload? name = some .nothing) :
      Respells (.choice kind) (.string (some name)) (.object [(some name, .null)])

/-- A known field or a further alternative too many. -/
inductive Overfills : Schema → Json → Json → Prop where
  /-- A second copy of a field. -/
  | copied {kind : RecordKind} {field : Field} (declared : field ∈ kind.fields) (copy : Json)
      {before after : List (Json.Text × Json)} (held : ∃ value, (some field.name, value) ∈ before ++ after) :
      Overfills (.record kind) (.object (before ++ after)) (.object (before ++ (some field.name, copy) :: after))
  /-- A second key behind the first. -/
  | behind {kind : ChoiceKind} (key key' : Json.Text) (content content' : Json) :
      Overfills (.choice kind) (.object [(key, content)]) (.object [(key, content), (key', content')])
  /-- A second key before the first. -/
  | before {kind : ChoiceKind} (key key' : Json.Text) (content content' : Json) :
      Overfills (.choice kind) (.object [(key, content)]) (.object [(key', content'), (key, content)])

namespace Json

variable {key name : String} {members members' : List (Text × Json)}

theorem membersAt_append : membersAt key (members ++ members') = membersAt key members ++ membersAt key members' := by
  simp [membersAt]

theorem membersAt_cons_self {value : Json} :
    membersAt key ((some key, value) :: members) = value :: membersAt key members := by
  simp [membersAt]

theorem membersAt_cons_of_ne {value : Json} (other : name ≠ key) :
    membersAt key ((some name, value) :: members) = membersAt key members := by
  simp [membersAt, other]

/-- Every key is a text, and none of the names is there twice. -/
def WellKeyed (names : List String) (members : List (Text × Json)) : Prop :=
  (∀ member ∈ members, member.1.isSome) ∧ ∀ name ∈ names, (membersAt name members).length ≤ 1

theorem record?_object_eq_some_iff {names : List String} {contents : String → Option Json} :
    (object members).record? names = some contents ↔
      WellKeyed names members ∧ (fun name => (membersAt name members).head?) = contents := by
  have ordered : (members.all (fun member => member.1.isSome)
      && names.all (fun name => (membersAt name members).length ≤ 1)) = true ↔ WellKeyed names members := by
    simp only [Bool.and_eq_true, List.all_eq_true, decide_eq_true_eq, WellKeyed]
  rw [record?]
  split
  · rename_i well
    rw [Option.some.injEq, and_iff_right (ordered.mp well)]
  · rename_i ill
    exact ⟨fun none => absurd none.symm (Option.some_ne_none _), fun well => absurd (ordered.mpr well.1) ill⟩

end Json

theorem Field.readAll_mono {readAs : Schema → Json → Option Datum} {contents contents' : String → Option Json} :
    ∀ {fields : List Field} {values : List Datum}, Field.readAll readAs contents fields = some values →
      (∀ field ∈ fields, ∀ value, field.read readAs (contents field.name) = some value →
        field.read readAs (contents' field.name) = some value) →
      Field.readAll readAs contents' fields = some values
  | [], _, made, _ => made
  | field :: rest, values, made, kept => by
    obtain ⟨own, others⟩ := List.forall_mem_cons.mp kept
    rw [Field.readAll] at made
    obtain ⟨first, head, made⟩ := Option.bind_eq_some_iff.mp made
    obtain ⟨later, tail, made⟩ := Option.bind_eq_some_iff.mp made
    rw [Field.readAll, own first head, Field.readAll_mono tail others]
    exact made

/-- A preset value is read like a missing field. -/
theorem Field.Preset.read_eq {field : Field} {value : Json} (preset : field.Preset value) :
    field.read Schema.denoted? (some value) = field.read Schema.denoted? none := by
  unfold Field.Preset at preset
  split at preset
  · cases preset
  · rename_i optional
    subst preset
    simp only [Field.read, optional]
  · rename_i datum defaulted
    cases value <;> simp only [Field.read, defaulted, preset]

namespace Schema

variable {kind : RecordKind} {members members' : List (Json.Text × Json)} {datum : Datum}

/-- A record is read off its members if their keys are in order and all its fields can be read. -/
theorem denoted?_object_eq_some_iff :
    denoted? (.record kind) (.object members) = some datum ↔
      Json.WellKeyed kind.names members ∧ ∃ values,
        Field.readAll denoted? (fun name => (Json.membersAt name members).head?) kind.fields = some values ∧
          .record values = datum := by
  rw [denoted?_eq, readIn, Option.bind_eq_some_iff]
  simp only [Json.record?_object_eq_some_iff, Option.map_eq_some_iff]
  constructor
  · rintro ⟨contents, ⟨well, rfl⟩, rest⟩
    exact ⟨well, rest⟩
  · rintro ⟨well, rest⟩
    exact ⟨_, ⟨well, rfl⟩, rest⟩

/-- Members that keep every field keep what a record spells. -/
theorem denoted?_object_mono (spelled : denoted? (.record kind) (.object members) = some datum)
    (well : Json.WellKeyed kind.names members → Json.WellKeyed kind.names members')
    (kept : Json.WellKeyed kind.names members → ∀ field ∈ kind.fields, ∀ value,
      field.read denoted? (Json.membersAt field.name members).head? = some value →
        field.read denoted? (Json.membersAt field.name members').head? = some value) :
    denoted? (.record kind) (.object members') = some datum := by
  obtain ⟨ordered, values, made, same⟩ := denoted?_object_eq_some_iff.mp spelled
  exact denoted?_object_eq_some_iff.mpr ⟨well ordered, values, Field.readAll_mono made (kept ordered), same⟩

theorem head?_reordered (same : members.Perm members') {names : List String} (well : Json.WellKeyed names members)
    {name : String} (known : name ∈ names) : Json.membersAt name members' = Json.membersAt name members := by
  have alike : (Json.membersAt name members).Perm (Json.membersAt name members') := (same.filter _).map _
  have once := well.2 name known
  match found : Json.membersAt name members with
  | [] =>
    rw [found] at alike
    exact alike.nil_eq.symm
  | [value] =>
    rw [found] at alike
    exact List.perm_singleton.mp alike.symm
  | _ :: _ :: _ => simp [found] at once

section

variable (spelled : denoted? (.record kind) (.object members) = some datum)
include spelled

theorem denoted?_reordered (same : members.Perm members') :
    denoted? (.record kind) (.object members') = some datum := by
  refine denoted?_object_mono spelled (fun well => ⟨fun member listed => ?_, fun name known => ?_⟩) ?_
  · exact well.1 member (same.mem_iff.mpr listed)
  · rw [head?_reordered same well known]
    exact well.2 name known
  · intro well field declared value read
    rwa [head?_reordered same well (List.mem_map_of_mem declared)]

/-- An array of all fields spells what their object spells. -/
theorem denoted?_listed {values : List Json} (lists : kind.Lists members values) :
    denoted? (.record kind) (.array values) = some datum := by
  obtain ⟨complete, each⟩ := lists
  obtain ⟨well, data, made, rfl⟩ := denoted?_object_eq_some_iff.mp spelled
  have opened : (Json.array values).record? kind.names = some fun name => (kind.names.zip values).lookup name := by
    rw [Json.record?, if_pos]
    simp [RecordKind.names, complete]
  rw [denoted?_eq, readIn, opened, Option.bind_some, Option.map_eq_some_iff]
  refine ⟨data, Field.readAll_mono made fun field declared datum read => ?_, rfl⟩
  obtain ⟨value, placed⟩ := Field.exists_mem_zip complete declared
  have held : (kind.names.zip values).lookup field.name = some value := by
    refine Json.lookup_zip kind.names_nodup ?_
    rw [RecordKind.names, List.zip_map_left]
    exact List.mem_map.mpr ⟨_, placed, rfl⟩
  rw [held]
  rcases each (field, value) placed with listed | ⟨missing, preset⟩
  · rwa [Json.head?_membersAt (well.2 field.name (List.mem_map_of_mem declared)) listed] at read
  · rw [missing] at read
    exact preset.read_eq.trans read

end

section

variable {before after : List (Json.Text × Json)}

/-- A member of an unknown name changes nothing. -/
theorem denoted?_widened {name : String} (unknown : name ∉ kind.names) (content : Json)
    (spelled : denoted? (.record kind) (.object (before ++ after)) = some datum) :
    denoted? (.record kind) (.object (before ++ (some name, content) :: after)) = some datum := by
  have others {known : String} (declared : known ∈ kind.names) :
      Json.membersAt known (before ++ (some name, content) :: after) = Json.membersAt known (before ++ after) := by
    have other : name ≠ known := fun same => unknown (same ▸ declared)
    rw [Json.membersAt_append, Json.membersAt_append, Json.membersAt_cons_of_ne other]
  refine denoted?_object_mono spelled (fun well => ⟨fun member listed => ?_, fun name known => ?_⟩) ?_
  · rcases List.mem_append.mp listed with early | late
    · exact well.1 member (List.mem_append_left _ early)
    · rcases List.mem_cons.mp late with rfl | late
      · rfl
      · exact well.1 member (List.mem_append_right _ late)
  · rw [others known]
    exact well.2 name known
  · intro well field declared value read
    rwa [others (List.mem_map_of_mem declared)]

/-- A field that has the value of a missing field may be left out. -/
theorem denoted?_shortened {field : Field} {value : Json} (declared : field ∈ kind.fields) (preset : field.Preset value)
    (spelled : denoted? (.record kind) (.object (before ++ (some field.name, value) :: after)) = some datum) :
    denoted? (.record kind) (.object (before ++ after)) = some datum := by
  have shorter (name : String) : (Json.membersAt name (before ++ after)).length ≤
      (Json.membersAt name (before ++ (some field.name, value) :: after)).length := by
    by_cases same : field.name = name
    · subst same
      simp [Json.membersAt_append, Json.membersAt_cons_self]
    · exact Nat.le_of_eq (by rw [Json.membersAt_append, Json.membersAt_append, Json.membersAt_cons_of_ne same])
  refine denoted?_object_mono spelled (fun well => ⟨fun member listed => ?_, fun name known => ?_⟩) ?_
  · refine well.1 member ?_
    rcases List.mem_append.mp listed with early | late
    · exact List.mem_append_left _ early
    · exact List.mem_append_right _ (List.mem_cons_of_mem _ late)
  · exact Nat.le_trans (shorter name) (well.2 name known)
  · intro well other known datum read
    by_cases same : field.name = other.name
    · obtain rfl := RecordKind.field_eq_of_name declared known same
      have once := well.2 field.name (List.mem_map_of_mem known)
      rw [Json.membersAt_append, Json.membersAt_cons_self, List.length_append, List.length_cons] at once
      obtain ⟨early, late⟩ : Json.membersAt field.name before = [] ∧ Json.membersAt field.name after = [] := by
        constructor <;> (apply List.eq_nil_of_length_eq_zero; omega)
      rw [Json.membersAt_append, Json.membersAt_cons_self, early, late] at read
      rw [Json.membersAt_append, early, late]
      exact preset.read_eq ▸ read
    · rw [Json.membersAt_append, Json.membersAt_cons_of_ne same] at read
      rwa [Json.membersAt_append]

end

/-- An alternative that holds nothing is spelled by its name, alone or with a null beside it. -/
theorem denoted?_opened {kind : ChoiceKind} {name : String} (bare : kind.payload? name = some .nothing) :
    denoted? (.choice kind) (.object [(some name, .null)]) = denoted? (.choice kind) (.string (some name)) := by
  rw [denoted?_eq, denoted?_eq]
  simp [readIn.eq_def, readFlat, bare, Payload.read]

/-- A respelled record or alternative spells the same. -/
theorem denoted?_respelled {schema : Schema} {value value' : Json} (respelled : Respells schema value value')
    (spelled : schema.denoted? value = some datum) : schema.denoted? value' = some datum := by
  cases respelled with
  | reordered same => exact denoted?_reordered spelled same
  | widened unknown content before after => exact denoted?_widened unknown content spelled
  | shortened declared preset before after => exact denoted?_shortened declared preset spelled
  | listed lists => exact denoted?_listed spelled lists
  | opened bare => exact (denoted?_opened bare).trans spelled

/-- An overfilled record or alternative spells nothing. -/
theorem denoted?_overfilled {schema : Schema} {value value' : Json} (overfilled : Overfills schema value value') :
    schema.denoted? value' = none := by
  cases overfilled with
  | @copied kind field declared copy before after held =>
    obtain ⟨value, listed⟩ := held
    refine Option.eq_none_iff_forall_ne_some.mpr fun datum spelled => ?_
    have once := (denoted?_object_eq_some_iff.mp spelled).1.2 field.name (List.mem_map_of_mem declared)
    rw [Json.membersAt_append, Json.membersAt_cons_self, List.length_append, List.length_cons] at once
    have twice : value ∈ Json.membersAt field.name before ++ Json.membersAt field.name after := by
      rw [← Json.membersAt_append]
      exact List.mem_map.mpr ⟨_, List.mem_filter.mpr ⟨listed, beq_self_eq_true _⟩, rfl⟩
    have some := List.length_pos_of_mem twice
    rw [List.length_append] at some
    omega
  | behind key key' => cases key <;> rw [denoted?_eq] <;> rfl
  | before key key' => cases key' <;> rw [denoted?_eq] <;> rfl

end Schema

end ArrayLift
