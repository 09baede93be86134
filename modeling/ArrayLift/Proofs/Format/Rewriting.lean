import ArrayLift.Proofs.Format.Magnitudes
import ArrayLift.Proofs.Format.Trees
import ArrayLift.Proofs.Format.Writing

/-! What is read can be written again: it fits its schema, what is written for it is no deeper than what was read, and
it has no more records than the text has characters. -/
namespace ArrayLift

namespace Json

mutual
/-- The count of arrays and objects in a value. -/
def containers : Json → Nat
  | .array items => containersIn items + 1
  | .object members => containersAt members + 1
  | _ => 0

def containersIn : List Json → Nat
  | [] => 0
  | item :: rest => containers item + containersIn rest

def containersAt : List (Text × Json) → Nat
  | [] => 0
  | (_, value) :: rest => containers value + containersAt rest
end

variable {members : List (Text × Json)}

theorem containersAt_filter (kept : Text × Json → Bool) : containersAt members =
    containersAt (members.filter kept) + containersAt (members.filter fun member => !kept member) := by
  induction members with
  | nil => rfl
  | cons member rest ih =>
    cases here : kept member <;> simp [here, containersAt] <;> omega

theorem containers_le_containersAt {key : Text} {value : Json} (listed : (key, value) ∈ members) :
    value.containers ≤ containersAt members := by
  induction members with
  | nil => cases listed
  | cons member rest ih =>
    rw [containersAt]
    rcases List.mem_cons.mp listed with rfl | later
    · exact Nat.le_add_right ..
    · exact Nat.le_trans (ih later) (Nat.le_add_left ..)

/-- The arrays and objects in the fields of a record. -/
def containersOf (contents : String → Option Json) (names : List String) : Nat :=
  (names.map fun name => match contents name with
    | some value => value.containers
    | none => 0).sum

/-- Fields of different names that stand among members have no more arrays and objects than these. -/
theorem containersOf_le {contents : String → Option Json} : ∀ {names : List String} {members : List (Text × Json)},
    names.Nodup → (∀ name ∈ names, ∀ value, contents name = some value → (some name, value) ∈ members) →
      containersOf contents names ≤ containersAt members
  | [], _, _, _ => Nat.zero_le _
  | name :: rest, members, distinct, held => by
    obtain ⟨fresh, distinct⟩ := List.nodup_cons.mp distinct
    obtain ⟨first, others⟩ := List.forall_mem_cons.mp held
    have later := @containersOf_le contents rest (members.filter fun member => !(member.1 == some name)) distinct
      fun other declared value found => by
        refine List.mem_filter.mpr ⟨others other declared value found, ?_⟩
        have apart : other ≠ name := fun same => fresh (same ▸ declared)
        simpa using apart
    rw [containersOf, List.map_cons, List.sum_cons, containersAt_filter fun member => member.1 == some name]
    refine Nat.add_le_add ?_ later
    cases found : contents name with
    | none => exact Nat.zero_le _
    | some value => exact containers_le_containersAt (List.mem_filter.mpr ⟨first value found, beq_self_eq_true _⟩)

theorem containersAt_zip (names : List String) (items : List Json) :
    containersAt ((names.zip items).map fun (name, item) => (some name, item)) ≤ containersIn items := by
  induction names generalizing items with
  | nil => exact Nat.zero_le _
  | cons name names ih =>
    cases items with
    | nil => exact Nat.le_refl _
    | cons item rest => exact Nat.add_le_add_left (ih rest) _

/-- A record has the arrays and objects of its fields, and itself. -/
theorem containersOf_lt {names : List String} (distinct : names.Nodup) {value : Json}
    {contents : String → Option Json} (opened : value.record? names = some contents) :
    containersOf contents names < value.containers := by
  have held (name : String) (_ : name ∈ names) (content : Json) (found : contents name = some content) :=
    mem_of_record? opened found
  cases value with
  | object members =>
    refine Nat.lt_succ_of_le (containersOf_le distinct fun name known content found => ?_)
    rcases held name known content found with ⟨_, same, listed⟩ | ⟨_, same, _⟩
    · cases same
      exact listed
    · cases same
  | array items =>
    refine Nat.lt_succ_of_le (Nat.le_trans (containersOf_le distinct fun name known content found => ?_)
      (containersAt_zip names items))
    rcases held name known content found with ⟨_, same, _⟩ | ⟨_, same, placed⟩
    · cases same
    · cases same
      exact List.mem_map.mpr ⟨_, placed, rfl⟩
  | _ => cases opened

end Json

mutual
/-- The count of records in a datum. -/
def Datum.records : Datum → Nat
  | .list items => recordsIn items
  | .record values => recordsIn values + 1
  | .choice _ content => records content
  | _ => 0

def Datum.recordsIn : List Datum → Nat
  | [] => 0
  | datum :: rest => records datum + recordsIn rest
end

namespace Field

variable {readAs : Schema → Json → Option Datum} {contents : String → Option Json}

/-- The fields of a record are read one by one. -/
theorem of_readAll : ∀ {fields : List Field} {values : List Datum}, readAll readAs contents fields = some values →
    values.length = fields.length ∧
      ∀ part ∈ fields.zip values, part.1.read readAs (contents part.1.name) = some part.2
  | [], values, made => by
    cases made
    exact ⟨rfl, List.forall_mem_nil _⟩
  | field :: rest, values, made => by
    rw [readAll] at made
    obtain ⟨first, own, made⟩ := Option.bind_eq_some_iff.mp made
    obtain ⟨later, others, same⟩ := Option.bind_eq_some_iff.mp made
    obtain rfl := Option.some.inj same
    obtain ⟨complete, each⟩ := of_readAll others
    exact ⟨congrArg Nat.succ complete, List.forall_mem_cons.mpr ⟨own, each⟩⟩

/-- A field is missing and has no value or the one it has then, or its content is read. -/
theorem read_cases {field : Field} {content : Option Json} {value : Datum}
    (made : field.read readAs content = some value) :
    (value = .absent ∧ field.presence = .optional) ∨ (content = none ∧ field.presence = .defaulted value) ∨
      ∃ own, content = some own ∧ readAs field.schema own = some value := by
  unfold read at made
  split at made
  · split at made
    · cases made
    · rename_i optional
      exact .inl ⟨(Option.some.inj made).symm, optional⟩
    · rename_i preset defaulted
      exact .inr (.inl ⟨rfl, (Option.some.inj made) ▸ defaulted⟩)
  · split at made
    · rename_i optional
      exact .inl ⟨(Option.some.inj made).symm, optional⟩
    · exact .inr (.inr ⟨_, rfl, made⟩)
  · exact .inr (.inr ⟨_, rfl, made⟩)

end Field

namespace Schema

/-- What is read fits its schema; what is written for it is no deeper than what was read, and it has no more records
than that has arrays and objects. -/
structure Rewritable (schema : Schema) (value : Json) (datum : Datum) : Prop where
  fits : schema.Fits datum
  depth_le : (schema.write datum).depth ≤ schema.depth value
  records_le : datum.records ≤ value.containers

variable {schema : Schema} {value : Json} {datum : Datum}

theorem rewritable_of_readFlat (made : schema.readFlat value = some datum) : Rewritable schema value datum := by
  unfold readFlat at made
  split at made
  · obtain ⟨text, -, rfl⟩ := Option.map_eq_some_iff.mp made
    exact ⟨.text text, Nat.zero_le _, Nat.zero_le _⟩
  · obtain ⟨flag, -, rfl⟩ := Option.map_eq_some_iff.mp made
    exact ⟨.flag flag, Nat.zero_le _, Nat.zero_le _⟩
  · obtain ⟨number, bounded, rfl⟩ := Option.map_eq_some_iff.mp made
    obtain ⟨above, below⟩ := Json.intIn?_bounds bounded
    exact ⟨.whole above below, Nat.zero_le _, Nat.zero_le _⟩
  · obtain ⟨float, spelled, rfl⟩ := Option.map_eq_some_iff.mp made
    have finite := Binary64.isFinite_of_ofNumeral? spelled
    refine ⟨.float finite, ?_, Nat.zero_le _⟩
    cases float <;> exact Nat.zero_le _
  · rename_i kind name
    split at made
    · rename_i known
      cases made
      refine ⟨.bare known, ?_, Nat.zero_le _⟩
      rw [write_bare kind name (ChoiceKind.schemaOf?_eq known)]
      exact Nat.zero_le _
    · cases made
  · cases made

/-- A field that has a value when it is missing can be written with it: it then takes no level, or one like the
parameters of a function, which are always there. -/
theorem preset_fits {kind : RecordKind} {field : Field} (declared : field ∈ kind.fields) {preset : Datum}
    (defaulted : field.presence = .defaulted preset) :
    field.schema.Fits preset ∧ preset.records = 0 ∧
      ((field.schema.write preset).depth = 0 ∨ (field.schema.write preset).depth = 1 ∧ kind = .function) := by
  cases kind <;> simp only [RecordKind.fields, List.mem_cons, List.not_mem_nil, or_false] at declared
  case call =>
    rcases declared with rfl | rfl | rfl <;> cases defaulted
    exact ⟨.whole (by decide) (by decide), rfl, .inl rfl⟩
  case function =>
    rcases declared with rfl | rfl | rfl <;> cases defaulted
    exact ⟨.list (List.forall_mem_nil _), rfl, .inr ⟨rfl, rfl⟩⟩
  case ident =>
    rcases declared with rfl | rfl | rfl | rfl | rfl <;> cases defaulted
    · exact ⟨.bare rfl, rfl, .inl rfl⟩
    · exact ⟨.flag false, rfl, .inl rfl⟩
  all_goals
    rcases declared with rfl | rfl | rfl | rfl | rfl <;> cases defaulted

section Parts

variable {readAs : Schema → Json → Option Datum}

/-- The items of an array are rewritten one by one. -/
theorem rewritable_items {items : Schema} : ∀ {values : List Json} {data : List Datum},
    (∀ value ∈ values, ∀ datum, readAs items value = some datum → Rewritable items value datum) →
      values.mapM (readAs items) = some data →
        (∀ datum ∈ data, ∃ value ∈ values, Rewritable items value datum) ∧
          Datum.recordsIn data ≤ Json.containersIn values
  | [], data, _, made => by
    cases made
    exact ⟨List.forall_mem_nil _, Nat.le_refl _⟩
  | value :: rest, data, parts, made => by
    rw [List.mapM_cons] at made
    obtain ⟨first, own, made⟩ := Option.bind_eq_some_iff.mp made
    obtain ⟨later, others, same⟩ := Option.bind_eq_some_iff.mp made
    obtain rfl := Option.some.inj same
    obtain ⟨head, tail⟩ := List.forall_mem_cons.mp parts
    obtain ⟨each, few⟩ := rewritable_items tail others
    have here := head first own
    refine ⟨List.forall_mem_cons.mpr ⟨⟨value, List.mem_cons_self .., here⟩, fun datum listed => ?_⟩,
      Nat.add_le_add here.records_le few⟩
    obtain ⟨origin, inside, same⟩ := each datum listed
    exact ⟨origin, List.mem_cons_of_mem _ inside, same⟩

theorem rewritable_list {items : Schema} {data : List Datum}
    (parts : ∀ value datum, readAs items value = some datum → Rewritable items value datum)
    (made : value.items? (readAs items) = some data) : Rewritable (.list items) value (.list data) := by
  cases value with
  | array values =>
    obtain ⟨each, few⟩ := rewritable_items (fun value _ => parts value) made
    refine ⟨.list fun datum listed => ?_, ?_, Nat.le_succ_of_le few⟩
    · obtain ⟨value, -, same⟩ := each datum listed
      exact same.fits
    · rw [write, writeItems_eq_map]
      refine Nat.succ_le_succ (Json.depthItems_le.mpr fun item listed => ?_)
      obtain ⟨datum, inside, rfl⟩ := List.mem_map.mp listed
      obtain ⟨value, listed, same⟩ := each datum inside
      exact Nat.le_trans same.depth_le (depth_le_depthItems listed)
  | _ => cases made

/-- The records in the fields of a record. -/
theorem recordsIn_le {contents : String → Option Json} : ∀ {fields : List Field} {values : List Datum},
    (∀ part ∈ fields.zip values, part.2.records = 0 ∨
      ∃ value, contents part.1.name = some value ∧ part.2.records ≤ value.containers) →
      values.length = fields.length → Datum.recordsIn values ≤ Json.containersOf contents (fields.map Field.name)
  | [], [], _, _ => Nat.le_refl _
  | field :: fields, value :: rest, parts, complete => by
    obtain ⟨first, later⟩ := List.forall_mem_cons.mp parts
    rw [Datum.recordsIn, List.map_cons, Json.containersOf, List.map_cons, List.sum_cons]
    refine Nat.add_le_add ?_ (recordsIn_le later (Nat.succ.inj complete))
    rcases first with none | ⟨content, found, few⟩
    · rw [none]
      exact Nat.zero_le _
    · simp only at found
      rw [found]
      exact few

/-- A function has a level for its parameters. -/
theorem one_lt_depth_function {contents : String → Option Json} {values : List Datum}
    (flat : ∀ value datum, readAs .idents value = some datum → 1 ≤ idents.depth value)
    (opened : value.record? RecordKind.function.names = some contents)
    (made : Field.readAll readAs contents RecordKind.function.fields = some values) :
    1 < (record .function).depth value := by
  obtain ⟨params, read⟩ := Field.read_of_readAll made ⟨"params", .idents, .required⟩ (by simp [RecordKind.fields])
  rw [Field.read_present] at read
  obtain ⟨content, held, own⟩ := Option.bind_eq_some_iff.mp read
  have inside : (idents, content) ∈ (record .function).parts value :=
    @part_of_record? .function value content contents ⟨"params", .idents, .required⟩ (by simp [RecordKind.fields])
      opened held
  exact Nat.lt_of_le_of_lt (flat content params own) (depth_lt_of_part inside)

theorem rewritable_record {kind : RecordKind} {contents : String → Option Json} {values : List Datum}
    (parts : ∀ part ∈ (record kind).parts value, ∀ datum, readAs part.1 part.2 = some datum →
      Rewritable part.1 part.2 datum)
    (flat : ∀ value datum, readAs .idents value = some datum → 1 ≤ idents.depth value)
    (opened : value.record? kind.names = some contents)
    (made : Field.readAll readAs contents kind.fields = some values) :
    Rewritable (.record kind) value (.record values) := by
  obtain ⟨complete, each⟩ := Field.of_readAll made
  have positive : 0 < (record kind).depth value := by
    cases value with
    | array | object => exact Nat.succ_pos _
    | _ => cases opened
  have cases (part : Field × Datum) (placed : part ∈ kind.fields.zip values) :
      (part.2 = .absent ∧ part.1.presence = .optional) ∨
        part.1.schema.Fits part.2 ∧ (part.1.schema.write part.2).depth < (record kind).depth value ∧
          (part.2.records = 0 ∨ ∃ own, contents part.1.name = some own ∧ part.2.records ≤ own.containers) := by
    have declared := (List.of_mem_zip placed).1
    rcases Field.read_cases (each part placed) with missing | ⟨-, defaulted⟩ | ⟨own, held, read⟩
    · exact .inl missing
    · obtain ⟨fits, none, level | ⟨level, rfl⟩⟩ := preset_fits declared defaulted
      · exact .inr ⟨fits, level ▸ positive, .inl none⟩
      · exact .inr ⟨fits, level ▸ one_lt_depth_function flat opened made, .inl none⟩
    · have inside := part_of_record? declared opened held
      obtain ⟨fits, deep, few⟩ := parts _ inside part.2 read
      exact .inr ⟨fits, Nat.lt_of_le_of_lt deep (depth_lt_of_part inside), .inr ⟨own, held, few⟩⟩
  refine ⟨.record complete (fun part placed missing => ?_) (fun part placed present => ?_), ?_, ?_⟩
  · rcases cases part placed with ⟨-, optional⟩ | ⟨fits, -⟩
    · exact optional
    · exact absurd missing fits.ne_absent
  · rcases cases part placed with ⟨missing, -⟩ | ⟨fits, -⟩
    · exact absurd missing present
    · exact fits
  · rw [write]
    refine Nat.lt_of_le_pred positive (Json.depthMembers_le.mpr fun member listed => ?_)
    obtain ⟨part, placed, present, rfl⟩ := mem_writeFields.mp listed
    rcases cases part placed with ⟨missing, -⟩ | ⟨-, deep, -⟩
    · exact absurd missing present
    · exact Nat.le_pred_of_lt deep
  · refine Nat.lt_of_le_of_lt (recordsIn_le (fun part placed => ?_) complete)
      (Json.containersOf_lt kind.names_nodup opened)
    rcases cases part placed with ⟨missing, -⟩ | ⟨-, -, few⟩
    · rw [missing]
      exact .inl rfl
    · exact few

theorem rewritable_choice {kind : ChoiceKind} {name : String} {content : Json} {payload : Payload}
    (known : kind.payload? name = some payload)
    (parts : ∀ schema, payload.schema? = some schema → ∀ datum, readAs schema content = some datum →
      Rewritable schema content datum) (made : payload.read readAs content = some datum) :
    Rewritable (.choice kind) (.object [(some name, content)]) (.choice name datum) := by
  have filled {schema : Schema} (beside : payload.schema? = some schema)
      (fits : Fits (.choice kind) (.choice name datum)) (deep : (schema.write datum).depth ≤ schema.depth content)
      (few : datum.records ≤ content.containers) :
      Rewritable (.choice kind) (.object [(some name, content)]) (.choice name datum) := by
    have held : kind.schemaOf? (some name) = some schema := (ChoiceKind.schemaOf?_eq known).trans beside
    refine ⟨fits, ?_, Nat.le_succ_of_le few⟩
    rw [write_content kind name held]
    simp only [Json.ofAlternative, Json.ofFields, List.map_cons, List.map_nil, Json.depth, Json.depthMembers, depth,
      depthMembers, held]
    omega
  unfold Payload.read at made
  split at made
  · cases made
    refine ⟨.bare known, ?_, Nat.zero_le _⟩
    rw [write_bare kind name (ChoiceKind.schemaOf?_eq known)]
    exact Nat.zero_le _
  · cases made
  · obtain ⟨fits, deep, few⟩ := parts _ rfl datum made
    exact filled rfl (.content known fits) deep few
  · rename_i schema
    cases made
    exact filled rfl (.null known) (by rw [write_absent]; exact Nat.zero_le _) (Nat.zero_le _)
  · obtain ⟨fits, deep, few⟩ := parts _ rfl datum made
    exact filled rfl (.nullable known fits) deep few

end Parts

theorem rewritable_of_read : ∀ {levels : Nat} {schema : Schema} {value : Json} {datum : Datum},
    read levels schema value = some datum → Rewritable schema value datum
  | 0, _, _, _, made => rewritable_of_readFlat made
  | levels + 1, schema, value, datum, made => by
    have own (schema : Schema) (value : Json) (datum : Datum) (made : read levels schema value = some datum) :
        Rewritable schema value datum := rewritable_of_read made
    rw [read] at made
    unfold readIn at made
    split at made
    · rename_i items
      obtain ⟨data, read, rfl⟩ := Option.map_eq_some_iff.mp made
      exact rewritable_list (own items) read
    · rename_i kind
      obtain ⟨contents, opened, made⟩ := Option.bind_eq_some_iff.mp made
      obtain ⟨values, read, rfl⟩ := Option.map_eq_some_iff.mp made
      refine rewritable_record (fun part _ => own part.1 part.2) (fun value datum made => ?_) opened read
      -- Identifiers are read off an array, which takes a level.
      have opened := (own _ _ _ made).depth_le
      obtain ⟨data, same⟩ : ∃ data, datum = .list data := by
        cases (own _ _ _ made).fits
        exact ⟨_, rfl⟩
      rw [same, idents, write] at opened
      exact Nat.le_trans (Nat.succ_pos _) opened
    · rename_i kind name content
      obtain ⟨inner, filled, rfl⟩ := Option.map_eq_some_iff.mp made
      obtain ⟨payload, known, read⟩ := Option.bind_eq_some_iff.mp filled
      exact rewritable_choice known (fun schema _ => own schema content) read
    · exact rewritable_of_readFlat made

/-- Whatever a value spells can be written again. -/
theorem rewritable_of_denoted? (spelled : schema.denoted? value = some datum) : Rewritable schema value datum :=
  rewritable_of_read spelled

end Schema
end ArrayLift
