import EntityGraph.Proofs.RoundTrips

/-! # The grammar of batches

What a typed reader accepts, said without the reader: a batch is a list of records, and a record names its
kind and a registered entity and has the sections that its kind uses. The reader accepts exactly these
batches, and of any other list it reports the first record that is not well formed. -/
namespace EntityGraph

namespace Grammar

/-- A member of a section: of a declared name, and null or a scalar that converts to the declared type. -/
def Member (types : String → Option DataType) (member : String × Json) : Prop :=
  ∃ type, types member.1 = some type ∧ (member.2 = Json.null ∨
    ∃ value, Value.ofJson? member.2 = some value ∧ ∃ typed, type.coerce? value = some typed)

/-- A section: left out, null or an object of members. -/
def Section (types : String → Option DataType) (record : List (String × Json)) (name : String) : Prop :=
  Json.get? record name = none ∨ Json.get? record name = some .null ∨
    ∃ members, Json.get? record name = some (.object members) ∧ ∀ member ∈ members, Member types member

/-- What a section gives a field. The last of several members with its name counts. -/
def given? (record : List (String × Json)) (name field : String) : Option Json :=
  match Json.get? record name with
  | some (.object members) => (Std.ExtTreeMap.ofList members)[field]?
  | _ => none

/-- The keys hold the key field, and not null in it. -/
def NamesRow (definition : Definition) (record : List (String × Json)) : Prop :=
  ∃ raw, given? record "keys" definition.key = some raw ∧ raw ≠ Json.null

def Keys (definition : Definition) (record : List (String × Json)) : Prop :=
  Section (Change.fieldTypes definition) record "keys" ∧ NamesRow definition record

def Filter (record : List (String × Json)) : Prop :=
  Json.get? record "filter" = none ∨ Json.get? record "filter" = some .null ∨
    ∃ text, Json.get? record "filter" = some (.string text)

/-- The sections that a kind of change uses. All other members are free. -/
def Body (definition : Definition) (record : List (String × Json)) : ChangeKind → Prop
  | .insert => Section (Change.fieldTypes definition) record "data"
  | .update => Keys definition record ∧ Section (Change.fieldTypes definition) record "data"
  | .delete => Keys definition record
  | .command => Filter record ∧ Section (Change.parameterTypes definition) record "parameters"

/-- The members of a record about an entity. The kind may be written in upper or lower case. -/
def Record (catalog : Catalog) (record : List (String × Json)) (kind : ChangeKind) (entity : String) : Prop :=
  (∃ written, Json.get? record "kind" = some (.string written) ∧ written.toLower = kind.name) ∧
    Json.get? record "entity" = some (.string entity) ∧
    ∃ definition, catalog.entities[entity]? = some definition ∧ Body definition record kind

def WellFormed (catalog : Catalog) (raw : Json) : Prop :=
  ∃ record kind entity, raw = .object record ∧ Record catalog record kind entity

/-- A raw value and what it is in the declared type of its field. -/
def Converts (types : String → Option DataType) (field : String) (raw : Json) (value : Value) : Prop :=
  ∃ type, types field = some type ∧ (Value.ofJson? raw).bind type.coerce? = some value

/-- Columns that hold what a section gives each field, converted, and nothing else. -/
def Reads (types : String → Option DataType) (record : List (String × Json)) (name : String)
    (columns : Columns) : Prop :=
  ∀ field : String, Option.Rel (Converts types field) (given? record name field) columns[field]?

/-- What a change carries is what the sections of its kind give. -/
def Content (definition : Definition) (record : List (String × Json)) : Change → Prop
  | .insert _ data => Reads (Change.fieldTypes definition) record "data" data
  | .update _ keys data =>
    Reads (Change.fieldTypes definition) record "keys" keys ∧
      Reads (Change.fieldTypes definition) record "data" data
  | .delete _ keys => Reads (Change.fieldTypes definition) record "keys" keys
  | .command _ parameters filter =>
    Reads (Change.parameterTypes definition) record "parameters" parameters ∧
      ∀ text, filter = some text ↔ Json.get? record "filter" = some (.string text)

/-- A record is well formed, names the kind and the entity of a change, and gives what the change carries. -/
def Describes (catalog : Catalog) (raw : Json) (change : Change) : Prop :=
  ∃ record definition, raw = .object record ∧ Record catalog record change.kind change.entity.text ∧
    catalog.entities[change.entity.text]? = some definition ∧ Content definition record change

end Grammar

namespace Change
variable {entity name field : String} {types : String → Option DataType} {record : List (String × Json)}
  {raw : Json} {value : Value} {definition : Definition} {catalog : Catalog} {kind : ChangeKind}
  {change : Change}

theorem isNull_of_converts (converts : Grammar.Converts types field raw value) :
    value.isNull = true ↔ raw = .null := by
  obtain ⟨type, -, revived⟩ := converts
  obtain ⟨plain, read, converted⟩ := Option.bind_eq_some_iff.1 revived
  rw [DataType.isNull_of_coerce? converted, Value.isNull_of_ofJson? read]

theorem exists_decodeValue_iff (entity : String) :
    (∃ value, decodeValue entity (some types) field raw = .ok value) ↔ Grammar.Member types (field, raw) := by
  simp only [decodeValue_eq_ok_iff, Grammar.Member, Option.bind_eq_some_iff]
  constructor
  · rintro ⟨typed, type, declared, value, read, converted⟩
    exact ⟨type, declared, .inr ⟨value, read, typed, converted⟩⟩
  · rintro ⟨type, declared, rfl | ⟨value, read, typed, converted⟩⟩
    · exact ⟨.null, type, declared, .null, rfl, DataType.coerce?_of_admits type.admits_null⟩
    · exact ⟨typed, type, declared, value, read, converted⟩

theorem exists_decodeEach_iff (entity : String) {members : List (String × Json)} :
    (∃ entries, decodeEach entity (some types) members = .ok entries) ↔
      ∀ member ∈ members, Grammar.Member types member := by
  simp only [decodeEach_eq_ok_iff, exists_forall₂_iff]
  refine forall₂_congr fun member _ => ?_
  rw [← exists_decodeValue_iff entity]
  constructor
  · rintro ⟨entry, -, read⟩
    exact ⟨entry.2, read⟩
  · rintro ⟨value, read⟩
    exact ⟨(member.1, value), rfl, read⟩

theorem exists_decodeSection_iff (entity : String) :
    (∃ columns, decodeSection entity (some types) record name = .ok columns) ↔
      Grammar.Section types record name := by
  unfold decodeSection Grammar.Section
  split
  · next absent => simp [absent]
  · next null => simp [null]
  · next members written =>
    simp only [written, bind_eq_ok_iff, pure_eq_ok_iff, ← exists_decodeEach_iff entity]
    simp
  · next other _ _ _ => grind

/-- What is read from a section is what it gives. -/
theorem reads_of_decodeSection {columns : Columns}
    (read : decodeSection entity (some types) record name = .ok columns) :
    Grammar.Reads types record name columns := by
  intro field
  unfold Grammar.given?
  unfold decodeSection at read
  split at read
  · next absent =>
    cases read
    simp [absent]
  · next null =>
    cases read
    simp [null]
  · next members written =>
    obtain ⟨entries, each, same⟩ := bind_eq_ok_iff.1 read
    cases same
    simp only [decodeEach_eq_ok_iff, decodeValue_eq_ok_iff] at each
    rw [written]
    exact rel_getElem?_ofList (R := Grammar.Converts types) each field
  · cases read

theorem identifies_iff {keys : Columns}
    (read : decodeSection entity (some types) record "keys" = .ok keys) :
    Identifies definition keys ↔ Grammar.NamesRow definition record := by
  have related := reads_of_decodeSection read definition.key
  unfold Identifies Grammar.NamesRow
  generalize Grammar.given? record "keys" definition.key = raw at related ⊢
  generalize keys[definition.key]? = value at related ⊢
  cases related with
  | none => simp
  | some converts => simp [← isNull_of_converts converts]

theorem exists_decodeKeys_iff (entity : String) :
    (∃ keys, decodeKeys (some definition) entity record = .ok keys) ↔ Grammar.Keys definition record := by
  simp only [decodeKeys_eq_ok_iff, Grammar.Keys, ← exists_decodeSection_iff entity]
  constructor
  · rintro ⟨keys, read, identifies⟩
    exact ⟨⟨keys, read⟩, (identifies_iff read).1 identifies⟩
  · rintro ⟨⟨keys, read⟩, names⟩
    exact ⟨keys, read, (identifies_iff read).2 names⟩

theorem decodeFilter_eq_some_iff {filter : Option String} (read : decodeFilter record = .ok filter) (text : String) :
    filter = some text ↔ Json.get? record "filter" = some (.string text) := by
  unfold decodeFilter at read
  split at read
  · next absent =>
    cases read
    simp [absent]
  · next null =>
    cases read
    simp [null]
  · next written found =>
    cases read
    simp [found]
  · cases read

theorem exists_decodeFilter_iff : (∃ filter, decodeFilter record = .ok filter) ↔ Grammar.Filter record := by
  unfold decodeFilter Grammar.Filter
  split
  · next absent => simp [absent]
  · next null => simp [null]
  · next text written => simp [written]
  · grind

theorem ofName?_eq_some_iff {written : String} :
    ChangeKind.ofName? written = some kind ↔ written.toLower = kind.name := by
  unfold ChangeKind.ofName?
  generalize written.toLower = lower
  constructor
  · intro found
    exact (beq_iff_eq.1 (List.find?_some found :)).symm
  · rintro rfl
    cases kind <;> rfl

theorem decodeKind_eq_ok_iff : decodeKind record = .ok kind ↔
    ∃ written, Json.get? record "kind" = some (.string written) ∧ written.toLower = kind.name := by
  simp only [← ofName?_eq_some_iff]
  unfold decodeKind
  split
  · next absent => simp [absent]
  · next written named =>
    cases known : ChangeKind.ofName? written <;> simp [named, known]
  · grind

section Bodies
variable {entity : EntityName}

theorem decodeBody_names {known : Option Definition} (read : decodeBody entity known record kind = .ok change) :
    change.kind = kind ∧ change.entity = entity := by
  cases kind with
  | insert =>
    obtain ⟨data, -, rfl⟩ := decodeBody_insert_iff.1 read
    exact ⟨rfl, rfl⟩
  | update =>
    obtain ⟨keys, -, data, -, rfl⟩ := decodeBody_update_iff.1 read
    exact ⟨rfl, rfl⟩
  | delete =>
    obtain ⟨keys, -, rfl⟩ := decodeBody_delete_iff.1 read
    exact ⟨rfl, rfl⟩
  | command =>
    obtain ⟨filter, -, parameters, -, rfl⟩ := decodeBody_command_iff.1 read
    exact ⟨rfl, rfl⟩

theorem exists_decodeBody_iff :
    (∃ change, decodeBody entity (some definition) record kind = .ok change) ↔
      Grammar.Body definition record kind := by
  cases kind <;>
    simp only [decodeBody_insert_iff, decodeBody_update_iff, decodeBody_delete_iff, decodeBody_command_iff,
      Option.map_some, Grammar.Body, ← exists_decodeSection_iff entity.text,
      ← exists_decodeKeys_iff entity.text, ← exists_decodeFilter_iff] <;>
    grind

theorem content_of_decodeBody (read : decodeBody entity (some definition) record kind = .ok change) :
    Grammar.Content definition record change := by
  cases kind with
  | insert =>
    obtain ⟨data, hd, rfl⟩ := decodeBody_insert_iff.1 read
    exact reads_of_decodeSection hd
  | update =>
    obtain ⟨keys, hk, data, hd, rfl⟩ := decodeBody_update_iff.1 read
    exact ⟨reads_of_decodeSection (decodeKeys_eq_ok_iff.1 hk).1, reads_of_decodeSection hd⟩
  | delete =>
    obtain ⟨keys, hk, rfl⟩ := decodeBody_delete_iff.1 read
    exact reads_of_decodeSection (decodeKeys_eq_ok_iff.1 hk).1
  | command =>
    obtain ⟨filter, hf, parameters, hp, rfl⟩ := decodeBody_command_iff.1 read
    exact ⟨reads_of_decodeSection hp, decodeFilter_eq_some_iff hf⟩

end Bodies

/-- A record is read if and only if it is well formed, and what is read has the kind and the entity that
the record names. -/
theorem exists_decodeRecord_object_iff :
    (∃ change, decodeRecord (some catalog) (.object record) = .ok change ∧ change.kind = kind ∧
      change.entity.text = entity) ↔ Grammar.Record catalog record kind entity := by
  simp only [decodeRecord, bind_eq_ok_iff, decodeKind_eq_ok_iff, Prod.exists, decodeEntity_eq_ok_iff]
  constructor
  · rintro ⟨change, ⟨found, written, name, _, ⟨named, definition, registered, rfl⟩, read⟩, rfl, rfl⟩
    obtain ⟨rfl, rfl⟩ := decodeBody_names read
    exact ⟨written, named, definition, registered, exists_decodeBody_iff.1 ⟨change, read⟩⟩
  · rintro ⟨written, named, definition, registered, body⟩
    obtain ⟨rfl, -⟩ := catalog.registered _ _ registered
    obtain ⟨change, read⟩ := exists_decodeBody_iff.2 body
    exact ⟨change, ⟨kind, written, definition.name, _, ⟨named, definition, registered, rfl⟩, read⟩,
      (decodeBody_names read).1, congrArg EntityName.text (decodeBody_names read).2⟩

theorem describes_of_decodeRecord (read : decodeRecord (some catalog) raw = .ok change) :
    Grammar.Describes catalog raw change := by
  cases raw with
  | object record =>
    have formed := exists_decodeRecord_object_iff.1 ⟨change, read, rfl, rfl⟩
    obtain ⟨kind, -, read⟩ := bind_eq_ok_iff.1 read
    obtain ⟨⟨entity, known⟩, owner, body⟩ := bind_eq_ok_iff.1 read
    obtain ⟨-, definition, registered, rfl⟩ := decodeEntity_eq_ok_iff.1 owner
    obtain ⟨rfl, rfl⟩ := decodeBody_names body
    exact ⟨record, definition, rfl, formed, registered, content_of_decodeBody body⟩
  | null | bool | number | string | array => cases read

theorem exists_decodeRecord_iff :
    (∃ change, decodeRecord (some catalog) raw = .ok change) ↔ Grammar.WellFormed catalog raw := by
  constructor
  · rintro ⟨change, read⟩
    obtain ⟨record, definition, written, formed, -⟩ := describes_of_decodeRecord read
    exact ⟨record, _, _, written, formed⟩
  · rintro ⟨record, kind, entity, rfl, formed⟩
    obtain ⟨change, read, -⟩ := exists_decodeRecord_object_iff.2 formed
    exact ⟨change, read⟩

/-- Reading a list fails at the first record that cannot be read. -/
theorem decodeRecords_eq_error_iff {known : Option Catalog} {index : Nat} {raws : List Json} {e : DecodeError} :
    decodeRecords known index raws = .error e ↔
      ∃ before bad after fault, raws = before ++ bad :: after ∧ e = .record (index + before.length) fault ∧
        decodeRecord known bad = .error fault ∧
        ∀ raw ∈ before, ∃ change, decodeRecord known raw = .ok change := by
  induction raws generalizing index with
  | nil => simp [decodeRecords]
  | cons raw raws ih =>
    simp only [decodeRecords, bind_eq_error_iff, mapError_eq_error_iff, mapError_eq_ok_iff, ih]
    constructor
    · rintro (⟨fault, refused, rfl⟩ |
        ⟨change, read, ⟨before, bad, after, fault, rfl, rfl, refused, others⟩ | ⟨_, _, done⟩⟩)
      · exact ⟨[], raw, raws, fault, rfl, rfl, refused, by simp⟩
      · refine ⟨raw :: before, bad, after, fault, rfl, ?_, refused,
          List.forall_mem_cons.2 ⟨⟨change, read⟩, others⟩⟩
        simp [Nat.add_assoc, Nat.add_comm 1]
      · cases done
    · rintro ⟨before, bad, after, fault, split, rfl, refused, others⟩
      cases before with
      | nil =>
        cases split
        exact .inl ⟨fault, refused, rfl⟩
      | cons first before =>
        cases split
        obtain ⟨⟨change, read⟩, others⟩ := List.forall_mem_cons.1 others
        refine .inr ⟨change, read, .inl ⟨before, bad, after, fault, rfl, ?_, refused, others⟩⟩
        simp [Nat.add_assoc, Nat.add_comm 1]

/-- A typed reader accepts exactly the lists of well formed records, reads from each of them in order the change
that it describes, and of any other list it reports the first record that is not well formed. -/
theorem decode_grammar (catalog : Catalog) :
    (∀ raw, (∃ changes, decode (some catalog) raw = .ok changes) ↔
      ∃ raws, raw = .array raws ∧ ∀ record ∈ raws, Grammar.WellFormed catalog record) ∧
    (∀ raws changes, decode (some catalog) (.array raws) = .ok changes →
      List.Forall₂ (Grammar.Describes catalog) raws changes) ∧
    ∀ raws e, decode (some catalog) (.array raws) = .error e →
      ∃ before bad after, raws = before ++ bad :: after ∧ e.index? = some before.length ∧
        ¬Grammar.WellFormed catalog bad ∧ ∀ record ∈ before, Grammar.WellFormed catalog record := by
  refine ⟨fun raw => ?_, fun raws changes read => ?_, fun raws e failed => ?_⟩
  · cases raw with
    | array raws =>
      simp only [decode, decodeRecords_eq_ok_iff, exists_forall₂_iff, exists_decodeRecord_iff]
      simp
    | null | bool | number | string | object => simp [decode]
  · exact (decodeRecords_eq_ok_iff.1 read).imp fun _ _ => describes_of_decodeRecord
  · obtain ⟨before, bad, after, fault, rfl, rfl, refused, accepted⟩ := decodeRecords_eq_error_iff.1 failed
    refine ⟨before, bad, after, rfl, by simp [DecodeError.index?], ?_, ?_⟩
    · rw [← exists_decodeRecord_iff, refused]
      simp
    · exact fun record member => exists_decodeRecord_iff.1 (accepted record member)

end Change

namespace Journal

/-- A new entry, its kind in upper case. -/
def newEntry : Json :=
  .object [("data", .object [("id", .ofInt64 1)]), ("entity", .string "entry"), ("kind", .string "INSERT")]

/-- An update that does not name its row. -/
def keyless : Json :=
  .object [("data", .object [("weight", .ofInt64 2)]), ("entity", .string "entry"), ("kind", .string "update")]

theorem keyless_refused :
    Change.decode (some catalog) (.array [newEntry, keyless]) = .error (.record 1 (.noKeys "entry")) ∧
      Grammar.WellFormed catalog newEntry ∧ ¬Grammar.WellFormed catalog keyless := by
  have refused : Change.decode (some catalog) (.array [newEntry, keyless]) =
      .error (.record 1 (.noKeys "entry")) := by
    decide +kernel
  obtain ⟨before, bad, after, split, place, faulty, others⟩ := (Change.decode_grammar catalog).2.2 _ _ refused
  obtain ⟨first, rfl⟩ := List.length_eq_one_iff.1 (Option.some.inj place).symm
  cases split
  exact ⟨refused, others _ (by simp), faulty⟩

end Journal
end EntityGraph
