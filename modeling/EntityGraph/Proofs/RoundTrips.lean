import EntityGraph.Proofs.Decoding

/-! # Batches written and read again

A reader gets a batch back from what is written of it if every value is read back from its written form as
the reader declares it. With a catalog these are the values with a written form of their own, in changes that
conform to the catalog. What such a reader accepts always conforms, so a batch that it has read is read back as
soon as the years of its moments have four digits, and only then. Without a catalog these are all values but
moments and doubles that are not finite, so whatever such a reader accepts is read back. -/
namespace EntityGraph
namespace Change
variable {catalog : Catalog} {definition : Definition} {change : Change}

/-- A change of declared columns with typed values, which names its row if it is about one. -/
def Conforms (definition : Definition) : Change → Prop
  | .insert _ data => TypedAs (fieldTypes definition) data
  | .update _ keys data =>
    TypedAs (fieldTypes definition) keys ∧ Identifies definition keys ∧ TypedAs (fieldTypes definition) data
  | .delete _ keys => TypedAs (fieldTypes definition) keys ∧ Identifies definition keys
  | .command _ parameters _ => TypedAs (parameterTypes definition) parameters

/-- A value in one of the sections of a change. -/
def Carries (value : Value) : Change → Prop
  | .insert _ data => ∃ name : String, data[name]? = some value
  | .update _ keys data =>
    (∃ name : String, keys[name]? = some value) ∨ ∃ name : String, data[name]? = some value
  | .delete _ keys => ∃ name : String, keys[name]? = some value
  | .command _ parameters _ => ∃ name : String, parameters[name]? = some value

/-- A value in one of the sections of a change, under its name. -/
def CarriesAt (name : String) (value : Value) : Change → Prop
  | .insert _ data => data[name]? = some value
  | .update _ keys data => keys[name]? = some value ∨ data[name]? = some value
  | .delete _ keys => keys[name]? = some value
  | .command _ parameters _ => parameters[name]? = some value

theorem carries_iff {value : Value} : change.Carries value ↔ ∃ name, change.CarriesAt name value := by
  cases change <;> simp [Carries, CarriesAt, exists_or]

/-- The declared type of each name in the sections of a change. -/
def types (definition : Definition) : Change → String → Option DataType
  | .command _ _ _ => parameterTypes definition
  | _ => fieldTypes definition

/-- A change has the columns that a reader asks for to identify its row, if it is about one. -/
def Keyed (known : Option Definition) (change : Change) : Prop :=
  ∀ keys, change.keys? = some keys → lacksKey known keys = false

theorem conforms_iff : change.Conforms definition ↔ change.Keyed (some definition) ∧
    ∀ name value, change.CarriesAt name value →
      ∃ type, change.types definition name = some type ∧ type.admits value = true := by
  cases change <;>
    simp only [Conforms, Keyed, CarriesAt, types, keys?, TypedAs, lacksKey_eq_false_iff, Option.some.injEq,
      reduceCtorEq, forall_eq', or_imp, forall_and] <;>
    tauto

theorem ofName?_name (kind : ChangeKind) : ChangeKind.ofName? kind.name = some kind := by
  cases kind <;> decide +kernel

/-- What a reader looks up in the record of a change. -/
structure WrittenAs (change : Change) (record : List (String × Json)) : Prop where
  kind : Json.get? record "kind" = some (.string change.kind.name)
  entity : Json.get? record "entity" = some (.string change.entity.text)
  data : ∀ {data : Columns}, change.data? = some data → Json.get? record "data" = some (columnsJson data)
  keys : ∀ {keys : Columns}, change.keys? = some keys → Json.get? record "keys" = some (columnsJson keys)
  command : ∀ {entity : EntityName} {parameters : Columns} {filter : Option String},
    change = .command entity parameters filter →
      Json.get? record "parameters" = some (columnsJson parameters) ∧ decodeFilter record = .ok filter

theorem toJson_writtenAs (change : Change) :
    ∃ record, change.toJson = .object record ∧ change.WrittenAs record := by
  refine ⟨_, rfl, ?_⟩
  cases change with
  | insert | update | delete =>
    constructor <;> simp [Json.get?, List.lookup_cons, kind, Change.entity, data?, keys?, ChangeKind.name]
  | command entity parameters filter =>
    cases filter <;> constructor <;>
      simp [Json.get?, List.lookup_cons, kind, Change.entity, data?, keys?, ChangeKind.name, decodeFilter]

/-- The record of a change is read back if and only if the change is keyed and each of its values is read
back. -/
theorem decodeRecord_written_iff (reader : Option Catalog) (known : Option Definition)
    (found : known = reader.bind fun catalog => catalog.entities[change.entity.text]?)
    (knows : known.isSome = reader.isSome) :
    decodeRecord reader change.toJson = .ok change ↔ change.Keyed known ∧
      ∀ name value, change.CarriesAt name value →
        decodeValue change.entity.text (known.map (types · change)) name value.toJson = .ok value := by
  obtain ⟨record, written, looks⟩ := toJson_writtenAs change
  have readKind : decodeKind record = .ok change.kind := by simp [decodeKind, looks.kind, ofName?_name]
  have body : decodeRecord reader change.toJson = decodeBody change.entity known record change.kind := by
    rw [written]
    simp only [decodeRecord, readKind, decodeEntity_iff.2 ⟨looks.entity, found, knows⟩]
    rfl
  rw [body]
  cases change with
  | insert entity data =>
    have readData := decodeSection_columnsJson_iff entity.text (known.map fieldTypes) (looks.data rfl)
    simp only [kind, Change.entity, decodeBody_insert_iff, Change.insert.injEq, Keyed, keys?, CarriesAt, types]
    grind
  | update entity keys data =>
    have readKeys := decodeSection_columnsJson_iff entity.text (known.map fieldTypes) (looks.keys rfl)
    have readData := decodeSection_columnsJson_iff entity.text (known.map fieldTypes) (looks.data rfl)
    simp only [kind, Change.entity, decodeBody_update_iff, decodeKeys_iff, Change.update.injEq, Keyed, keys?,
      CarriesAt, types]
    grind
  | delete entity keys =>
    have readKeys := decodeSection_columnsJson_iff entity.text (known.map fieldTypes) (looks.keys rfl)
    simp only [kind, Change.entity, decodeBody_delete_iff, decodeKeys_iff, Change.delete.injEq, Keyed, keys?,
      CarriesAt, types]
    grind
  | command entity parameters filter =>
    obtain ⟨parametersWritten, filterRead⟩ := looks.command rfl
    have readParameters := decodeSection_columnsJson_iff entity.text (known.map parameterTypes)
      parametersWritten
    simp only [kind, Change.entity, decodeBody_command_iff, Change.command.injEq, Keyed, keys?, CarriesAt, types]
    grind

/-- What is read from a record is keyed, and each of its values was read from some scalar. -/
theorem decodeRecord_eq_ok {reader : Option Catalog} {raw : Json} (read : decodeRecord reader raw = .ok change) :
    ∃ known, known = (reader.bind fun catalog => catalog.entities[change.entity.text]?) ∧
      known.isSome = reader.isSome ∧ change.Keyed known ∧
      ∀ name value, change.CarriesAt name value →
        ∃ raw, decodeValue change.entity.text (known.map (types · change)) name raw = .ok value := by
  cases raw with
  | object record =>
    obtain ⟨kind, -, read⟩ := bind_eq_ok_iff.1 read
    obtain ⟨⟨entity, known⟩, named, read⟩ := bind_eq_ok_iff.1 read
    obtain ⟨-, found, knows⟩ := decodeEntity_iff.1 named
    cases kind with
    | insert =>
      obtain ⟨data, readData, rfl⟩ := decodeBody_insert_iff.1 read
      refine ⟨known, found, knows, ?_, fun name value held => exists_of_decodeSection readData held⟩
      rintro _ ⟨⟩
    | update =>
      obtain ⟨keys, readKeys, data, readData, rfl⟩ := decodeBody_update_iff.1 read
      obtain ⟨readKeys, keyed⟩ := decodeKeys_iff.1 readKeys
      refine ⟨known, found, knows, fun _ same => Option.some.inj same ▸ keyed, ?_⟩
      rintro name value (held | held)
      · exact exists_of_decodeSection readKeys held
      · exact exists_of_decodeSection readData held
    | delete =>
      obtain ⟨keys, readKeys, rfl⟩ := decodeBody_delete_iff.1 read
      obtain ⟨readKeys, keyed⟩ := decodeKeys_iff.1 readKeys
      exact ⟨known, found, knows, fun _ same => Option.some.inj same ▸ keyed,
        fun name value held => exists_of_decodeSection readKeys held⟩
    | command =>
      obtain ⟨filter, -, parameters, readParameters, rfl⟩ := decodeBody_command_iff.1 read
      refine ⟨known, found, knows, ?_, fun name value held => exists_of_decodeSection readParameters held⟩
      rintro _ ⟨⟩
  | null | bool | number | string | array => cases read

/-- The record of a conforming change is read back if and only if each of its values has a written form
of its own. -/
theorem decodeRecord_toJson_iff (registered : catalog.entities[change.entity.text]? = some definition)
    (conforms : change.Conforms definition) :
    decodeRecord (some catalog) change.toJson = .ok change ↔
      ∀ value, change.Carries value → value.Exchangeable := by
  obtain ⟨keyed, typed⟩ := conforms_iff.1 conforms
  rw [decodeRecord_written_iff _ (some definition) (by simp [registered]) rfl]
  simp only [carries_iff, keyed, true_and, forall_exists_index, Option.map_some, decodeValue_eq_ok_iff]
  rw [forall_comm]
  refine forall₃_congr fun value name carried => ?_
  obtain ⟨type, declared, admitted⟩ := typed name value carried
  simp only [declared, Option.some.injEq, exists_eq_left', Value.revive_toJson_iff admitted]

/-- What is read from a record conforms, and its doubles are finite. -/
theorem decodeRecord_conforms {raw : Json} (read : decodeRecord (some catalog) raw = .ok change) :
    ∃ definition, catalog.entities[change.entity.text]? = some definition ∧ change.Conforms definition ∧
      ∀ d, change.Carries (.float d) → d.isFinite = true := by
  obtain ⟨known, found, knows, keyed, values⟩ := decodeRecord_eq_ok read
  obtain ⟨definition, rfl⟩ := Option.isSome_iff_exists.1 knows
  simp only [Option.map_some, decodeValue_eq_ok_iff] at values
  refine ⟨definition, found.symm, conforms_iff.2 ⟨keyed, fun name value carried => ?_⟩, fun d carried => ?_⟩
  · obtain ⟨raw, type, declared, revived⟩ := values name value carried
    obtain ⟨plain, -, coerced⟩ := Option.bind_eq_some_iff.1 revived
    exact ⟨type, declared, DataType.admits_of_coerce? coerced⟩
  · obtain ⟨name, carried⟩ := carries_iff.1 carried
    obtain ⟨raw, type, -, revived⟩ := values name _ carried
    exact Value.finite_of_revive revived

theorem keyed_none_iff : change.Keyed none ↔ ∀ keys, change.keys? = some keys → keys ≠ ∅ := by
  refine forall₂_congr fun keys _ => ?_
  rw [lacksKey, ← Bool.not_eq_true, Std.ExtTreeMap.isEmpty_iff, ne_eq]

/-- The record of a change is read back without a catalog if and only if the columns that identify its row are
not empty and each of its values is a scalar of the exchange format. -/
theorem decodeRecord_untyped_iff : decodeRecord none change.toJson = .ok change ↔
    change.Keyed none ∧ ∀ value, change.Carries value → value.Plain := by
  rw [decodeRecord_written_iff none none rfl rfl]
  simp only [carries_iff, forall_exists_index, Option.map_none, decodeValue_untyped_iff]
  rw [forall_comm]
  rfl

/-- What is read from a record without a catalog are scalars of the exchange format. -/
theorem untyped_of_decodeRecord {raw : Json} (read : decodeRecord none raw = .ok change) :
    change.Keyed none ∧ ∀ value, change.Carries value → value.Plain := by
  obtain ⟨known, rfl, -, keyed, values⟩ := decodeRecord_eq_ok read
  simp only [Option.bind_none, Option.map_none, decodeValue_untyped_iff] at keyed values
  refine ⟨keyed, fun value carried => ?_⟩
  obtain ⟨name, carried⟩ := carries_iff.1 carried
  obtain ⟨raw, read⟩ := values name value carried
  exact Value.plain_of_ofJson? read

/-- A batch is read back if and only if each of its records is. -/
theorem decode_encode_eq_ok_iff {known : Option Catalog} {changes : List Change} :
    decode known (encode changes) = .ok changes ↔
      ∀ change ∈ changes, decodeRecord known change.toJson = .ok change := by
  rw [encode, decode, decodeRecords_eq_ok_iff, List.forall₂_map_left_iff, List.forall₂_same]

/-- Changes that conform to a catalog and carry only values with a written form of their own are read
back from what is written of them. -/
theorem decode_encode {changes : List Change}
    (conforms : ∀ change ∈ changes, ∃ definition, catalog.entities[change.entity.text]? = some definition ∧
      change.Conforms definition)
    (exchangeable : ∀ change ∈ changes, ∀ value, change.Carries value → value.Exchangeable) :
    decode (some catalog) (encode changes) = .ok changes := by
  refine decode_encode_eq_ok_iff.2 fun change member => ?_
  obtain ⟨definition, registered, conforms⟩ := conforms change member
  exact (decodeRecord_toJson_iff registered conforms).2 (exchangeable change member)

/-- What was read from a batch is read back from what is written of it if and only if the years of its
moments have four digits. -/
theorem decode_encode_iff {raw : Json} {changes : List Change}
    (read : decode (some catalog) raw = .ok changes) :
    decode (some catalog) (encode changes) = .ok changes ↔
      ∀ change ∈ changes, ∀ t, change.Carries (.timestamp t) → t.Exchangeable := by
  cases raw with
  | array raws =>
    rw [decode, decodeRecords_eq_ok_iff] at read
    rw [decode_encode_eq_ok_iff]
    refine forall_congr' fun change => imp_congr_right fun member => ?_
    obtain ⟨record, -, read⟩ := exists_mem_of_forall₂ read.flip member
    obtain ⟨definition, registered, conforms, finite⟩ := decodeRecord_conforms read
    rw [decodeRecord_toJson_iff registered conforms]
    constructor
    · exact fun all t carried => all _ carried
    · intro moments value carried
      cases value with
      | float d => exact finite d carried
      | timestamp t => exact moments t carried
      | null | text | integer | boolean => trivial
  | null | bool | number | string | object => cases read

/-- Without a catalog, what was read from a batch is read back from what is written of it, and changes are read
back if and only if those that are about a row name some column of it and none has a moment or a double that is
not finite. -/
theorem decode_encode_untyped :
    (∀ raw changes, decode none raw = .ok changes → decode none (encode changes) = .ok changes) ∧
    ∀ changes, decode none (encode changes) = .ok changes ↔ ∀ change ∈ changes,
      (∀ keys, change.keys? = some keys → keys ≠ ∅) ∧ (∀ t, ¬change.Carries (.timestamp t)) ∧
        ∀ d, change.Carries (.float d) → d.isFinite = true := by
  constructor
  · intro raw changes read
    cases raw with
    | array raws =>
      rw [decode, decodeRecords_eq_ok_iff] at read
      refine decode_encode_eq_ok_iff.2 fun change member => ?_
      obtain ⟨record, -, read⟩ := exists_mem_of_forall₂ read.flip member
      exact decodeRecord_untyped_iff.2 (untyped_of_decodeRecord read)
    | null | bool | number | string | object => cases read
  · intro changes
    rw [decode_encode_eq_ok_iff]
    refine forall₂_congr fun change _ => ?_
    rw [decodeRecord_untyped_iff, keyed_none_iff]
    refine and_congr_right fun _ => ?_
    simp only [Value.plain_iff]
    grind

end Change

namespace Journal

def entryName : EntityName := ⟨"entry", by decide +kernel⟩

def entry : Definition where
  name := entryName
  key := "id"
  fields := [⟨"id", .integer, true, none, none⟩, ⟨"at", .timestamp, false, none, none⟩,
    ⟨"weight", .float, false, none, none⟩]
  relationships := []
  parameters := [⟨"before", .timestamp, .null, none⟩]
  readOnly := false
  description := none

def catalog : Catalog where
  entities := .ofList [("entry", entry)]
  registered _ _ found := by
    cases List.mem_singleton.1 (mem_of_getElem?_ofList found)
    exact ⟨rfl, by decide +kernel⟩

/-- The middle of the leap second that ended the year 2016. -/
def leapSecond : Timestamp := ⟨1483228799, 1500, by decide, by decide⟩

def minusZero : Double := ⟨9223372036854775808⟩

def columns (entries : List (String × Value)) : Columns := .ofList entries

/-- One change of each kind. -/
def changes : List Change :=
  [.insert entryName
      (columns [("id", .integer 1), ("at", .timestamp leapSecond), ("weight", .float minusZero)]),
    .update entryName (columns [("id", .integer 1)]) (columns [("at", .null)]),
    .delete entryName (columns [("id", .integer 1)]),
    .command entryName (columns [("before", .timestamp leapSecond)]) (some "prune")]

theorem columns_typedAs {types : String → Option DataType} {entries : List (String × Value)}
    (each : ∀ entry ∈ entries, (types entry.1).any (DataType.admits · entry.2) = true) :
    Change.TypedAs types (columns entries) :=
  fun _ _ held => (Option.any_eq_true _ _).1 (each _ (mem_of_getElem?_ofList held))

theorem exchangeable_of_columns {entries : List (String × Value)} {value : Value}
    (each : ∀ entry ∈ entries, entry.2.Exchangeable)
    (held : ∃ name : String, (columns entries)[name]? = some value) : value.Exchangeable :=
  held.elim fun _ found => each _ (mem_of_getElem?_ofList found)

theorem changes_conform {change : Change} (member : change ∈ changes) :
    ∃ definition, catalog.entities[change.entity.text]? = some definition ∧ change.Conforms definition := by
  have keys : Change.TypedAs (Change.fieldTypes entry) (columns [("id", .integer 1)]) :=
    columns_typedAs (by decide)
  have identifies : Change.Identifies entry (columns [("id", .integer 1)]) := ⟨.integer 1, rfl, rfl⟩
  simp only [changes, List.mem_cons, List.not_mem_nil, or_false] at member
  rcases member with rfl | rfl | rfl | rfl
  · exact ⟨entry, rfl, columns_typedAs (by decide)⟩
  · exact ⟨entry, rfl, keys, identifies, columns_typedAs (by decide)⟩
  · exact ⟨entry, rfl, keys, identifies⟩
  · exact ⟨entry, rfl, columns_typedAs (by decide)⟩

theorem changes_exchangeable {change : Change} (member : change ∈ changes) {value : Value}
    (carried : change.Carries value) : value.Exchangeable := by
  simp only [changes, List.mem_cons, List.not_mem_nil, or_false] at member
  rcases member with rfl | rfl | rfl | rfl
  · exact exchangeable_of_columns (by decide) carried
  · exact carried.elim (exchangeable_of_columns (by decide)) (exchangeable_of_columns (by decide))
  · exact exchangeable_of_columns (by decide) carried
  · exact exchangeable_of_columns (by decide) carried

theorem changes_read_back : Change.decode (some catalog) (Change.encode changes) = .ok changes :=
  Change.decode_encode (fun _ => changes_conform) fun _ member _ => changes_exchangeable member

/-- A batch with one entry, its moment in milliseconds since the epoch and its weight an integer. -/
def batch (millis : Int64) : Json :=
  .array [.object [("kind", .string "Insert"), ("entity", .string "entry"),
    ("data", .object [("at", .ofInt64 millis), ("id", .ofInt64 1), ("weight", .ofInt64 2)])]]

/-- What is read from a batch with one entry. -/
def logged (t : Timestamp) : List Change :=
  [.insert entryName (columns [("at", .timestamp t), ("id", .integer 1), ("weight", .float (.ofInt 2))])]

/-- The last millisecond of the year 9999. -/
def lastMoment : Timestamp := ⟨253402300799, 999, by decide, by decide⟩

def nextMoment : Timestamp := ⟨253402300800, 0, by decide, by decide⟩

theorem last_moment_read_back :
    Change.decode (some catalog) (batch 253402300799999) = .ok (logged lastMoment) ∧
      Change.decode (some catalog) (Change.encode (logged lastMoment)) = .ok (logged lastMoment) := by
  have read : Change.decode (some catalog) (batch 253402300799999) = .ok (logged lastMoment) := by
    decide +kernel
  refine ⟨read, (Change.decode_encode_iff read).2 ?_⟩
  intro change member t carried
  cases List.mem_singleton.1 member
  exact exchangeable_of_columns (by decide) carried

/-- The year after it is read from milliseconds, but written with a sign that the reader refuses. -/
theorem next_moment_not_read_back :
    Change.decode (some catalog) (batch 253402300800000) = .ok (logged nextMoment) ∧
      Change.decode (some catalog) (Change.encode (logged nextMoment)) =
        .error (.record 0 (.invalidTimestamp "entry" "at" "\"+10000-01-01T00:00:00.000Z\"")) := by
  decide +kernel

/-- A batch with an integer beyond the signed words, a member that no reader looks at and sections left out. -/
def loose : Json :=
  .array [.object [("kind", .string "Insert"), ("entity", .string "entry"), ("author", .array []),
      ("data", .object [("at", .null), ("id", .ofInt64 1),
        ("weight", .number (.integer 9223372036854775808 (by decide)))])],
    .object [("kind", .string "UPDATE"), ("entity", .string "entry"), ("keys", .object [("id", .ofInt64 1)])],
    .object [("kind", .string "command"), ("entity", .string "entry"), ("filter", .null)]]

/-- What is read from it. -/
def loosely : List Change :=
  [.insert entryName
      (columns [("at", .null), ("id", .integer 1), ("weight", .float (.ofInt 9223372036854775808))]),
    .update entryName (columns [("id", .integer 1)]) (columns []), .command entryName (columns []) none]

theorem loose_read_back : Change.decode none loose = .ok loosely ∧
    Change.decode none (Change.encode loosely) = .ok loosely ∧
    Change.decode none (Change.encode (logged lastMoment)) ≠ .ok (logged lastMoment) := by
  have read : Change.decode none loose = .ok loosely := by decide +kernel
  refine ⟨read, Change.decode_encode_untyped.1 loose loosely read, fun back => ?_⟩
  have timeless := ((Change.decode_encode_untyped.2 _).1 back _ List.mem_cons_self).2.1
  exact timeless lastMoment ⟨"at", rfl⟩

end Journal
end EntityGraph
