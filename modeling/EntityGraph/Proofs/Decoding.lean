import EntityGraph.Change.Decoder
import EntityGraph.Proofs.Timestamps
import EntityGraph.Proofs.Typing

/-! # What a reader accepts

A value of a declared type is read back from its written form exactly when it has one of its own. A
section, a record and a batch are read by reading their parts, and what typed reading accepts is declared,
typed and, if it is a double, finite: the integers that widen to doubles are far below infinity. -/
namespace EntityGraph

namespace Double

theorem roundEven_le {num den : Nat} : roundEven num den ≤ num / den + 1 := by
  unfold roundEven
  dsimp only
  split_ifs <;> omega

theorem magnitude_ofMagnitude {negative : Bool} {m : Nat} (small : m < signBit) :
    (ofMagnitude negative m).magnitude = m := by
  unfold signBit at small
  unfold ofMagnitude magnitude signBit
  cases negative <;> simp [UInt64.toNat_ofNat] <;> omega

theorem lastBit_nat {n : Nat} (positive : n ≠ 0) : lastBit n 1 = (n.log2 : Int) - 52 := by
  have leads : 2 ^ n.log2 ≤ n := Nat.log2_self_le positive
  have one : Nat.log2 1 = 0 := by decide
  have exact : 1 <<< ((n.log2 : Int) - (0 : Nat)).toNat ≤ n <<< (-((n.log2 : Int) - (0 : Nat))).toNat := by
    simpa [Nat.shiftLeft_eq] using leads
  unfold lastBit
  simp only [one, if_pos exact]
  omega

/-- The significand of a natural has no more bits than a datum holds, or is the power of two above. -/
theorem significand_nat_le {n : Nat} :
    roundEven (n <<< (-((n.log2 : Int) - 52)).toNat) (1 <<< ((n.log2 : Int) - 52).toNat) ≤ 2 * hiddenBit := by
  have below : n < 2 ^ (n.log2 + 1) := Nat.lt_log2_self
  have rounded := @roundEven_le (n <<< (-((n.log2 : Int) - 52)).toNat) (1 <<< ((n.log2 : Int) - 52).toNat)
  have quotient : n <<< (-((n.log2 : Int) - 52)).toNat / 1 <<< ((n.log2 : Int) - 52).toNat < 2 ^ 53 := by
    rw [Nat.shiftLeft_eq, Nat.shiftLeft_eq, Nat.one_mul]
    refine Nat.div_lt_of_lt_mul ?_
    rw [← Nat.pow_add]
    by_cases wide : 52 ≤ n.log2
    · have whole : (-((n.log2 : Int) - 52)).toNat = 0 := by omega
      have width : ((n.log2 : Int) - 52).toNat + 53 = n.log2 + 1 := by omega
      rw [whole, width]
      simpa using below
    · have width : ((n.log2 : Int) - 52).toNat + 53 = n.log2 + 1 + (-((n.log2 : Int) - 52)).toNat := by omega
      rw [width, Nat.pow_add]
      exact Nat.mul_lt_mul_of_pos_right below (Nat.two_pow_pos _)
  unfold hiddenBit
  omega

/-- Every integer whose magnitude fits a word has a finite datum nearest to it. -/
theorem ofInt_isFinite {n : Int} (fits : n.natAbs < UInt64.size) : (ofInt n).isFinite = true := by
  have bound : roundRatio n.natAbs 1 < infinityBits := by
    unfold roundRatio
    split_ifs with zero
    · decide
    · have top : n.natAbs.log2 < 64 := (Nat.log2_lt zero).2 fits
      have significand := @significand_nat_le n.natAbs
      simp only [lastBit_nat zero]
      have exponent : ((n.natAbs.log2 : Int) - 52 + 1074).toNat ≤ 1085 := by omega
      have shifted : ((n.natAbs.log2 : Int) - 52 + 1074).toNat <<< 52 ≤ 1085 * 2 ^ 52 := by
        rw [Nat.shiftLeft_eq]
        exact Nat.mul_le_mul_right _ exponent
      refine Nat.lt_of_le_of_lt (Nat.min_le_left _ _) ?_
      unfold hiddenBit at significand
      unfold infinityBits
      omega
  have small : roundRatio n.natAbs 1 < signBit := Nat.lt_trans bound (by decide)
  unfold isFinite ofInt
  rw [magnitude_ofMagnitude small]
  simpa using bound

theorem ofInt_int64_isFinite (n : Int64) : (ofInt n.toInt).isFinite = true := by
  refine ofInt_isFinite ?_
  have lower := n.minValue_le_toInt
  have upper := n.toInt_lt
  have least : Int64.minValue.toInt = -9223372036854775808 := by decide
  have words : UInt64.size = 18446744073709551616 := rfl
  omega

end Double

namespace Value
variable {type : DataType} {value : Value}

/-- Values that have a written form of their own: doubles must be finite, and the years of moments must
have four digits. -/
def Exchangeable : Value → Prop
  | .float d => d.isFinite = true
  | .timestamp t => t.Exchangeable
  | _ => True

instance : DecidablePred Exchangeable
  | .float d => inferInstanceAs (Decidable (d.isFinite = true))
  | .timestamp t => inferInstanceAs (Decidable t.Exchangeable)
  | .null | .text _ | .integer _ | .boolean _ => .isTrue trivial

theorem ofJson?_ofInt64 (n : Int64) : ofJson? (.ofInt64 n) = some (.integer n) := by
  have fits : n.toInt ≤ Int64.maxValue.toInt := n.toInt_le
  simp [Json.ofInt64, ofJson?, fits]

/-- A value of a declared type is revived from its written form if and only if it has one of its own. -/
theorem revive_toJson_iff (typed : type.admits value = true) :
    (ofJson? value.toJson).bind type.coerce? = some value ↔ value.Exchangeable := by
  have settled : type.coerce? value = some value := DataType.coerce?_of_admits typed
  cases value with
  | null => simpa [toJson, ofJson?, Exchangeable] using settled
  | text s => simpa [toJson, ofJson?, Exchangeable] using settled
  | boolean b => simpa [toJson, ofJson?, Exchangeable] using settled
  | integer n => simpa [toJson, ofJson?_ofInt64, Exchangeable] using settled
  | float d =>
    by_cases finite : d.isFinite = true
    · simpa [toJson, Json.ofDouble?, ofJson?, finite, Exchangeable] using settled
    · -- it is written as null, which every type admits and leaves as it is
      have empty : type.coerce? .null = some .null := DataType.coerce?_of_admits type.admits_null
      simp [toJson, Json.ofDouble?, ofJson?, finite, Exchangeable, empty]
  | timestamp t =>
    have moment : type = .timestamp := by cases type <;> simp_all [DataType.admits]
    subst moment
    have read : DataType.timestamp.coerce? (.text (String.ofList t.text)) =
        Value.timestamp <$> Timestamp.read? t.text := by
      simp [DataType.coerce?, DataType.admits, readTimestamp?]
    simp [toJson, ofJson?, Exchangeable, read, Timestamp.read?_text_iff]

/-- A double that is read as such, or as an integer too long for a signed word, is finite. -/
theorem finite_of_ofJson? {raw : Json} {d : Double} (read : ofJson? raw = some (.float d)) :
    d.isFinite = true := by
  cases raw with
  | number n =>
    cases n with
    | integer n fits =>
      simp only [ofJson?, Option.some.injEq] at read
      split_ifs at read
      cases read
      refine Double.ofInt_isFinite ?_
      have least : Int64.minValue.toInt = -9223372036854775808 := by decide
      have words : UInt64.size = 18446744073709551616 := rfl
      omega
    | double d finite =>
      cases read
      exact finite
  | null | bool | string | array | object => cases read

/-- Only null is read as null. -/
theorem isNull_of_ofJson? {raw : Json} {value : Value} (read : ofJson? raw = some value) :
    value.isNull = true ↔ raw = .null := by
  cases raw with
  | number n =>
    simp only [reduceCtorEq, iff_false]
    cases n <;> cases read <;> simp only [isNull, Bool.false_eq_true, not_false_eq_true]
    split_ifs <;> simp
  | null | bool | string => cases read; simp [isNull]
  | array | object => cases read

/-- A double that is revived is finite. -/
theorem finite_of_revive {raw : Json} {d : Double}
    (revived : (ofJson? raw).bind type.coerce? = some (.float d)) : d.isFinite = true := by
  obtain ⟨plain, read, coerced⟩ := Option.bind_eq_some_iff.1 revived
  unfold DataType.coerce? at coerced
  split at coerced
  · cases coerced
    exact finite_of_ofJson? read
  · split at coerced
    · cases coerced
      exact Double.ofInt_int64_isFinite _
    · obtain ⟨t, -, same⟩ := Option.map_eq_some_iff.1 coerced
      cases same
    · obtain ⟨t, -, same⟩ := Option.map_eq_some_iff.1 coerced
      cases same
    · cases coerced

/-- A scalar of the exchange format: it is read back from what is written of it, whatever its declared type. -/
def Plain (value : Value) : Prop := ofJson? value.toJson = some value

theorem plain_float {d : Double} (finite : d.isFinite = true) : Plain (.float d) := by
  simp [Plain, toJson, Json.ofDouble?, finite, ofJson?]

/-- No JSON value is read as a moment before its type is known. -/
theorem ofJson?_ne_timestamp (raw : Json) (t : Timestamp) : ofJson? raw ≠ some (.timestamp t) := by
  cases raw with
  | number n =>
    cases n with
    | integer n fits =>
      simp only [ofJson?]
      split_ifs <;> simp
    | double d finite => simp [ofJson?]
  | null | bool | string | array | object => simp [ofJson?]

/-- Only moments and doubles that are not finite need a type. -/
theorem plain_iff : value.Plain ↔ (∀ t, value ≠ .timestamp t) ∧ ∀ d, value = .float d → d.isFinite = true := by
  constructor
  · intro plain
    refine ⟨fun t same => ?_, fun d same => ?_⟩
    · exact ofJson?_ne_timestamp _ t (same ▸ plain)
    · exact finite_of_ofJson? (same ▸ plain)
  · rintro ⟨timeless, finite⟩
    cases value with
    | float d => exact plain_float (finite d rfl)
    | integer n => exact ofJson?_ofInt64 n
    | null | text | boolean => rfl
    | timestamp t => exact absurd rfl (timeless t)

theorem plain_of_ofJson? {raw : Json} {value : Value} (read : ofJson? raw = some value) : value.Plain :=
  plain_iff.2 ⟨fun t same => ofJson?_ne_timestamp raw t (same ▸ read),
    fun _ same => finite_of_ofJson? (same ▸ read)⟩

end Value

namespace Change
variable {entity name : String} {types : String → Option DataType} {record : List (String × Json)}
  {columns : Columns}

/-- Columns of declared names, each value of its declared type. -/
def TypedAs (types : String → Option DataType) (columns : Columns) : Prop :=
  ∀ (name : String) (value : Value), columns[name]? = some value →
    ∃ type, types name = some type ∧ type.admits value = true

theorem decodeValue_eq_ok_iff {field : String} {raw : Json} {value : Value} :
    decodeValue entity (some types) field raw = .ok value ↔
      ∃ type, types field = some type ∧ (Value.ofJson? raw).bind type.coerce? = some value := by
  unfold decodeValue
  cases read : Value.ofJson? raw with
  | none => simp
  | some plain =>
    cases declared : types field with
    | none => simp [declared]
    | some type =>
      simp only [declared, reviveValue, Option.bind_some, Option.some.injEq, exists_eq_left']
      cases type.coerce? plain with
      | none => simp only [reduceCtorEq, iff_false]; split_ifs <;> simp
      | some result => simp

theorem decodeValue_untyped_iff {field : String} {raw : Json} {value : Value} :
    decodeValue entity none field raw = .ok value ↔ Value.ofJson? raw = some value := by
  unfold decodeValue
  cases Value.ofJson? raw <;> simp

/-- Members are read one by one. -/
theorem decodeEach_eq_ok_iff {declared : Declared} {members : List (String × Json)}
    {entries : List (String × Value)} :
    decodeEach entity declared members = .ok entries ↔
      List.Forall₂ (fun member entry => member.1 = entry.1 ∧
        decodeValue entity declared member.1 member.2 = .ok entry.2) members entries := by
  induction members generalizing entries with
  | nil => cases entries <;> simp [decodeEach]
  | cons member members ih =>
    obtain ⟨field, raw⟩ := member
    simp only [decodeEach, bind_eq_ok_iff, ih]
    constructor
    · rintro ⟨value, read, rest, others, same⟩
      cases same
      exact .cons ⟨rfl, read⟩ others
    · intro all
      cases all with
      | @cons _ entry _ rest head tail =>
        obtain ⟨place, value⟩ := entry
        obtain ⟨rfl, read⟩ := head
        exact ⟨value, read, rest, tail, rfl⟩

/-- A value of a section was read from some member. -/
theorem exists_of_decodeSection {declared : Declared} {field : String} {value : Value}
    (read : decodeSection entity declared record name = .ok columns) (held : columns[field]? = some value) :
    ∃ raw, decodeValue entity declared field raw = .ok value := by
  unfold decodeSection at read
  split at read
  · cases read
    simp at held
  · cases read
    simp at held
  · next members _ =>
    obtain ⟨entries, each, same⟩ := bind_eq_ok_iff.1 read
    cases same
    obtain ⟨⟨place, raw⟩, -, rfl, revived⟩ :=
      exists_mem_of_forall₂ (decodeEach_eq_ok_iff.1 each).flip (mem_of_getElem?_ofList held)
    exact ⟨raw, revived⟩
  · cases read

/-- A written section is read back if and only if each of its values is. -/
theorem decodeSection_columnsJson_iff (entity : String) (declared : Declared)
    (written : Json.get? record name = some (columnsJson columns)) :
    decodeSection entity declared record name = .ok columns ↔
      ∀ (field : String) (value : Value), columns[field]? = some value →
        decodeValue entity declared field value.toJson = .ok value := by
  simp only [decodeSection, written, columnsJson, bind_eq_ok_iff, decodeEach_eq_ok_iff,
    List.forall₂_map_left_iff]
  constructor
  · rintro ⟨entries, each, same⟩ field value held
    have same : Std.ExtTreeMap.ofList entries = columns := Except.ok.inj same
    obtain ⟨result, read, found⟩ := getElem?_ofList_of_forall₂
      (R := fun name value result => decodeValue entity declared name value.toJson = .ok result) each held
    rw [same, held, Option.some.injEq] at found
    exact found ▸ read
  · intro each
    refine ⟨columns.toList, List.forall₂_same.2 fun entry member => ⟨rfl, each entry.1 entry.2 ?_⟩, ?_⟩
    · exact Std.ExtTreeMap.mem_toList_iff_getElem?_eq_some.1 member
    · rw [ofList_toList]
      rfl

/-- Columns that hold a value in the key field. -/
def Identifies (definition : Definition) (keys : Columns) : Prop :=
  ∃ value, keys[definition.key]? = some value ∧ value.isNull = false

variable {catalog : Catalog} {definition : Definition} {change : Change}

theorem lacksKey_eq_false_iff {keys : Columns} :
    lacksKey (some definition) keys = false ↔ Identifies definition keys := by
  cases held : keys[definition.key]? <;> simp [lacksKey, Identifies, held, Value.isNull]

theorem decodeKeys_iff {known : Option Definition} {keys : Columns} : decodeKeys known entity record = .ok keys ↔
    decodeSection entity (known.map fieldTypes) record "keys" = .ok keys ∧ lacksKey known keys = false := by
  simp only [decodeKeys, bind_eq_ok_iff]
  constructor
  · rintro ⟨found, read, kept⟩
    split_ifs at kept with lacks
    cases kept
    exact ⟨read, by simpa using lacks⟩
  · rintro ⟨read, carries⟩
    exact ⟨keys, read, by simp [carries]⟩

theorem decodeKeys_eq_ok_iff {keys : Columns} : decodeKeys (some definition) entity record = .ok keys ↔
    decodeSection entity (some (fieldTypes definition)) record "keys" = .ok keys ∧
      Identifies definition keys := by
  rw [decodeKeys_iff, lacksKey_eq_false_iff, Option.map_some]

/-- A reader takes the name of a record as it is, and one with a catalog looks it up. -/
theorem decodeEntity_iff {reader : Option Catalog} {entity : EntityName} {known : Option Definition} :
    decodeEntity reader record = .ok (entity, known) ↔
      Json.get? record "entity" = some (.string entity.text) ∧
        known = (reader.bind fun catalog => catalog.entities[entity.text]?) ∧ known.isSome = reader.isSome := by
  unfold decodeEntity
  split
  · next raw written =>
    rw [written]
    cases named : EntityName.ofString raw with
    | error e =>
      have unnamed : raw ≠ entity.text := by
        rintro rfl
        rw [EntityName.ofString_text] at named
        cases named
      simp [unnamed]
    | ok name =>
      have same := EntityName.text_of_ofString named
      subst same
      have alike : name.text = entity.text ↔ name = entity := ⟨EntityName.ext, congrArg _⟩
      cases reader with
      | none => simp [alike]; grind
      | some catalog =>
        cases registered : catalog.entities[name.text]? with
        | none => simp [Catalog.get, registered]; grind
        | some definition => simp [Catalog.get, registered]; grind [EntityName.ext]
  · next other => grind

theorem decodeEntity_eq_ok_iff {entity : EntityName} {known : Option Definition} :
    decodeEntity (some catalog) record = .ok (entity, known) ↔
      Json.get? record "entity" = some (.string entity.text) ∧
        ∃ definition, catalog.entities[entity.text]? = some definition ∧ known = some definition := by
  rw [decodeEntity_iff, Option.bind_some, Option.isSome_some, Option.isSome_iff_exists]
  grind

section Bodies
variable {entity : EntityName} {known : Option Definition}

theorem decodeBody_insert_iff : decodeBody entity known record .insert = .ok change ↔
    ∃ data, decodeSection entity.text (known.map fieldTypes) record "data" = .ok data ∧
      change = .insert entity data := by
  simp only [decodeBody, bind_eq_ok_iff, pure_eq_ok_iff]

theorem decodeBody_update_iff : decodeBody entity known record .update = .ok change ↔
    ∃ keys, decodeKeys known entity.text record = .ok keys ∧
      ∃ data, decodeSection entity.text (known.map fieldTypes) record "data" = .ok data ∧
        change = .update entity keys data := by
  simp only [decodeBody, bind_eq_ok_iff, pure_eq_ok_iff]

theorem decodeBody_delete_iff : decodeBody entity known record .delete = .ok change ↔
    ∃ keys, decodeKeys known entity.text record = .ok keys ∧ change = .delete entity keys := by
  simp only [decodeBody, bind_eq_ok_iff, pure_eq_ok_iff]

theorem decodeBody_command_iff : decodeBody entity known record .command = .ok change ↔
    ∃ filter, decodeFilter record = .ok filter ∧
      ∃ parameters,
        decodeSection entity.text (known.map parameterTypes) record "parameters" = .ok parameters ∧
          change = .command entity parameters filter := by
  simp only [decodeBody, bind_eq_ok_iff, pure_eq_ok_iff]

end Bodies

theorem decodeRecords_eq_ok_iff {known : Option Catalog} {index : Nat} {raws : List Json}
    {changes : List Change} :
    decodeRecords known index raws = .ok changes ↔
      List.Forall₂ (fun raw change => decodeRecord known raw = .ok change) raws changes := by
  induction raws generalizing index changes with
  | nil => simp [decodeRecords, eq_comm]
  | cons raw raws ih =>
    simp only [decodeRecords, bind_eq_ok_iff, mapError_eq_ok_iff, ih, pure_eq_ok_iff]
    constructor
    · rintro ⟨change, read, rest, others, rfl⟩
      exact .cons read others
    · rintro (_ | ⟨read, others⟩)
      exact ⟨_, read, _, others, rfl⟩

end Change
end EntityGraph
