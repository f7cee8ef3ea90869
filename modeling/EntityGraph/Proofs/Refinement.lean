import EntityGraph.Proofs.RoundTrips

/-! # Typed reading refines plain reading

What a typed reader accepts is also read without a catalog, and the two results differ only in their
values: each typed value is the plain one converted to the type that its field or parameter declares. -/
namespace EntityGraph
namespace Change
variable {entity name : String} {types : String → Option DataType} {record : List (String × Json)}
  {catalog : Catalog} {definition : Definition}

/-- Columns of the same names, each typed value converted from the plain one. -/
def Revived (types : String → Option DataType) (plain typed : Columns) : Prop :=
  ∀ name : String, Option.Rel
    (fun before after => ∃ type, types name = some type ∧ type.coerce? before = some after)
    plain[name]? typed[name]?

/-- Two readings of one record, without a catalog and with it. -/
inductive Refines (catalog : Catalog) : Change → Change → Prop
  | insert {entity : EntityName} {definition : Definition} {plain typed : Columns}
      (registered : catalog.entities[entity.text]? = some definition)
      (data : Revived (fieldTypes definition) plain typed) :
      Refines catalog (.insert entity plain) (.insert entity typed)
  | update {entity : EntityName} {definition : Definition} {plainKeys typedKeys plain typed : Columns}
      (registered : catalog.entities[entity.text]? = some definition)
      (keys : Revived (fieldTypes definition) plainKeys typedKeys)
      (data : Revived (fieldTypes definition) plain typed) :
      Refines catalog (.update entity plainKeys plain) (.update entity typedKeys typed)
  | delete {entity : EntityName} {definition : Definition} {plain typed : Columns}
      (registered : catalog.entities[entity.text]? = some definition)
      (keys : Revived (fieldTypes definition) plain typed) :
      Refines catalog (.delete entity plain) (.delete entity typed)
  | command {entity : EntityName} {definition : Definition} {plain typed : Columns} {filter : Option String}
      (registered : catalog.entities[entity.text]? = some definition)
      (parameters : Revived (parameterTypes definition) plain typed) :
      Refines catalog (.command entity plain filter) (.command entity typed filter)

theorem revived_empty : Revived types ∅ ∅ := by
  intro name
  simp

/-- Typed columns have the names of the plain ones. -/
theorem Revived.isNone_iff {plain typed : Columns} (revived : Revived types plain typed) (name : String) :
    plain[name]? = none ↔ typed[name]? = none := by
  have related := revived name
  generalize plain[name]? = before at related ⊢
  generalize typed[name]? = after at related ⊢
  cases related <;> simp

theorem decodeEach_refines {members : List (String × Json)} {typed : List (String × Value)}
    (read : decodeEach entity (some types) members = .ok typed) :
    ∃ plain, decodeEach entity none members = .ok plain ∧
      List.Forall₂ (fun before after => before.1 = after.1 ∧
        ∃ type, types before.1 = some type ∧ type.coerce? before.2 = some after.2) plain typed := by
  simp only [decodeEach_eq_ok_iff] at read ⊢
  induction read with
  | nil => exact ⟨[], .nil, .nil⟩
  | @cons member entry _ _ head _ ih =>
    obtain ⟨rest, plainly, related⟩ := ih
    obtain ⟨same, read⟩ := head
    obtain ⟨type, declared, revived⟩ := decodeValue_eq_ok_iff.1 read
    obtain ⟨value, read, converted⟩ := Option.bind_eq_some_iff.1 revived
    refine ⟨(member.1, value) :: rest, .cons ⟨rfl, ?_⟩ plainly, .cons ⟨same, type, declared, converted⟩ related⟩
    simp [decodeValue, read]

theorem decodeSection_refines {typed : Columns}
    (read : decodeSection entity (some types) record name = .ok typed) :
    ∃ plain, decodeSection entity none record name = .ok plain ∧ Revived types plain typed := by
  unfold decodeSection at read ⊢
  split at read
  · next absent =>
    cases read
    simpa only [absent] using ⟨∅, rfl, revived_empty⟩
  · next null =>
    cases read
    simpa only [null] using ⟨∅, rfl, revived_empty⟩
  · next members written =>
    obtain ⟨entries, each, same⟩ := bind_eq_ok_iff.1 read
    cases same
    obtain ⟨plain, plainly, related⟩ := decodeEach_refines each
    simp only [plainly]
    exact ⟨_, rfl, rel_getElem?_ofList (R := fun name before after =>
      ∃ type, types name = some type ∧ type.coerce? before = some after) related⟩
  · cases read

theorem decodeKeys_refines {typed : Columns} (read : decodeKeys (some definition) entity record = .ok typed) :
    ∃ plain, decodeKeys none entity record = .ok plain ∧ Revived (fieldTypes definition) plain typed := by
  obtain ⟨read, value, held, -⟩ := decodeKeys_eq_ok_iff.1 read
  obtain ⟨plain, plainly, revived⟩ := decodeSection_refines read
  have named : plain ≠ ∅ := by
    rintro rfl
    have absent := (revived.isNone_iff definition.key).1 (by simp)
    simp [held] at absent
  refine ⟨plain, ?_, revived⟩
  simp [decodeKeys, plainly, lacksKey, named, bind, Except.bind]

theorem decodeBody_refines {entity : EntityName} {kind : ChangeKind} {typed : Change}
    (registered : catalog.entities[entity.text]? = some definition)
    (read : decodeBody entity (some definition) record kind = .ok typed) :
    ∃ plain, decodeBody entity none record kind = .ok plain ∧ Refines catalog plain typed := by
  cases kind with
  | insert =>
    obtain ⟨data, readData, rfl⟩ := decodeBody_insert_iff.1 read
    obtain ⟨plain, plainly, revived⟩ := decodeSection_refines readData
    exact ⟨_, decodeBody_insert_iff.2 ⟨plain, plainly, rfl⟩, .insert registered revived⟩
  | update =>
    obtain ⟨keys, readKeys, data, readData, rfl⟩ := decodeBody_update_iff.1 read
    obtain ⟨plainKeys, plainlyKeys, revivedKeys⟩ := decodeKeys_refines readKeys
    obtain ⟨plain, plainly, revived⟩ := decodeSection_refines readData
    exact ⟨_, decodeBody_update_iff.2 ⟨plainKeys, plainlyKeys, plain, plainly, rfl⟩,
      .update registered revivedKeys revived⟩
  | delete =>
    obtain ⟨keys, readKeys, rfl⟩ := decodeBody_delete_iff.1 read
    obtain ⟨plain, plainly, revived⟩ := decodeKeys_refines readKeys
    exact ⟨_, decodeBody_delete_iff.2 ⟨plain, plainly, rfl⟩, .delete registered revived⟩
  | command =>
    obtain ⟨filter, readFilter, parameters, readParameters, rfl⟩ := decodeBody_command_iff.1 read
    obtain ⟨plain, plainly, revived⟩ := decodeSection_refines readParameters
    exact ⟨_, decodeBody_command_iff.2 ⟨filter, readFilter, plain, plainly, rfl⟩, .command registered revived⟩

theorem decodeRecord_refines {raw : Json} {typed : Change}
    (read : decodeRecord (some catalog) raw = .ok typed) :
    ∃ plain, decodeRecord none raw = .ok plain ∧ Refines catalog plain typed := by
  cases raw with
  | object record =>
    obtain ⟨kind, kindRead, read⟩ := bind_eq_ok_iff.1 read
    obtain ⟨⟨entity, known⟩, named, read⟩ := bind_eq_ok_iff.1 read
    obtain ⟨written, definition, registered, rfl⟩ := decodeEntity_eq_ok_iff.1 named
    have plainlyNamed : decodeEntity none record = .ok (entity, none) := by
      simp [decodeEntity, written, EntityName.ofString_text]
    have body : decodeRecord none (.object record) = decodeBody entity none record kind := by
      simp [decodeRecord, kindRead, plainlyNamed, bind, Except.bind]
    rw [body]
    exact decodeBody_refines registered read
  | null | bool | number | string | array => cases read

/-- What a typed reader accepts is read without a catalog, change by change as the typed changes before
their values were converted. -/
theorem decode_refines {raw : Json} {typed : List Change} (read : decode (some catalog) raw = .ok typed) :
    ∃ plain, decode none raw = .ok plain ∧ List.Forall₂ (Refines catalog) plain typed := by
  cases raw with
  | array raws =>
    simp only [decode, decodeRecords_eq_ok_iff] at read ⊢
    induction read with
    | nil => exact ⟨[], .nil, .nil⟩
    | cons head _ ih =>
      obtain ⟨plain, plainly, refines⟩ := decodeRecord_refines head
      obtain ⟨rest, others, related⟩ := ih
      exact ⟨plain :: rest, .cons plainly others, .cons refines related⟩
  | null | bool | number | string | object => cases read

end Change

namespace Journal

/-- The batch with one entry is read twice: its moment and its weight are integers until they are
converted. -/
theorem batch_refines :
    Change.decode (some catalog) (batch 253402300799999) = .ok (logged lastMoment) ∧
      ∃ plain, Change.decode none (batch 253402300799999) = .ok plain ∧
        List.Forall₂ (Change.Refines catalog) plain (logged lastMoment) := by
  have read : Change.decode (some catalog) (batch 253402300799999) = .ok (logged lastMoment) := by
    decide +kernel
  exact ⟨read, Change.decode_refines read⟩

end Journal
end EntityGraph
