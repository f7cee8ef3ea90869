import EntityGraph.Proofs.Parameters

/-! # Rows through any writes

A row is written to in place. A write that is accepted changes one field, one that is refused changes nothing,
and neither loses a field or its type. So whatever was written to it, a row of a valid definition holds a value
of the declared type in every declared field, has a key unless its key field is null, and is built again from
its own columns. -/
namespace EntityGraph

namespace Row
variable {row : Row} {definition : Definition} {field : String} {value : Value}

/-- A row of a definition after any writes, accepted or refused. -/
inductive History (definition : Definition) : Row → Prop
  | fresh (identity : Nat) : History definition (fresh definition identity)
  | ofColumns {identity : Nat} {columns : Columns} {row : Row} :
      Row.ofColumns definition identity columns = .ok row → History definition row
  | set {row : Row} (field : String) (value : Value) :
      History definition row → History definition (row.set field value).2

/-- Writes keep the definition of a row and the types of its values. -/
theorem History.fits (h : History definition row) (valid : definition.validate = .ok ()) :
    row.definition = definition ∧ row.Typed := by
  induction h with
  | fresh identity => exact ⟨rfl, fresh_typed valid⟩
  | ofColumns built =>
    obtain ⟨columns, -, rfl⟩ := ofColumns_eq_ok_iff.1 built
    exact ⟨rfl, ofColumns_typed built⟩
  | set field value _ ih => exact ⟨(set_definition ..).trans ih.1, ih.2.set field value⟩

end Row

namespace Definition
variable {definition : Definition} {columns : Columns}

/-- Only null is no key. -/
theorem Fits.keyOf?_eq_none_iff (h : definition.Fits columns) (valid : definition.Valid) :
    definition.keyOf? columns = none ↔ columns[definition.key]? = some .null := by
  obtain ⟨field, declared, keyed, -⟩ := valid.key
  obtain ⟨value, held⟩ := h.value_of_field? declared
  have read : definition.keyOf? columns = Key.ofValue? value := by simp [keyOf?, held]
  rw [read, held, Option.some.injEq]
  constructor
  · intro keyless
    by_contra present
    rw [← Value.isNull_iff, Bool.not_eq_true] at present
    obtain ⟨key, isKey⟩ := DataType.key_of_admits keyed (h.admits declared held) present
    rw [keyless] at isKey
    cases isKey
  · rintro rfl
    rfl

/-- A row is built if and only if its columns are declared and their values convert. -/
theorem exists_ofColumns_iff (valid : definition.validate = .ok ()) (identity : Nat) :
    (∃ row, Row.ofColumns definition identity columns = .ok row) ↔
      ∀ (name : String) (value : Value), columns[name]? = some value → ∃ field ∈ definition.fields,
        field.name = name ∧ (field.type.coerce? value).isSome = true := by
  constructor
  · rintro ⟨row, built⟩ name value held
    obtain ⟨result, built, -⟩ := Row.ofColumns_eq_ok_iff.1 built
    obtain ⟨stored, converted, -⟩ := rowColumns_given built held
    obtain ⟨field, declared, converted⟩ := coerceField_eq_ok_iff.1 converted
    obtain ⟨declared, named⟩ := mem_of_find?_name declared
    exact ⟨field, declared, named, by simp [converted]⟩
  · intro each
    obtain ⟨entries, converted⟩ : ∃ entries, definition.coerceAll columns.toList = .ok entries := by
      refine exists_coerceAll fun ⟨name, value⟩ member => ?_
      obtain ⟨field, declared, rfl, converts⟩ :=
        each name value (Std.ExtTreeMap.mem_toList_iff_getElem?_eq_some.1 member)
      obtain ⟨stored, converted⟩ := Option.isSome_iff_exists.1 converts
      exact ⟨stored, coerceField_eq_ok_iff.2 ⟨field, field?_of_mem valid declared, converted⟩⟩
    exact ⟨_, Row.ofColumns_eq_ok_iff.2 ⟨_, bind_eq_ok_iff.2 ⟨entries, converted, rfl⟩, rfl⟩⟩

/-- A row with any history holds the declared fields, each with a value of its type, has a key unless its key
field is null, is left as it is by a refused write, and is built again from its own columns. Columns make a row
if and only if they are declared and convert to their types. -/
theorem rows_complete (valid : definition.validate = .ok ()) :
    (∀ row, Row.History definition row →
      (∀ name, name ∈ row.columns ↔ ∃ field ∈ definition.fields, field.name = name) ∧
      (∀ field ∈ definition.fields, ∃ value, row.get? field.name = some value ∧
        field.type.admits value = true) ∧
      (row.key? = none ↔ row.get? definition.key = some .null) ∧
      (∀ field value e, (row.set field value).1 = .error e → (row.set field value).2 = row) ∧
      ∀ identity, Row.ofColumns definition identity row.columns = .ok ⟨definition, identity, row.columns⟩) ∧
    ∀ identity (columns : Columns), (∃ row, Row.ofColumns definition identity columns = .ok row) ↔
      ∀ (name : String) (value : Value), columns[name]? = some value → ∃ field ∈ definition.fields,
        field.name = name ∧ (field.type.coerce? value).isSome = true := by
  refine ⟨fun row history => ?_, fun identity columns => exists_ofColumns_iff valid identity⟩
  obtain ⟨rfl, fits⟩ := history.fits valid
  refine ⟨fun name => fits.mem_iff, fun field declared => ?_, fits.keyOf?_eq_none_iff (valid_of_validate valid),
    fun field value e => Row.set_of_error, fun identity => ?_⟩
  · obtain ⟨value, held⟩ := fits.value_of_field? (field?_of_mem valid declared)
    exact ⟨value, held, fits.admits (field?_of_mem valid declared) held⟩
  · exact Row.ofColumns_eq_ok_iff.2 ⟨row.columns, Definition.Fits.rowColumns fits, rfl⟩

end Definition

namespace Parcel

/-- A parcel that was given its weight as a whole number and then lost it. -/
def unweighed : Row := ((⟨definition .float, 0, stored⟩ : Row).set "weight" .null).2

theorem unweighed_history : Row.History (definition .float) unweighed :=
  .set "weight" .null (.ofColumns definition_stores.2.1)

theorem unweighed_complete :
    unweighed.get? "weight" = some .null ∧ (unweighed.key? = none ↔ unweighed.get? "id" = some .null) ∧
      (unweighed.set "id" .null).1 = .error (.nullValue "parcel" "id") ∧
      (unweighed.set "id" .null).2 = unweighed ∧
      Row.ofColumns (definition .float) 1 unweighed.columns = .ok ⟨definition .float, 1, unweighed.columns⟩ := by
  have evaluated : unweighed.get? "weight" = some .null ∧
      (unweighed.set "id" .null).1 = .error (.nullValue "parcel" "id") := by
    decide +kernel
  obtain ⟨-, -, keyed, refusal, again⟩ :=
    (Definition.rows_complete definition_valid.1).1 unweighed unweighed_history
  exact ⟨evaluated.1, keyed, evaluated.2, refusal _ _ _ evaluated.2, again 1⟩

end Parcel
end EntityGraph
