import EntityGraph.Proofs.Validity
import EntityGraph.Row

/-! # Typed rows

Columns fit a definition when they hold every declared field and nothing else, each value of the
declared type. Every way to build a row gives columns that fit, and columns that fit are built again
without a change. -/
namespace EntityGraph

theorem Value.isNull_iff {value : Value} : value.isNull = true ↔ value = .null := by
  cases value <;> simp [isNull]

namespace DataType

theorem coerce?_of_admits {type : DataType} {value : Value} (h : type.admits value) :
    type.coerce? value = some value := by
  simp [coerce?, h]

/-- A value is taken as it is, or one that is not null becomes another one of the type. -/
theorem coerce?_cases {type : DataType} {value result : Value} (h : type.coerce? value = some result) :
    (type.admits value ∧ result = value) ∨
      (type.admits result ∧ value.isNull = false ∧ result.isNull = false) := by
  unfold coerce? at h
  split at h
  · next admitted =>
    cases h
    exact .inl ⟨admitted, rfl⟩
  · split at h
    · cases h
      exact .inr ⟨rfl, rfl, rfl⟩
    · obtain ⟨t, -, rfl⟩ := Option.map_eq_some_iff.1 h
      exact .inr ⟨rfl, rfl, rfl⟩
    · obtain ⟨t, -, rfl⟩ := Option.map_eq_some_iff.1 h
      exact .inr ⟨rfl, rfl, rfl⟩
    · cases h

/-- A converted value has the type, so that converting it again changes nothing. -/
theorem admits_of_coerce? {type : DataType} {value result : Value}
    (h : type.coerce? value = some result) : type.admits result := by
  rcases coerce?_cases h with ⟨admitted, rfl⟩ | ⟨admitted, -⟩ <;> exact admitted

theorem admits_null (type : DataType) : type.admits .null := by cases type <;> rfl

/-- A value of a key type is null or a key. -/
theorem key_of_admits {type : DataType} {value : Value} (keyed : type.isKeyType = true)
    (h : type.admits value) (present : value.isNull = false) : ∃ key, Key.ofValue? value = some key := by
  cases type <;> cases value <;> simp_all [admits, isKeyType, Value.isNull, Key.ofValue?]

/-- Only null converts to null. -/
theorem isNull_of_coerce? {type : DataType} {value result : Value}
    (converted : type.coerce? value = some result) : result.isNull = value.isNull := by
  rcases coerce?_cases converted with ⟨-, rfl⟩ | ⟨-, given, stored⟩
  · rfl
  · rw [given, stored]

/-- A key type takes values as they are. -/
theorem eq_of_coerce? {type : DataType} {value result : Value} (keyed : type.isKeyType = true)
    (converted : type.coerce? value = some result) : result = value := by
  cases type <;> cases value <;> simp_all [coerce?, admits, isKeyType]

end DataType

theorem Field.initial_admits (field : Field) : field.type.admits field.initial := by
  unfold Field.initial
  cases h : field.default.bind field.type.coerce? with
  | none => exact field.type.admits_null
  | some value =>
    obtain ⟨default, -, coerced⟩ := Option.bind_eq_some_iff.1 h
    exact DataType.admits_of_coerce? coerced

namespace Definition
variable {definition : Definition} {columns : Columns}

/-- A value of the declared type of a field. -/
def Holds (definition : Definition) (name : String) (value : Value) : Prop :=
  ∃ field, definition.field? name = some field ∧ field.type.admits value

/-- Columns of a complete, typed row. -/
structure Fits (definition : Definition) (columns : Columns) : Prop where
  typed : ∀ {name : String} {value : Value}, columns[name]? = some value → definition.Holds name value
  total : ∀ {name : String} {field : Field}, definition.field? name = some field → name ∈ columns

/-- No required field is null. -/
def Filled (definition : Definition) (columns : Columns) : Prop :=
  ∀ (name : String) (value : Value), columns[name]? = some value → definition.requires name = true →
    value.isNull = false

theorem coerceField_eq_ok_iff {name : String} {value stored : Value} :
    definition.coerceField name value = .ok stored ↔
      ∃ field, definition.field? name = some field ∧ field.type.coerce? value = some stored := by
  unfold coerceField
  cases definition.field? name with
  | none => simp
  | some field => cases converted : field.type.coerce? value <;> simp [converted]

theorem isNull_of_coerceField {name : String} {value stored : Value}
    (converted : definition.coerceField name value = .ok stored) :
    stored.isNull = value.isNull := by
  obtain ⟨field, -, converted⟩ := coerceField_eq_ok_iff.1 converted
  exact DataType.isNull_of_coerce? converted

theorem holds_of_coerceField {name : String} {value result : Value}
    (h : definition.coerceField name value = .ok result) : definition.Holds name result := by
  obtain ⟨field, hf, hc⟩ := coerceField_eq_ok_iff.1 h
  exact ⟨field, hf, DataType.admits_of_coerce? hc⟩

theorem Holds.coerceField {name : String} {value : Value} (h : definition.Holds name value) :
    definition.coerceField name value = .ok value := by
  obtain ⟨field, hf, ha⟩ := h
  simp [Definition.coerceField, hf, DataType.coerce?_of_admits ha]

/-- A write that is accepted leaves a value of the declared type, which is null only where it may be. -/
theorem coerceWrite_eq_ok_iff {name : String} {value result : Value} :
    definition.coerceWrite name value = .ok result ↔
      definition.coerceField name value = .ok result ∧
        ¬(result.isNull = true ∧ definition.requires name = true) := by
  unfold coerceWrite
  rw [bind_eq_ok_iff]
  constructor
  · rintro ⟨coerced, hc, h⟩
    split at h
    · cases h
    · cases h
      exact ⟨hc, by simp_all⟩
  · rintro ⟨hc, hn⟩
    exact ⟨result, hc, by simp_all⟩

/-- Writing an accepted value a second time is accepted as well. -/
theorem coerceWrite_idem {name : String} {value result : Value}
    (h : definition.coerceWrite name value = .ok result) :
    definition.coerceWrite name result = .ok result := by
  rw [coerceWrite_eq_ok_iff] at h ⊢
  exact ⟨(holds_of_coerceField h.1).coerceField, h.2⟩

theorem Fits.insert (hf : definition.Fits columns) {name : String} {value : Value}
    (h : definition.Holds name value) : definition.Fits (columns.insert name value) where
  typed {other found} ho := by
    rw [Std.ExtTreeMap.getElem?_insert] at ho
    split at ho
    · next same =>
      cases ho
      exact Std.LawfulEqOrd.eq_of_compare same ▸ h
    · exact hf.typed ho
  total {other field} ho := by
    rw [Std.ExtTreeMap.mem_insert]
    exact .inr (hf.total ho)

theorem Fits.value_of_field? (hf : definition.Fits columns) {name : String} {field : Field}
    (declared : definition.field? name = some field) : ∃ value, columns[name]? = some value :=
  mem_iff_exists_getElem?.1 (hf.total declared)

theorem Fits.admits (hf : definition.Fits columns) {name : String} {field : Field} {value : Value}
    (declared : definition.field? name = some field) (held : columns[name]? = some value) :
    field.type.admits value = true := by
  obtain ⟨found, declared', admitted⟩ := hf.typed held
  cases declared.symm.trans declared'
  exact admitted

theorem Fits.mem_iff (hf : definition.Fits columns) {name : String} :
    name ∈ columns ↔ ∃ field ∈ definition.fields, field.name = name := by
  constructor
  · intro held
    obtain ⟨value, held⟩ := mem_iff_exists_getElem?.1 held
    obtain ⟨field, declared, -⟩ := hf.typed held
    exact ⟨field, mem_of_find?_name declared⟩
  · rintro ⟨field, declared, rfl⟩
    have found : (definition.field? field.name).isSome := by
      rw [field?, List.find?_isSome]
      exact ⟨field, declared, by simp⟩
    obtain ⟨first, found⟩ := Option.isSome_iff_exists.1 found
    exact hf.total found

/-- Fields that are left out take their initial values; of several with one name, that of the first. -/
theorem getElem?_complete (name : String) :
    (definition.complete columns)[name]? =
      columns[name]?.or ((definition.field? name).map Field.initial) := by
  unfold complete field?
  induction definition.fields generalizing columns with
  | nil => simp
  | cons field fields ih =>
    rw [List.foldl_cons, ih, Std.ExtTreeMap.getElem?_insertIfNew, List.find?_cons]
    grind

theorem complete_fits (h : ∀ name value, columns[name]? = some value → definition.Holds name value) :
    definition.Fits (definition.complete columns) where
  typed {name value} hv := by
    rw [getElem?_complete] at hv
    cases hc : columns[name]? with
    | some found => exact h name value (by simpa [hc] using hv)
    | none =>
      simp only [hc, Option.none_or, Option.map_eq_some_iff] at hv
      obtain ⟨field, hf, rfl⟩ := hv
      exact ⟨field, hf, field.initial_admits⟩
  total {name field} hf := by
    rw [Std.ExtTreeMap.mem_iff_isSome_getElem?, getElem?_complete, hf]
    simp

theorem Fits.complete_eq (hf : definition.Fits columns) : definition.complete columns = columns := by
  apply Std.ExtTreeMap.ext_getElem?
  intro name
  rw [getElem?_complete]
  cases hd : definition.field? name with
  | none => simp
  | some field =>
    obtain ⟨value, hv⟩ := hf.value_of_field? hd
    simp [hv]

theorem forall₂_of_coerceAll {entries coerced : List (String × Value)}
    (h : definition.coerceAll entries = .ok coerced) :
    List.Forall₂ (fun entry written => entry.1 = written.1 ∧
      definition.coerceField entry.1 entry.2 = .ok written.2) entries coerced := by
  induction entries generalizing coerced with
  | nil =>
    cases h
    exact .nil
  | cons entry entries ih =>
    obtain ⟨name, value⟩ := entry
    obtain ⟨first, hfirst, h⟩ := bind_eq_ok_iff.1 h
    obtain ⟨rest, hrest, h⟩ := bind_eq_ok_iff.1 h
    cases h
    exact .cons ⟨rfl, hfirst⟩ (ih hrest)

theorem holds_of_coerceAll {entries coerced : List (String × Value)}
    (h : definition.coerceAll entries = .ok coerced) :
    ∀ entry ∈ coerced, definition.Holds entry.1 entry.2 := by
  intro entry member
  obtain ⟨_, -, same, converted⟩ := exists_mem_of_forall₂ (forall₂_of_coerceAll h).flip member
  exact same ▸ holds_of_coerceField converted

theorem coerceAll_of_holds {entries : List (String × Value)}
    (h : ∀ entry ∈ entries, definition.Holds entry.1 entry.2) :
    definition.coerceAll entries = .ok entries := by
  induction entries with
  | nil => rfl
  | cons entry entries ih =>
    obtain ⟨name, value⟩ := entry
    have hfirst := (h (name, value) (by simp)).coerceField
    have hrest := ih fun entry member => h entry (by simp [member])
    exact bind_eq_ok_iff.2 ⟨value, hfirst, bind_eq_ok_iff.2 ⟨entries, hrest, rfl⟩⟩

/-- Columns are converted when each of them is. -/
theorem exists_coerceAll {entries : List (String × Value)}
    (each : ∀ entry ∈ entries, ∃ stored, definition.coerceField entry.1 entry.2 = .ok stored) :
    ∃ coerced, definition.coerceAll entries = .ok coerced := by
  induction entries with
  | nil => exact ⟨[], rfl⟩
  | cons entry entries ih =>
    obtain ⟨⟨stored, converted⟩, others⟩ := List.forall_mem_cons.1 each
    obtain ⟨rest, hrest⟩ := ih others
    exact ⟨(entry.1, stored) :: rest,
      bind_eq_ok_iff.2 ⟨stored, converted, bind_eq_ok_iff.2 ⟨rest, hrest, rfl⟩⟩⟩

theorem rowColumns_fits {result : Columns} (h : definition.rowColumns columns = .ok result) :
    definition.Fits result := by
  obtain ⟨entries, hc, h⟩ := bind_eq_ok_iff.1 h
  cases h
  refine complete_fits fun name value hv => ?_
  exact holds_of_coerceAll hc _ (mem_of_getElem?_ofList hv)

/-- A field that is given a value holds it in the row that is built, converted to its type. -/
theorem rowColumns_given {result : Columns} (h : definition.rowColumns columns = .ok result) {name : String}
    {value : Value} (given : columns[name]? = some value) :
    ∃ stored, definition.coerceField name value = .ok stored ∧ result[name]? = some stored := by
  obtain ⟨entries, hc, h⟩ := bind_eq_ok_iff.1 h
  cases h
  obtain ⟨stored, converted, held⟩ := getElem?_ofList_of_forall₂
    (R := fun name value stored => definition.coerceField name value = .ok stored) (forall₂_of_coerceAll hc) given
  exact ⟨stored, converted, by rw [getElem?_complete, held, Option.some_or]⟩

/-- A field that is left out holds its initial value in the row that is built. -/
theorem rowColumns_omitted {result : Columns} {name : String} (h : definition.rowColumns columns = .ok result)
    (omitted : columns[name]? = none) :
    result[name]? = (definition.field? name).map Field.initial := by
  obtain ⟨entries, hc, h⟩ := bind_eq_ok_iff.1 h
  cases h
  have related := rel_getElem?_ofList
    (R := fun name value stored => definition.coerceField name value = .ok stored) (forall₂_of_coerceAll hc) name
  rw [ofList_toList, omitted] at related
  rw [getElem?_complete]
  generalize (Std.ExtTreeMap.ofList entries)[name]? = found at related ⊢
  cases related
  rfl

/-- A field of a row that is built is null when the value that it is given is, or else its initial value. -/
theorem isNull_of_rowColumns {result : Columns} {name : String} (h : definition.rowColumns columns = .ok result) :
    (result[name]?.getD .null).isNull =
      ((columns[name]?.or ((definition.field? name).map Field.initial)).getD .null).isNull := by
  cases given : columns[name]? with
  | none => rw [rowColumns_omitted h given, Option.none_or]
  | some value =>
    obtain ⟨stored, converted, held⟩ := rowColumns_given h given
    rw [held, Option.some_or, Option.getD_some, Option.getD_some, isNull_of_coerceField converted]

theorem Fits.rowColumns (hf : definition.Fits columns) : definition.rowColumns columns = .ok columns := by
  have hc : definition.coerceAll columns.toList = .ok columns.toList := by
    refine coerceAll_of_holds fun entry member => hf.typed ?_
    exact Std.ExtTreeMap.mem_toList_iff_getElem?_eq_some.1 member
  refine bind_eq_ok_iff.2 ⟨_, hc, ?_⟩
  rw [ofList_toList, hf.complete_eq]
  rfl

end Definition

namespace Row
variable {definition : Definition} {identity : Nat}

/-- The columns of a row fit its definition. -/
def Typed (row : Row) : Prop := row.definition.Fits row.columns

/-- The check of required fields leaves none of them null. -/
theorem filled_of_checkRequired {row : Row} (required : row.checkRequired = .ok ()) :
    row.definition.Filled row.columns := by
  intro name value held requires
  unfold Row.checkRequired at required
  split_ifs at required
  split at required
  · cases required
  · next none =>
    obtain ⟨field, declared, isRequired⟩ := (Option.any_eq_true ..).1 requires
    obtain ⟨member, named⟩ := mem_of_find?_name declared
    have refused := List.find?_eq_none.1 none field member
    simpa [isRequired, Row.lacks, Row.get?, named, held] using refused

/-- A row with a key lacks a required field when the check of its fields refuses it. -/
theorem checkRequired_eq_error {row : Row} {key : Key} {e : RowError} (keyed : row.key? = some key)
    (refused : row.checkRequired = .error e) :
    ∃ field ∈ row.definition.fields, field.required = true ∧ row.lacks field.name = true ∧
      e = .nullValue row.entity field.name := by
  unfold checkRequired at refused
  split_ifs at refused with keyless
  · simp [keyed] at keyless
  · split at refused
    · next field found =>
      cases refused
      have chosen := List.find?_some found
      obtain ⟨required, lacks⟩ := Bool.and_eq_true_iff.1 chosen
      exact ⟨field, List.mem_of_find?_eq_some found, required, lacks, rfl⟩
    · cases refused

theorem fresh_typed (valid : definition.validate = .ok ()) : (Row.fresh definition identity).Typed where
  typed {name value} held := by
    obtain ⟨field, declared, entry⟩ := List.mem_map.1 (mem_of_getElem?_ofList held)
    cases entry
    exact ⟨field, Definition.field?_of_mem valid declared, field.initial_admits⟩
  total {name field} declared := by
    obtain ⟨member, rfl⟩ := mem_of_find?_name declared
    have listed : ∃ other ∈ definition.fields, other.name = field.name := ⟨field, member, rfl⟩
    simpa [Row.fresh] using listed

theorem ofColumns_eq_ok_iff {columns : Columns} {row : Row} :
    Row.ofColumns definition identity columns = .ok row ↔
      ∃ built, definition.rowColumns columns = .ok built ∧ row = ⟨definition, identity, built⟩ := by
  unfold ofColumns
  rw [bind_eq_ok_iff]
  exact exists_congr fun built => and_congr_right fun _ =>
    ⟨fun h => (Except.ok.inj h).symm, fun h => congrArg Except.ok h.symm⟩

theorem ofColumns_typed {columns : Columns} {row : Row}
    (h : Row.ofColumns definition identity columns = .ok row) : row.Typed := by
  obtain ⟨built, hb, rfl⟩ := ofColumns_eq_ok_iff.1 h
  exact Definition.rowColumns_fits hb

/-- A row is what building from its own columns gives. -/
theorem Typed.ofColumns {row : Row} (h : row.Typed) :
    Row.ofColumns row.definition row.identity row.columns = .ok row :=
  ofColumns_eq_ok_iff.2 ⟨row.columns, h.rowColumns, rfl⟩

section Set
variable {row : Row} {field : String} {value written : Value}

theorem set_of_ok (accepted : row.definition.coerceWrite field value = .ok written) : row.set field value =
    (.ok ((row.get? field).getD .null), { row with columns := row.columns.insert field written }) := by
  simp [set, accepted]

/-- A write puts the converted value into its field, or it is refused and the row stays as it is. -/
theorem set_cases (row : Row) (field : String) (value : Value) :
    (∃ written, row.definition.coerceWrite field value = .ok written ∧ row.set field value =
      (.ok ((row.get? field).getD .null), { row with columns := row.columns.insert field written })) ∨
    ∃ e, row.definition.coerceWrite field value = .error e ∧ row.set field value = (.error e, row) := by
  cases converted : row.definition.coerceWrite field value with
  | ok written => exact .inl ⟨written, rfl, set_of_ok converted⟩
  | error e => exact .inr ⟨e, rfl, by simp [set, converted]⟩

theorem set_of_error {e : RowError} (refused : (row.set field value).1 = .error e) :
    (row.set field value).2 = row := by
  rcases set_cases row field value with ⟨written, -, accepted⟩ | ⟨e', -, kept⟩
  · rw [accepted] at refused
    cases refused
  · rw [kept]

@[simp] theorem set_definition (row : Row) (field : String) (value : Value) :
    (row.set field value).2.definition = row.definition := by
  rcases set_cases row field value with ⟨written, -, accepted⟩ | ⟨e, -, kept⟩
  · rw [accepted]
  · rw [kept]

theorem Typed.set (h : row.Typed) (field : String) (value : Value) : (row.set field value).2.Typed := by
  rcases set_cases row field value with ⟨written, converted, accepted⟩ | ⟨e, -, kept⟩
  · rw [accepted]
    exact Definition.Fits.insert h
      (Definition.holds_of_coerceField (Definition.coerceWrite_eq_ok_iff.1 converted).1)
  · rwa [kept]

end Set

end Row
end EntityGraph
