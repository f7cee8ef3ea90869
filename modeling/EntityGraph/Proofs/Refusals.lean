import EntityGraph.Proofs.Filing
import EntityGraph.Proofs.Integrity
import EntityGraph.Proofs.Verdicts

/-! # Refusals of valid changes

The check of outgoing changes looks at the values of a change on its own. What it lets through a backend
refuses only for what it holds itself, or for a required field that is left without a value. -/
namespace EntityGraph

namespace Definition
variable {definition : Definition} {value stored : Value}

/-- A value of the key field that is not null is a key, before its conversion and after. -/
theorem Valid.key_of_coerceField (valid : definition.Valid)
    (converted : definition.coerceField definition.key value = .ok stored) (present : value.isNull = false) :
    stored = value ∧ ∃ key, Key.ofValue? value = some key := by
  obtain ⟨field, declared, converted⟩ := coerceField_eq_ok_iff.1 converted
  obtain ⟨keyField, declared', keyType, -⟩ := valid.key
  cases declared'.symm.trans declared
  have same := DataType.eq_of_coerce? keyType converted
  exact ⟨same, DataType.key_of_admits keyType (same ▸ DataType.admits_of_coerce? converted) present⟩

end Definition

namespace Change
variable {catalog : Catalog} {definition : Definition} {change : Change}

/-- What the check of outgoing changes requires of a data change. -/
theorem validateData_eq_ok_iff : validateData definition change = .ok () ↔
    definition.readOnly = false ∧ (∃ coerced, definition.coerceAll change.checkedColumns = .ok coerced) ∧
      Identifies definition change.identifying := by
  rw [← lacksKey_eq_false_iff]
  cases writable : definition.readOnly with
  | true => simp [validateData, writable]
  | false =>
    simp only [validateData, writable, Bool.false_eq_true, if_false, bind_eq_ok_iff, mapError_eq_ok_iff,
      true_and, exists_and_right]
    refine and_congr_right fun _ => ?_
    change (if lacksKey (some definition) change.identifying = true then _ else _) = _ ↔ _
    cases lacksKey (some definition) change.identifying <;> simp

/-- The columns of a valid change convert to the types of their fields, and it names its row. -/
structure Admissible (change : Change) (definition : Definition) : Prop where
  converts : ∀ {name : String} {value : Value}, (name, value) ∈ change.checkedColumns →
    ∃ stored, definition.coerceField name value = .ok stored
  named : Identifies definition change.identifying

theorem exists_admissible (isData : change.isDataChange = true) (valid : change.validate catalog = .ok ()) :
    ∃ definition, catalog.entities[change.entity.text]? = some definition ∧ change.Admissible definition := by
  cases registered : catalog.entities[change.entity.text]? with
  | none => simp [validate, Catalog.get, registered] at valid
  | some definition =>
    rw [validate_of_data registered isData] at valid
    obtain ⟨-, ⟨coerced, converted⟩, named⟩ := validateData_eq_ok_iff.1 valid
    refine ⟨definition, rfl, fun {name value} member => ?_, named⟩
    obtain ⟨entry, -, -, stored⟩ := exists_mem_of_forall₂ (Definition.forall₂_of_coerceAll converted) member
    exact ⟨entry.2, stored⟩

/-- A field that a change leaves without a value: an insert gives null for it, or leaves it out when its
initial value is null, an update gives null. -/
def Empties (definition : Definition) (field : String) : Change → Prop
  | .insert _ data => ((data[field]?.or ((definition.field? field).map Field.initial)).getD .null).isNull = true
  | .update _ _ data => data[field]? = some .null
  | .delete _ _ => False
  | .command _ _ _ => False

/-- What a backend says of a required field without a value. -/
def emptyReason (definition : Definition) (field : String) : Change → String
  | .insert _ _ => (RowError.nullValue definition.name.text field).message
  | _ => s!"field '{field}' cannot be null"

end Change

/-- Intact tables hold every row under its key. -/
theorem Tables.Intact.keyed {catalog : Catalog} {tables : Tables} (intact : tables.Intact catalog) :
    tables.Keyed catalog := by
  intro entity definition key columns registered held
  obtain ⟨owner, registered', stores, -⟩ := intact.row held
  cases registered.symm.trans registered'
  exact stores.2

namespace MemoryBackend
variable {backend : MemoryBackend} {tables : Tables} {definition : Definition} {entity : String} {key : Key}
  {columns data keys result : Columns} {e : BackendError}

/-- Why tables refuse a valid change: its row would come to the key of another row, it holds the key of a
principal that is not there once it is written, the row of a dependent still refers to the key that it leaves,
or a required field would be left without a value. -/
inductive Refuses (backend : MemoryBackend) (tables after : Tables) (definition : Definition) (change : Change) :
    BackendError → Prop
  | duplicateKey {key : Key} {others : Columns} (taken : tables.row? definition.name.text key = some others) :
      Refuses backend tables after definition change (.duplicateKey definition.name.text key.display)
  | foreignKey {relationship : Relationship} {key principal : Key} {columns : Columns}
      (enforcing : backend.enforcing = true) (declared : relationship ∈ definition.relationships)
      (written : after.row? definition.name.text key = some columns)
      (leads : columns[relationship.field]? = some principal.toValue)
      (missing : after.row? relationship.target.text principal = none) :
      Refuses backend tables after definition change (.foreignKeyViolation definition.name.text key.display
        relationship.field relationship.target.text principal.display)
  | stillReferenced {key place : Key} {dependent : Definition} {others : Columns}
      (enforcing : backend.enforcing = true) (registered : dependent ∈ backend.catalog.definitions)
      (held : tables.row? dependent.name.text place = some others)
      (points : dependent.Points others definition.name.text key)
      (elsewhere : ¬(dependent.name.text = definition.name.text ∧ place = key)) :
      Refuses backend tables after definition change
        (.stillReferenced definition.name.text key.display dependent.name.text)
  | emptied {field : String} (required : definition.requires field = true) (empties : change.Empties definition field) :
      Refuses backend tables after definition change
        (.invalidData definition.name.text (change.emptyReason definition field))

theorem Refuses.of_checkUnreferenced {after : Tables} {change : Change}
    (refused : backend.checkUnreferenced tables definition key = .error e) :
    backend.Refuses tables after definition change e := by
  obtain ⟨enforcing, dependent, registered, place, others, held, points, elsewhere, rfl⟩ :=
    checkUnreferenced_eq_error refused
  exact .stillReferenced enforcing registered held points elsewhere

/-- A new row with convertible columns and a key is refused for a required field without a value only. -/
theorem newRow_eq_error (validated : definition.validate = .ok ())
    (converts : ∀ {name : String} {value : Value}, data[name]? = some value →
      ∃ stored, definition.coerceField name value = .ok stored)
    (named : Change.Identifies definition data) (refused : newRow definition data = .error e) :
    ∃ field, definition.requires field = true ∧
      ((data[field]?.or ((definition.field? field).map Field.initial)).getD .null).isNull = true ∧
      e = .invalidData definition.name.text (RowError.nullValue definition.name.text field).message := by
  obtain ⟨coerced, converted⟩ : ∃ coerced, definition.coerceAll data.toList = .ok coerced :=
    Definition.exists_coerceAll fun entry member =>
      converts (Std.ExtTreeMap.mem_toList_iff_getElem?_eq_some.1 member)
  have built : definition.rowColumns data = .ok (definition.complete (.ofList coerced)) :=
    bind_eq_ok_iff.2 ⟨coerced, converted, rfl⟩
  generalize definition.complete (.ofList coerced) = columns at built
  have isRow : Row.ofColumns definition 0 data = .ok ⟨definition, 0, columns⟩ :=
    Row.ofColumns_eq_ok_iff.2 ⟨columns, built, rfl⟩
  -- a given key stays as it is, so that the row is not refused for a missing one
  obtain ⟨key, keyed⟩ : ∃ key, definition.keyOf? columns = some key := by
    obtain ⟨value, given, present⟩ := named
    obtain ⟨stored, converted, held⟩ := Definition.rowColumns_given built given
    obtain ⟨rfl, key, isKey⟩ :=
      (Definition.valid_of_validate validated).key_of_coerceField converted present
    exact ⟨key, Option.bind_eq_some_iff.2 ⟨stored, held, isKey⟩⟩
  replace refused := bind_eq_error_of_ok (mapError_eq_ok_iff.2 isRow) refused
  rcases bind_eq_error_iff.1 refused with fails | ⟨_, -, refused⟩
  · obtain ⟨reason, unfilled, rfl⟩ := mapError_eq_error_iff.1 fails
    have keyed : (⟨definition, 0, columns⟩ : Row).key? = some key := keyed
    obtain ⟨field, declared, required, lacks, rfl⟩ := Row.checkRequired_eq_error keyed unfilled
    refine ⟨field.name, ?_, ?_, rfl⟩
    · rw [Definition.requires, Definition.field?_of_mem validated declared, Option.any_some, required]
    · rwa [Row.lacks, Row.get?, Definition.isNull_of_rowColumns built] at lacks
  · cases bind_eq_error_of_ok (keyOf_eq_ok_iff.2 keyed) refused

theorem insertRow_eq_error {name : EntityName} (validated : definition.validate = .ok ())
    (admissible : (Change.insert name data).Admissible definition)
    (refused : (backend.insertRow tables definition data).1 = .error e) :
    backend.Refuses tables (backend.insertRow tables definition data).2 definition (.insert name data) e := by
  unfold insertRow at refused ⊢
  cases built : newRow definition data with
  | error reason =>
    rw [built] at refused
    cases refused
    obtain ⟨field, required, empty, rfl⟩ := newRow_eq_error validated
      (fun held => admissible.converts (Change.mem_checkedColumns.2 (.inl ⟨data, rfl, held⟩))) admissible.named built
    exact .emptied required empty
  | ok row =>
    obtain ⟨key, columns⟩ := row
    rw [built] at refused
    dsimp only at refused ⊢
    split_ifs at refused ⊢ with held
    · obtain ⟨others, taken⟩ := Tables.holds_iff.1 held
      cases refused
      exact .duplicateKey taken
    · obtain ⟨enforcing, relationship, declared, principal, leads, missing, rfl⟩ :=
        checkReferences_eq_error (map_eq_error_iff.1 refused)
      exact .foreignKey enforcing declared (by rw [Tables.row?_put, if_pos ⟨rfl, rfl⟩]) leads missing

/-- Overwriting columns is refused for a null in a required field only. -/
theorem overwrite_eq_error {entries : List (String × Value)}
    (converts : ∀ entry ∈ entries, ∃ stored, definition.coerceField entry.1 entry.2 = .ok stored)
    (refused : overwrite definition columns entries = .error e) :
    ∃ field, definition.requires field = true ∧ (field, Value.null) ∈ entries ∧
      e = .invalidData definition.name.text s!"field '{field}' cannot be null" := by
  induction entries generalizing columns with
  | nil => cases refused
  | cons entry entries ih =>
    obtain ⟨field, value⟩ := entry
    obtain ⟨⟨stored, converted⟩, others⟩ := List.forall_mem_cons.1 converts
    replace refused := bind_eq_error_of_ok (mapError_eq_ok_iff.2 converted) refused
    split_ifs at refused with null
    · obtain ⟨null, required⟩ := Bool.and_eq_true_iff.1 null
      rw [Definition.isNull_of_coerceField converted, Value.isNull_iff] at null
      cases refused
      cases null
      exact ⟨field, required, List.mem_cons_self, rfl⟩
    · obtain ⟨other, required, member, rfl⟩ := ih others refused
      exact ⟨other, required, by simp [member], rfl⟩

/-- Columns that are overwritten keep a key. -/
theorem overwrite_keyed {entries : List (String × Value)} (valid : definition.Valid)
    (keyed : ∃ key, definition.keyOf? columns = some key)
    (h : overwrite definition columns entries = .ok result) : ∃ key, definition.keyOf? result = some key := by
  induction entries generalizing columns with
  | nil =>
    cases h
    exact keyed
  | cons entry entries ih =>
    obtain ⟨field, value⟩ := entry
    obtain ⟨stored, converted, h⟩ := bind_eq_ok_iff.1 h
    rw [mapError_eq_ok_iff] at converted
    split_ifs at h with refused
    refine ih ?_ h
    -- only the key field matters, and it is required, so that no null gets there
    by_cases here : field = definition.key
    · subst here
      have present : stored.isNull = false := by simpa [valid.requires_key] using refused
      rw [Definition.isNull_of_coerceField converted] at present
      obtain ⟨rfl, key, isKey⟩ := valid.key_of_coerceField converted present
      exact ⟨key, by simpa [Definition.keyOf?] using isKey⟩
    · simpa [Definition.keyOf?, Std.ExtTreeMap.getElem?_insert, here] using keyed

theorem updatedRow_eq_error {name : EntityName} {after : Tables} (valid : definition.Valid)
    (admissible : (Change.update name keys data).Admissible definition)
    (keyed : definition.keyOf? columns = some key)
    (refused : backend.updatedRow tables definition key columns data = .error e) :
    backend.Refuses tables after definition (.update name keys data) e := by
  rcases bind_eq_error_iff.1 refused with fails | ⟨written, overwritten, refused⟩
  · obtain ⟨field, required, member, rfl⟩ := overwrite_eq_error (fun entry member =>
      admissible.converts (Change.mem_checkedColumns.2
        (.inl ⟨data, rfl, Std.ExtTreeMap.mem_toList_iff_getElem?_eq_some.1 member⟩))) fails
    exact .emptied required (Std.ExtTreeMap.mem_toList_iff_getElem?_eq_some.1 member)
  · obtain ⟨target, lands⟩ := overwrite_keyed valid ⟨key, keyed⟩ overwritten
    replace refused := bind_eq_error_of_ok (keyOf_eq_ok_iff.2 lands) refused
    rcases bind_eq_error_iff.1 refused with fails | ⟨_, -, done⟩
    · rcases checkMove_eq_error fails with ⟨-, held, rfl⟩ | fails
      · obtain ⟨others, taken⟩ := Tables.holds_iff.1 held
        exact .duplicateKey taken
      · exact .of_checkUnreferenced fails
    · cases done

/-- The columns that name a row hold its key. -/
theorem keyed_of_named (valid : definition.Valid) (converts : ∀ {name : String} {value : Value},
      keys[name]? = some value → ∃ stored, definition.coerceField name value = .ok stored)
    (named : Change.Identifies definition keys) : ∃ key, keyOf definition keys = .ok key := by
  obtain ⟨value, held, present⟩ := named
  obtain ⟨stored, converted⟩ := converts held
  obtain ⟨-, key, isKey⟩ := valid.key_of_coerceField converted present
  exact ⟨key, keyOf_eq_ok_iff.2 (Option.bind_eq_some_iff.2 ⟨value, held, isKey⟩)⟩

theorem updateRow_eq_error {name : EntityName} (valid : definition.Valid)
    (admissible : (Change.update name keys data).Admissible definition)
    (keyed : ∀ {key : Key} {columns : Columns}, tables.row? definition.name.text key = some columns →
      definition.keyOf? columns = some key)
    (refused : (backend.updateRow tables definition keys data).1 = .error e) :
    backend.Refuses tables (backend.updateRow tables definition keys data).2 definition (.update name keys data) e := by
  obtain ⟨key, identified⟩ := keyed_of_named valid (fun held =>
    admissible.converts (Change.mem_checkedColumns.2 (.inr ⟨keys, rfl, held⟩))) admissible.named
  unfold updateRow at refused ⊢
  rw [identified] at refused ⊢
  dsimp only at refused ⊢
  cases held : tables.row? definition.name.text key with
  | none =>
    rw [held] at refused
    cases refused
  | some columns =>
    rw [held] at refused
    dsimp only at refused ⊢
    cases updated : backend.updatedRow tables definition key columns data with
    | error reason =>
      rw [updated] at refused
      cases refused
      exact updatedRow_eq_error valid admissible (keyed held) updated
    | ok row =>
      obtain ⟨target, written⟩ := row
      rw [updated] at refused
      obtain ⟨enforcing, relationship, declared, principal, leads, missing, rfl⟩ :=
        checkReferences_eq_error (map_eq_error_iff.1 refused)
      exact .foreignKey enforcing declared (by rw [Tables.row?_put, if_pos ⟨rfl, rfl⟩]) leads missing

theorem deleteRow_eq_error {name : EntityName} {after : Tables} (valid : definition.Valid)
    (admissible : (Change.delete name keys).Admissible definition)
    (refused : (backend.deleteRow tables definition keys).1 = .error e) :
    backend.Refuses tables after definition (.delete name keys) e := by
  obtain ⟨key, identified⟩ := keyed_of_named valid (fun held =>
    admissible.converts (Change.mem_checkedColumns.2 (.inr ⟨keys, rfl, held⟩))) admissible.named
  unfold deleteRow at refused
  rw [identified] at refused
  dsimp only at refused
  split_ifs at refused
  · split at refused
    · next unreferenced =>
      cases refused
      exact .of_checkUnreferenced unreferenced
    · cases refused

variable {change : Change} {changes : List Change}

/-- A valid change that tables of keyed rows refuse is refused for one of the four reasons. -/
theorem refuses_of_apply (keyed : tables.Keyed backend.catalog) (isData : change.isDataChange = true)
    (valid : change.validate backend.catalog = .ok ()) (refused : (backend.apply tables change).1 = .error e) :
    ∃ definition, backend.catalog.entities[change.entity.text]? = some definition ∧
      backend.Refuses tables (backend.apply tables change).2 definition change e := by
  obtain ⟨definition, registered, admissible⟩ := Change.exists_admissible isData valid
  have known := definition_eq_ok_iff.2 registered
  have validated := (backend.catalog.registered _ _ registered).2
  have sound := Catalog.valid_of_entities registered
  have named := Catalog.name_of_entities registered
  refine ⟨definition, registered, ?_⟩
  cases change with
  | insert entity data =>
    change backend.definition entity.text = .ok definition at known
    simp only [apply, known] at refused ⊢
    exact insertRow_eq_error validated admissible refused
  | update entity keys data =>
    change backend.definition entity.text = .ok definition at known
    simp only [apply, known] at refused ⊢
    exact updateRow_eq_error sound admissible (fun held => keyed registered (named ▸ held)) refused
  | delete entity keys =>
    change backend.definition entity.text = .ok definition at known
    simp only [apply, known] at refused ⊢
    exact deleteRow_eq_error sound admissible refused
  | command => cases isData

/-- On tables whose rows stand under their keys, a valid change is applied or refused for a taken key, a missing
principal, a dependent that still refers to its row or a required field without a value, and for nothing else.
A batch of valid changes is applied, or the backend is offline, or the first change that fails does so for one of
these reasons. -/
theorem valid_changes_refused (keyed : backend.tables.Keyed backend.catalog) :
    (∀ {change : Change}, change.isDataChange = true → change.validate backend.catalog = .ok () →
      (∃ affected, (backend.apply backend.tables change).1 = .ok affected) ∨
        ∃ definition e, backend.catalog.entities[change.entity.text]? = some definition ∧
          (backend.apply backend.tables change).1 = .error e ∧
            backend.Refuses backend.tables (backend.apply backend.tables change).2 definition change e) ∧
      ∀ {changes : List Change} {e : BackendError},
        (∀ change ∈ changes, change.isDataChange = true ∧ change.validate backend.catalog = .ok ()) →
          (backend.submit changes).1 = .error e →
            backend.checkAvailable = .error e ∨
              ∃ before failing later affected middle definition, changes = before ++ failing :: later ∧
                backend.applyAll backend.tables before = (.ok affected, middle) ∧
                  backend.catalog.entities[failing.entity.text]? = some definition ∧
                    backend.Refuses middle (backend.apply middle failing).2 definition failing e := by
  refine ⟨fun {change} isData valid => ?_, fun {changes e} valid refused => ?_⟩
  · cases outcome : (backend.apply backend.tables change).1 with
    | ok affected => exact .inl ⟨affected, rfl⟩
    | error e =>
      obtain ⟨definition, registered, reason⟩ := refuses_of_apply keyed isData valid outcome
      exact .inr ⟨definition, e, registered, rfl, reason⟩
  · refine (submit_eq_error refused).imp_right fun refused => ?_
    obtain ⟨before, failing, later, affected, middle, rfl, applied, refused⟩ := applyAll_eq_error refused
    have kept : (backend.applyAll backend.tables before).2.Keyed backend.catalog :=
      applyAll_keeps (P := fun tables => tables.Keyed backend.catalog)
        (fun member kept => apply_keyed_of_data kept (valid _ (by simp [member])).1) keyed
    rw [applied] at kept
    obtain ⟨isData, valid⟩ := valid failing (by simp)
    obtain ⟨definition, registered, reason⟩ := refuses_of_apply kept isData valid refused
    exact ⟨before, failing, later, affected, middle, definition, rfl, applied, registered, reason⟩

end MemoryBackend

namespace Forest

/-- A new node, and a key for a node that is its own parent. -/
def transplant : List Change :=
  [.insert nodeName (columns 5 (.integer 2)),
    .update nodeName (.ofList [("id", Value.integer 2)]) (.ofList [("id", Value.integer 3)])]

theorem transplant_refused : replanted.tables.Keyed replanted.catalog ∧
    (replanted.submit transplant).1 = .error (.stillReferenced "node" "2" "node") ∧
    ∃ before failing later affected middle definition, transplant = before ++ failing :: later ∧
      replanted.applyAll replanted.tables before = (.ok affected, middle) ∧
        replanted.catalog.entities[failing.entity.text]? = some definition ∧
          replanted.Refuses middle (replanted.apply middle failing).2 definition failing
            (.stillReferenced "node" "2" "node") := by
  have keyed : replanted.tables.Keyed replanted.catalog := by
    obtain ⟨same, intact⟩ := replanted_served.intact
    exact same ▸ intact.keyed
  have evaluated : (∀ change ∈ transplant, change.isDataChange = true ∧
      change.validate replanted.catalog = .ok ()) ∧
      (replanted.submit transplant).1 = .error (.stillReferenced "node" "2" "node") ∧
      replanted.checkAvailable = .ok () := by decide +kernel
  obtain ⟨valid, refused, online⟩ := evaluated
  refine ⟨keyed, refused, ?_⟩
  refine ((MemoryBackend.valid_changes_refused keyed).2 valid refused).resolve_left fun offline => ?_
  cases online.symm.trans offline

end Forest
end EntityGraph
