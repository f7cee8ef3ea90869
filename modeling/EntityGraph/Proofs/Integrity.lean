import EntityGraph.Proofs.References
import EntityGraph.Proofs.Reachability

/-! # Integrity of the tables

A backend that enforces foreign keys checks only the row that it writes and the rows that refer to a key
that leaves. This is enough to keep all tables intact: whole rows under their keys, and no reference that
leads nowhere. -/
namespace EntityGraph

namespace Tables
variable {catalog : Catalog} {tables : Tables} {definition : Definition} {entity : String} {key : Key}
  {columns : Columns}

/-- Rows are whole rows of registered entities, and every reference leads to a row. -/
structure Intact (catalog : Catalog) (tables : Tables) : Prop where
  row : ∀ {entity : String} {key : Key} {columns : Columns}, tables.row? entity key = some columns →
    ∃ definition, catalog.entities[entity]? = some definition ∧ definition.Stores key columns ∧
      definition.Filled columns
  resolved : ∀ {definition : Definition} {key principal : Key} {columns : Columns} {entity : String},
    definition ∈ catalog.definitions → tables.row? definition.name.text key = some columns →
      definition.Points columns entity principal → ∃ others, tables.row? entity principal = some others

theorem empty_intact : Intact catalog ∅ := by
  constructor <;> simp [row?, of]

/-- Writing a row takes no principal away. -/
theorem Intact.put (h : tables.Intact catalog) (registered : catalog.entities[entity]? = some definition)
    (stores : definition.Stores key columns) (filled : definition.Filled columns)
    (resolved : ∀ (target : String) (principal : Key), definition.Points columns target principal →
      ∃ others, (tables.put entity key columns).row? target principal = some others) :
    (tables.put entity key columns).Intact catalog where
  row {other place found} held := by
    rw [row?_put] at held
    split_ifs at held with here
    · obtain ⟨rfl, rfl⟩ := here
      cases held
      exact ⟨definition, registered, stores, filled⟩
    · exact h.row held
  resolved {dependent place principal found target} member held points := by
    rw [row?_put] at held
    split_ifs at held with here
    · obtain ⟨rfl, rfl⟩ := here
      cases held
      rw [Catalog.mem_definitions] at member
      cases registered.symm.trans member
      exact resolved target principal points
    · obtain ⟨others, kept⟩ := h.resolved member held points
      rw [row?_put]
      split_ifs
      · exact ⟨columns, rfl⟩
      · exact ⟨others, kept⟩

/-- A row may leave when no row but itself refers to its key. -/
theorem Intact.drop (h : tables.Intact catalog)
    (unreferenced : ∀ (dependent : Definition) (place : Key) (others : Columns),
      dependent ∈ catalog.definitions → tables.row? dependent.name.text place = some others →
        dependent.Points others entity key → dependent.name.text = entity ∧ place = key) :
    (tables.drop entity key).Intact catalog where
  row {other place found} held := by
    rw [row?_drop] at held
    split_ifs at held
    exact h.row held
  resolved {dependent place principal found target} member held points := by
    rw [row?_drop] at held
    split_ifs at held with gone
    obtain ⟨others, kept⟩ := h.resolved member held points
    rw [row?_drop]
    split_ifs with left
    · obtain ⟨rfl, rfl⟩ := left
      exact absurd (unreferenced dependent place found member held points) gone
    · exact ⟨others, kept⟩

/-- A row that is taken out to be written under the same key is overwritten. -/
theorem put_drop : (tables.drop entity key).put entity key columns = tables.put entity key columns := by
  apply Std.ExtTreeMap.ext_getElem?
  intro other
  have emptied : ((tables.of entity).erase key).insert key columns = (tables.of entity).insert key columns := by
    apply Std.ExtTreeMap.ext_getElem?
    grind
  simp only [put, drop, of, Std.ExtTreeMap.getElem?_insert, Std.compare_eq_iff_eq, if_true,
    Option.getD_some] at emptied ⊢
  rw [emptied]
  split_ifs <;> rfl

end Tables

namespace MemoryBackend
variable {backend : MemoryBackend} {tables after : Tables} {definition : Definition} {key : Key}
  {columns data keys result : Columns} {affected : Nat}

theorem newRow_eq_ok (h : newRow definition data = .ok (key, columns)) :
    definition.Stores key columns ∧ definition.Filled columns := by
  obtain ⟨row, built, h⟩ := bind_eq_ok_iff.1 h
  obtain ⟨required, h⟩ := check_eq_ok_iff.1 h
  obtain ⟨found, keyed, h⟩ := bind_eq_ok_iff.1 h
  cases h
  rw [mapError_eq_ok_iff] at built required
  have typed := Row.ofColumns_typed built
  have filled := Row.filled_of_checkRequired required
  obtain ⟨_, -, rfl⟩ := Row.ofColumns_eq_ok_iff.1 built
  exact ⟨⟨typed, keyOf_eq_ok_iff.1 keyed⟩, filled⟩

/-- Columns that are overwritten one by one stay complete, typed and free of nulls where these are refused. -/
theorem overwrite_eq_ok {entries : List (String × Value)} (fits : definition.Fits columns)
    (filled : definition.Filled columns) (h : overwrite definition columns entries = .ok result) :
    definition.Fits result ∧ definition.Filled result := by
  induction entries generalizing columns with
  | nil =>
    cases h
    exact ⟨fits, filled⟩
  | cons entry entries ih =>
    obtain ⟨field, raw⟩ := entry
    obtain ⟨value, coerced, h⟩ := bind_eq_ok_iff.1 h
    rw [mapError_eq_ok_iff] at coerced
    split_ifs at h with refused
    refine ih (fits.insert (Definition.holds_of_coerceField coerced)) ?_ h
    intro name written held requires
    rw [Std.ExtTreeMap.getElem?_insert] at held
    split_ifs at held with same
    · cases held
      cases Std.compare_eq_iff_eq.1 same
      simpa [requires] using refused
    · exact filled name written held requires

theorem updatedRow_eq_ok {target : Key} (stores : definition.Stores key columns) (filled : definition.Filled columns)
    (h : backend.updatedRow tables definition key columns data = .ok (target, result)) :
    definition.Stores target result ∧ definition.Filled result ∧
      backend.checkMove tables definition key target = .ok () := by
  obtain ⟨written, overwritten, h⟩ := bind_eq_ok_iff.1 h
  obtain ⟨place, keyed, h⟩ := bind_eq_ok_iff.1 h
  obtain ⟨moved, h⟩ := check_eq_ok_iff.1 h
  cases h
  obtain ⟨fits, filled'⟩ := overwrite_eq_ok stores.1 filled overwritten
  exact ⟨⟨fits, keyOf_eq_ok_iff.1 keyed⟩, filled', moved⟩

section Changes
variable (enforcing : backend.enforcing = true) (intact : tables.Intact backend.catalog)
include enforcing intact

theorem insertRow_intact (registered : backend.catalog.entities[definition.name.text]? = some definition)
    (ok : backend.insertRow tables definition data = (.ok affected, after)) :
    after.Intact backend.catalog := by
  unfold insertRow at ok
  dsimp only at ok
  split at ok
  · cases ok
  · next key columns built =>
    split_ifs at ok with taken
    · cases ok
    · obtain ⟨-, rfl, resolved⟩ := Transfer.counted_eq_ok_iff.1 ok
      obtain ⟨stores, filled⟩ := newRow_eq_ok built
      exact intact.put registered stores filled (checkReferences_eq_ok_iff.1 resolved enforcing)

/-- A row moves to another key only when no row refers to its old one. -/
theorem drop_intact {source target : Key} (moves : target ≠ source)
    (moved : backend.checkMove tables definition source target = .ok ()) :
    (tables.drop definition.name.text source).Intact backend.catalog := by
  rw [checkMove, if_neg moves] at moved
  split_ifs at moved
  exact intact.drop (checkUnreferenced_eq_ok_iff.1 moved enforcing)

theorem updateRow_intact (registered : backend.catalog.entities[definition.name.text]? = some definition)
    (ok : backend.updateRow tables definition keys data = (.ok affected, after)) :
    after.Intact backend.catalog := by
  unfold updateRow at ok
  dsimp only at ok
  split at ok
  · cases ok
  · next source identified =>
    split at ok
    · cases ok
      exact intact
    · next columns present =>
      split at ok
      · cases ok
      · next target result updated =>
        obtain ⟨-, rfl, resolved⟩ := Transfer.counted_eq_ok_iff.1 ok
        obtain ⟨owner, registered', stores, filled⟩ := intact.row present
        cases registered.symm.trans registered'
        obtain ⟨stores', filled', moved⟩ := updatedRow_eq_ok stores filled updated
        have references := checkReferences_eq_ok_iff.1 resolved enforcing
        by_cases stays : target = source
        · subst stays
          rw [Tables.put_drop] at references ⊢
          exact intact.put registered stores' filled' references
        · exact (drop_intact enforcing intact stays moved).put registered stores' filled' references

theorem deleteRow_intact (ok : backend.deleteRow tables definition keys = (.ok affected, after)) :
    after.Intact backend.catalog := by
  unfold deleteRow at ok
  dsimp only at ok
  split at ok
  · cases ok
  · next key identified =>
    split_ifs at ok
    · split at ok
      · cases ok
      · next unreferenced =>
        cases ok
        exact intact.drop (checkUnreferenced_eq_ok_iff.1 unreferenced enforcing)
    · cases ok
      exact intact

end Changes

theorem apply_intact {change : Change} (enforcing : backend.enforcing = true)
    (intact : tables.Intact backend.catalog) (isData : change.isDataChange = true)
    (ok : backend.apply tables change = (.ok affected, after)) : after.Intact backend.catalog := by
  cases change with
  | insert entity data =>
    simp only [apply] at ok
    split at ok
    · cases ok
    · next definition found => exact insertRow_intact enforcing intact (definition_registered found) ok
  | update entity keys data =>
    simp only [apply] at ok
    split at ok
    · cases ok
    · next definition found => exact updateRow_intact enforcing intact (definition_registered found) ok
  | delete entity keys =>
    simp only [apply] at ok
    split at ok
    · cases ok
    · next definition found => exact deleteRow_intact enforcing intact ok
  | command entity parameters filter => cases isData

/-- A batch that runs through keeps the tables intact. -/
theorem applyAll_intact {changes : List Change} (enforcing : backend.enforcing = true)
    (intact : tables.Intact backend.catalog) (isData : ∀ change ∈ changes, change.isDataChange = true)
    (ok : backend.applyAll tables changes = (.ok affected, after)) : after.Intact backend.catalog := by
  induction changes generalizing tables affected with
  | nil =>
    cases ok
    exact intact
  | cons change changes ih =>
    obtain ⟨one, rest, next, -, applied, ok⟩ := applyAll_cons_eq_ok_iff.1 ok
    have first := apply_intact enforcing intact (isData change (by simp)) applied
    exact ih first (fun other member => isData other (by simp [member])) ok

theorem submit_intact {changes : List Change} (enforcing : backend.enforcing = true)
    (intact : backend.tables.Intact backend.catalog) (isData : ∀ change ∈ changes, change.isDataChange = true) :
    (backend.submit changes).2.tables.Intact backend.catalog := by
  unfold submit
  split
  · exact intact
  · split
    · exact intact
    · next affected after applied => exact applyAll_intact enforcing intact isData applied

/-- A batch changes neither the catalog of a backend nor whether it enforces foreign keys. -/
theorem submit_settings {changes : List Change} : (backend.submit changes).2.catalog = backend.catalog ∧
    (backend.submit changes).2.enforcing = backend.enforcing := by
  obtain ⟨_, _, same⟩ := submit_rest backend changes
  rw [same]
  exact ⟨rfl, rfl⟩

/-- A backend that starts without rows, as one of its handles sees it. Any handle may come next, but only
those that enforce foreign keys submit, and they submit no commands. -/
inductive Served (catalog : Catalog) : MemoryBackend → Prop
  | empty (enforcing : Bool) : Served catalog (.empty catalog enforcing)
  | withForeignKeys {backend : MemoryBackend} (enforcing : Bool) :
      Served catalog backend → Served catalog (backend.withForeignKeys enforcing)
  | setAvailable {backend : MemoryBackend} (available : Bool) :
      Served catalog backend → Served catalog (backend.setAvailable available)
  | register {backend : MemoryBackend} (entity : String) (handler : CommandHandler) :
      Served catalog backend → Served catalog (backend.register entity handler)
  | submit {backend : MemoryBackend} {changes : List Change} (enforcing : backend.enforcing = true)
      (isData : ∀ change ∈ changes, change.isDataChange = true) :
      Served catalog backend → Served catalog (backend.submit changes).2

theorem Served.intact {catalog : Catalog} (served : Served catalog backend) :
    backend.catalog = catalog ∧ backend.tables.Intact catalog := by
  induction served with
  | empty => exact ⟨rfl, Tables.empty_intact⟩
  | withForeignKeys _ _ ih => exact ih
  | setAvailable _ _ ih => exact ih
  | register _ _ _ ih => exact ih
  | submit enforcing isData _ ih =>
    obtain ⟨rfl, intact⟩ := ih
    exact ⟨submit_settings.1, submit_intact enforcing intact isData⟩

/-- Whatever enforcing handles submit: the key of a row stands in its key field, its columns are the declared
fields, each with a value of its type that is not null where it may not be, and a foreign key that is not null
is the key of a row of its target. -/
theorem Served.rows_whole {catalog : Catalog} (served : Served catalog backend) {entity : String}
    (held : backend.row? entity key = some columns) :
    ∃ definition, catalog.entities[entity]? = some definition ∧
      columns[definition.key]? = some key.toValue ∧
      (∀ name : String, name ∈ columns ↔ ∃ field ∈ definition.fields, field.name = name) ∧
      (∀ field ∈ definition.fields, ∃ value, columns[field.name]? = some value ∧
        field.type.admits value = true ∧ (field.required = true → value.isNull = false)) ∧
      ∀ relationship ∈ definition.relationships, columns[relationship.field]? = some .null ∨
        ∃ principal others, columns[relationship.field]? = some (Key.toValue principal) ∧
          backend.row? relationship.target.text principal = some others := by
  obtain ⟨-, intact⟩ := served.intact
  obtain ⟨definition, registered, stores, filled⟩ := intact.row held
  have named := Catalog.name_of_entities registered
  have declared : ∀ {name : String}, name ∈ columns ↔ ∃ field ∈ definition.fields, field.name = name :=
    stores.1.mem_iff
  refine ⟨definition, registered, stores.keyField, fun _ => declared, fun field member => ?_,
    fun relationship linked => ?_⟩
  · have found := Definition.field?_of_mem (catalog.registered entity definition registered).2 member
    obtain ⟨value, written⟩ := stores.1.value_of_field? found
    refine ⟨value, written, stores.1.admits found written, fun required => ?_⟩
    exact filled field.name value written (by simp [Definition.requires, found, required])
  · obtain ⟨-, field, found, keyed⟩ := (Catalog.valid_of_entities registered).fields relationship linked
    obtain ⟨value, written⟩ := stores.1.value_of_field? found
    by_cases null : value = .null
    · exact .inl (null ▸ written)
    · have present : value.isNull = false := by cases value <;> simp_all [Value.isNull]
      obtain ⟨principal, isKey⟩ := DataType.key_of_admits keyed (stores.1.admits found written) present
      have points : definition.Points columns relationship.target.text principal :=
        ⟨relationship, linked, rfl, by rw [written]; exact isKey⟩
      rw [← named] at held registered
      obtain ⟨others, resolved⟩ := intact.resolved (Catalog.mem_definitions.2 registered) held points
      exact .inr ⟨principal, others, by rw [written, Key.ofValue?_eq_some_iff.1 isKey], resolved⟩

end MemoryBackend

namespace Forest

/-- A node that is its own parent, then moved to another key with itself as parent, while a node whose parent
does not exist is refused. -/
def replanted : MemoryBackend :=
  let planted := (MemoryBackend.empty catalog true).submit [.insert nodeName (columns 1 (.integer 1))]
  let moved := planted.2.submit [.update nodeName (.ofList [("id", Value.integer 1)]) (columns 2 (.integer 2))]
  (moved.2.submit [.insert nodeName (columns 3 .null), .insert nodeName (columns 4 (.integer 9))]).2

theorem replanted_served : MemoryBackend.Served catalog replanted :=
  .submit (MemoryBackend.submit_settings.2.trans MemoryBackend.submit_settings.2) (by decide) <|
    .submit MemoryBackend.submit_settings.2 (by decide) <| .submit rfl (by decide) (.empty true)

theorem replanted_rows_whole : MemoryBackend.Served catalog replanted ∧
    replanted.row? "node" (.integer 2) = some (columns 2 (.integer 2)) ∧
    ∃ principal others, (columns 2 (.integer 2))["parent"]? = some (Key.toValue principal) ∧
      replanted.row? "node" principal = some others := by
  have held : replanted.row? "node" (.integer 2) = some (columns 2 (.integer 2)) := by decide +kernel
  obtain ⟨definition, registered, -, -, -, references⟩ := MemoryBackend.Served.rows_whole replanted_served held
  have same : catalog.entities["node"]? = some node := by decide +kernel
  cases same.symm.trans registered
  have linked : (⟨"up", "parent", nodeName, none⟩ : Relationship) ∈ node.relationships := by decide
  refine ⟨replanted_served, held, (references _ linked).resolve_left ?_⟩
  decide +kernel

end Forest
end EntityGraph
