import EntityGraph.Proofs.Filing
import EntityGraph.Proofs.Integrity

/-! # Overlays

An update that leaves the key of its row alone lays the values that it carries over the row and keeps the
rest of it. What comes of such an update depends on the tables only through the keys that they hold, and
overlays of different fields may be laid in either order. -/
namespace EntityGraph

/-- Values for fields of one row. -/
structure Overlay where
  entity : String
  key : Key
  values : Columns

namespace Overlay

/-- Two overlays give no field of a row a value both. -/
def Apart (one other : Overlay) : Prop :=
  one.entity = other.entity → one.key = other.key → ∀ field ∈ one.values, field ∉ other.values

/-- The value that an overlay gives to a field of a row. -/
def value? (overlay : Overlay) (entity : String) (key : Key) (field : String) : Option Value :=
  if overlay.entity = entity ∧ overlay.key = key then overlay.values[field]? else none

theorem Apart.value?_eq_none {one other : Overlay} (apart : one.Apart other) {field : String}
    (given : field ∈ one.values) : other.value? one.entity one.key field = none := by
  unfold value?
  split_ifs with here
  · exact Std.ExtTreeMap.getElem?_eq_none (apart here.1.symm here.2.symm field given)
  · rfl

end Overlay

namespace Tables
variable {tables : Tables} {overlay other : Overlay} {overlays others : List Overlay} {entity : String} {key : Key}
  {columns : Columns}

/-- Tables that hold rows under the same keys. -/
def SameKeys (tables tables' : Tables) : Prop :=
  ∀ (entity : String) (key : Key), tables.holds entity key = tables'.holds entity key

/-- Lays values over a row, if it is there. -/
def lay (tables : Tables) (overlay : Overlay) : Tables :=
  tables.modify overlay.entity fun table => table.modify overlay.key fun columns => columns ∪ overlay.values

theorem getElem?_lay : (tables.lay overlay)[entity]? =
    if overlay.entity = entity then
      tables[entity]?.map fun table => table.modify overlay.key fun columns => columns ∪ overlay.values
    else tables[entity]? := by
  simp only [lay, Std.ExtTreeMap.getElem?_modify, Std.compare_eq_iff_eq]
  grind

theorem row?_lay : (tables.lay overlay).row? entity key =
    if overlay.entity = entity ∧ overlay.key = key then
      (tables.row? entity key).map fun columns => columns ∪ overlay.values
    else tables.row? entity key := by
  simp only [row?, of, getElem?_lay]
  by_cases same : overlay.entity = entity
  · cases tables[entity]? with
    | none => simp [same]
    | some table =>
      simp only [same, if_true, true_and, Option.map_some, Option.getD_some, Std.ExtTreeMap.getElem?_modify,
        Std.compare_eq_iff_eq]
      grind
  · simp [same]

theorem holds_lay : (tables.lay overlay).holds entity key = tables.holds entity key := by
  rw [Bool.eq_iff_iff, holds_iff, holds_iff, row?_lay]
  split_ifs
  · cases tables.row? entity key <;> simp
  · rfl

@[simp] theorem mem_lay : entity ∈ tables.lay overlay ↔ entity ∈ tables := Std.ExtTreeMap.mem_modify

/-- Tables of the same entities are equal when they hold the same rows. -/
theorem ext_row? {tables' : Tables} (names : ∀ entity : String, entity ∈ tables ↔ entity ∈ tables')
    (rows : ∀ (entity : String) (key : Key), tables.row? entity key = tables'.row? entity key) :
    tables = tables' := by
  apply Std.ExtTreeMap.ext_getElem?
  intro entity
  have listed := names entity
  simp only [Std.ExtTreeMap.mem_iff_isSome_getElem?] at listed
  have same : tables.of entity = tables'.of entity := Std.ExtTreeMap.ext_getElem? (rows entity)
  cases here : tables[entity]? <;> cases there : tables'[entity]? <;> simp_all [of]

theorem lay_of_absent (absent : tables.row? overlay.entity overlay.key = none) : tables.lay overlay = tables := by
  refine ext_row? (fun entity => mem_lay) fun entity key => ?_
  rw [row?_lay]
  split_ifs with here
  · obtain ⟨rfl, rfl⟩ := here
    rw [absent]
    rfl
  · rfl

theorem lay_of_row (found : tables.row? overlay.entity overlay.key = some columns) :
    tables.lay overlay = tables.put overlay.entity overlay.key (columns ∪ overlay.values) := by
  have listed : overlay.entity ∈ tables := by
    by_contra unlisted
    simp [row?, of, Std.ExtTreeMap.getElem?_eq_none unlisted] at found
  refine ext_row? (fun entity => ?_) fun entity key => ?_
  · rw [mem_lay, put, Std.ExtTreeMap.mem_insert, Std.compare_eq_iff_eq]
    exact ⟨.inr, fun either => either.elim (fun same => same ▸ listed) id⟩
  · rw [row?_lay, row?_put]
    by_cases here : overlay.entity = entity ∧ overlay.key = key
    · obtain ⟨rfl, rfl⟩ := here
      simp [found]
    · rw [if_neg here, if_neg fun there => here ⟨there.1.symm, there.2.symm⟩]

theorem union_comm_of_apart {first second : Columns} (apart : ∀ field ∈ first, field ∉ second) :
    (columns ∪ first) ∪ second = (columns ∪ second) ∪ first := by
  apply Std.ExtTreeMap.ext_getElem?
  intro field
  simp only [Std.ExtTreeMap.getElem?_union]
  cases theirs : first[field]? with
  | none => cases second[field]? <;> rfl
  | some value =>
    have held : field ∈ first := mem_iff_exists_getElem?.2 ⟨_, theirs⟩
    simp [Std.ExtTreeMap.getElem?_eq_none (apart field held)]

theorem lay_comm (apart : overlay.Apart other) : (tables.lay overlay).lay other = (tables.lay other).lay overlay := by
  refine ext_row? (fun entity => by simp only [mem_lay]) fun entity key => ?_
  simp only [row?_lay]
  by_cases one : overlay.entity = entity ∧ overlay.key = key
  · by_cases two : other.entity = entity ∧ other.key = key
    · have differ := apart (one.1.trans two.1.symm) (one.2.trans two.2.symm)
      simp only [one, two, and_self, if_true, Option.map_map]
      cases tables.row? entity key with
      | none => rfl
      | some columns => exact congrArg some (union_comm_of_apart differ)
    · simp only [if_pos one, if_neg two]
  · simp only [if_neg one]

/-- Overlays that are apart from all later ones may be laid after them. -/
theorem foldl_lay_comm (apart : ∀ one ∈ overlays, ∀ two ∈ others, one.Apart two) :
    others.foldl lay (overlays.foldl lay tables) = overlays.foldl lay (others.foldl lay tables) := by
  induction overlays generalizing tables with
  | nil => rfl
  | cons first overlays ih =>
    have swapped : ∀ tables : Tables, others.foldl lay (tables.lay first) = (others.foldl lay tables).lay first := by
      have differ := apart first (by simp)
      clear ih apart
      induction others with
      | nil => exact fun _ => rfl
      | cons second others ih =>
        intro tables
        rw [List.foldl_cons, lay_comm (differ second (by simp)), ih fun two member => differ two (by simp [member])]
        rfl
    rw [List.foldl_cons, List.foldl_cons, ih fun one member => apart one (by simp [member]), swapped]

theorem holds_foldl_lay : (overlays.foldl lay tables).holds entity key = tables.holds entity key := by
  induction overlays generalizing tables with
  | nil => rfl
  | cons first overlays ih => rw [List.foldl_cons, ih, holds_lay]

theorem holds_elim_lay {maybe : Option Overlay} :
    (maybe.elim tables tables.lay).holds entity key = tables.holds entity key := by
  cases maybe with
  | none => rfl
  | some overlay => exact holds_lay

/-- A value that an overlay gives stays when no other overlay gives the field another one. -/
theorem value_foldl_lay {field : String} {value : Value} (found : tables.row? entity key = some columns)
    (given : columns[field]? = some value ∨ ∃ one ∈ overlays, one.value? entity key field = some value)
    (agree : ∀ one ∈ overlays, one.value? entity key field = none ∨ one.value? entity key field = some value) :
    ∃ result, (overlays.foldl lay tables).row? entity key = some result ∧ result[field]? = some value := by
  induction overlays generalizing tables columns with
  | nil => exact ⟨columns, found, given.resolve_right (by simp)⟩
  | cons first overlays ih =>
    rw [List.forall_mem_cons] at agree
    obtain ⟨fits, agree⟩ := agree
    simp only [List.exists_mem_cons_iff] at given
    by_cases here : first.entity = entity ∧ first.key = key
    · rw [Overlay.value?, if_pos here] at fits
      have laid : (tables.lay first).row? entity key = some (columns ∪ first.values) := by
        rw [row?_lay, if_pos here, found]
        rfl
      refine ih laid ?_ agree
      rw [Std.ExtTreeMap.getElem?_union]
      rcases fits with left | written
      · refine given.imp (fun held => by rw [left]; exact held) fun either => either.resolve_left ?_
        simp [Overlay.value?, here, left]
      · exact .inl (by rw [written]; rfl)
    · refine ih (by rw [row?_lay, if_neg here, found]) (given.imp_right fun either => ?_) agree
      exact either.resolve_left (by simp [Overlay.value?, here])

end Tables

namespace MemoryBackend
variable {backend : MemoryBackend} {tables tables' after : Tables} {definition : Definition} {key : Key}
  {columns data keys values : Columns}

theorem union_empty : columns ∪ ∅ = columns := by
  apply Std.ExtTreeMap.ext_getElem?
  simp [Std.ExtTreeMap.getElem?_union]

theorem insert_union {field : String} {value : Value} :
    columns.insert field value ∪ values = columns ∪ (Std.ExtTreeMap.insert ∅ field value ∪ values) := by
  apply Std.ExtTreeMap.ext_getElem?
  intro name
  simp only [Std.ExtTreeMap.getElem?_union, Std.ExtTreeMap.getElem?_insert, Std.ExtTreeMap.getElem?_empty]
  cases values[name]? <;> by_cases same : compare field name = .eq <;> simp [same]

/-- Overwriting columns lays the converted values over them. -/
theorem overwrite_eq {entries : List (String × Value)} :
    overwrite definition columns entries =
      (overwrite definition ∅ entries).map fun values => columns ∪ values := by
  induction entries generalizing columns with
  | nil => exact congrArg Except.ok union_empty.symm
  | cons entry entries ih =>
    obtain ⟨field, value⟩ := entry
    simp only [overwrite]
    cases (definition.coerceField field value).mapError BackendError.ofRow with
    | error e => rfl
    | ok value =>
      simp only [bind, Except.bind]
      split
      · rfl
      · rw [ih, @ih (Std.ExtTreeMap.insert ∅ field value)]
        cases overwrite definition ∅ entries with
        | error e => rfl
        | ok values => exact congrArg Except.ok insert_union

/-- Each field takes its converted value, and the others stay. -/
theorem overwrite_values {entries : List (String × Value)} (distinct : (entries.map Prod.fst).Nodup)
    (h : overwrite definition columns entries = .ok values) (field : String) :
    (∀ value, (field, value) ∈ entries → ∃ stored, definition.coerceField field value = .ok stored ∧
      values[field]? = some stored) ∧
    (field ∉ entries.map Prod.fst → values[field]? = columns[field]?) := by
  induction entries generalizing columns with
  | nil =>
    cases h
    simp
  | cons entry entries ih =>
    obtain ⟨first, raw⟩ := entry
    obtain ⟨stored, coerced, h⟩ := bind_eq_ok_iff.1 h
    rw [mapError_eq_ok_iff] at coerced
    split_ifs at h
    rw [List.map_cons, List.nodup_cons] at distinct
    obtain ⟨later, others⟩ := ih distinct.2 h
    refine ⟨fun value member => ?_, fun unlisted => ?_⟩
    · rcases List.mem_cons.1 member with here | there
      · cases here
        exact ⟨stored, coerced, by rw [others distinct.1, Std.ExtTreeMap.getElem?_insert_self]⟩
      · exact later value there
    · rw [List.map_cons, List.mem_cons, not_or] at unlisted
      rw [others unlisted.2, Std.ExtTreeMap.getElem?_insert, if_neg]
      exact fun same => unlisted.1 (Std.compare_eq_iff_eq.1 same).symm

/-- Where foreign keys are enforced, rows refer to rows. -/
def Resolved (backend : MemoryBackend) (tables : Tables) : Prop :=
  ∀ ⦃entity target : String⦄ ⦃definition : Definition⦄ ⦃key principal : Key⦄ ⦃columns : Columns⦄,
    backend.enforcing = true → backend.catalog.entities[entity]? = some definition →
      tables.row? entity key = some columns → definition.Points columns target principal →
        tables.holds target principal = true

/-- Tables are resolved if and only if each of their rows passes the check of its references. -/
theorem resolved_iff : backend.Resolved tables ↔ ∀ owner ∈ backend.catalog.entities.toList,
    ∀ row ∈ (tables.of owner.1).toList, backend.checkReferences tables owner.2 row.1 row.2 = .ok () := by
  simp only [Resolved, Tables.holds_iff, checkReferences_eq_ok_iff, Prod.forall,
    Std.ExtTreeMap.mem_toList_iff_getElem?_eq_some, Tables.row?]
  exact ⟨fun resolved entity definition known key columns held enforced target principal points =>
      resolved enforced known held points,
    fun each entity target definition key principal columns enforced known held points =>
      each entity definition known key columns held enforced target principal points⟩

instance : Decidable (backend.Resolved tables) := decidable_of_iff _ resolved_iff.symm

/-- Rows stand under their own keys and, where foreign keys are enforced, refer to rows. -/
structure Linked (backend : MemoryBackend) (tables : Tables) : Prop where
  keyed : tables.Keyed backend.catalog
  resolved : backend.Resolved tables

theorem findSome?_congr {α β : Type} {f g : α → Option β} {l : List α} (same : ∀ a ∈ l, f a = g a) :
    l.findSome? f = l.findSome? g := by
  induction l with
  | nil => rfl
  | cons a l ih =>
    rw [List.findSome?_cons, List.findSome?_cons, same a (by simp), ih fun b later => same b (by simp [later])]

/-- The check of the references of a row that values are laid over is the check of these values. -/
theorem checkReferences_union (linked : backend.Linked tables)
    (registered : backend.catalog.entities[definition.name.text]? = some definition)
    (found : tables.row? definition.name.text key = some columns)
    (same : tables'.SameKeys tables) :
    backend.checkReferences tables' definition key (columns ∪ values) =
      backend.checkReferences tables definition key values := by
  unfold checkReferences
  cases enforced : backend.enforcing with
  | false => rfl
  | true =>
    have alike : dangling? tables' definition (columns ∪ values) = dangling? tables definition values := by
      refine findSome?_congr fun relationship declared => ?_
      simp only [Std.ExtTreeMap.getElem?_union, same _ _]
      cases written : values[relationship.field]? with
      | some value => rfl
      | none =>
        -- the value of the row itself, which leads to a row already
        cases leads : columns[relationship.field]?.bind Key.ofValue? with
        | none => simp [leads]
        | some principal =>
          have held := linked.resolved enforced registered found ⟨relationship, declared, rfl, leads⟩
          simp [leads, held]
    rw [alike]

/-- An update that does not write the key of a row of the backend. -/
def InPlace (backend : MemoryBackend) (change : Change) : Prop :=
  ∃ entity keys data, change = .update entity keys data ∧ ∀ {definition : Definition},
    backend.catalog.entities[entity.text]? = some definition → definition.key ∈ keys → definition.key ∉ data

/-- The overlay of an update, `none` if the update names no row or a value does not fit. -/
def overlay? (backend : MemoryBackend) : Change → Option Overlay
  | .update entity keys data => do
    let definition ← backend.catalog.entities[entity.text]?
    let key ← definition.keyOf? keys
    let values ← (overwrite definition ∅ data.toList).toOption
    return ⟨entity.text, key, values⟩
  | _ => none

theorem toList_names_nodup : (data.toList.map Prod.fst).Nodup := by
  rw [Std.ExtTreeMap.map_fst_toList_eq_keys]
  exact Std.ExtTreeMap.nodup_keys

theorem mem_of_keyOf? (named : definition.keyOf? keys = some key) : definition.key ∈ keys := by
  obtain ⟨value, held, -⟩ := Option.bind_eq_some_iff.1 named
  exact mem_iff_exists_getElem?.2 ⟨value, held⟩

theorem none_of_fitting {field : String} (unwritten : field ∉ data)
    (fitting : overwrite definition ∅ data.toList = .ok values) : values[field]? = none := by
  rw [(overwrite_values toList_names_nodup fitting _).2, Std.ExtTreeMap.getElem?_empty]
  rwa [Std.ExtTreeMap.map_fst_toList_eq_keys, Std.ExtTreeMap.mem_keys]

theorem checkReferences_same (same : tables'.SameKeys tables) :
    backend.checkReferences tables' definition key values = backend.checkReferences tables definition key values := by
  simp only [checkReferences, dangling?, same _ _]

/-- Overlays whose references are resolved leave the tables linked. -/
theorem Linked.lay (linked : backend.Linked tables)
    (registered : backend.catalog.entities[definition.name.text]? = some definition)
    (unwritten : values[definition.key]? = none)
    (resolved : backend.checkReferences tables definition key values = .ok ()) :
    backend.Linked (tables.lay ⟨definition.name.text, key, values⟩) where
  keyed entity owner place found known held := by
    rw [Tables.row?_lay] at held
    split_ifs at held with here
    · obtain ⟨rfl, rfl⟩ := here
      cases registered.symm.trans known
      obtain ⟨columns, found, rfl⟩ := Option.map_eq_some_iff.1 held
      rw [← linked.keyed registered found, Definition.keyOf?, Std.ExtTreeMap.getElem?_union, unwritten]
      rfl
    · exact linked.keyed known held
  resolved {entity target owner place principal found} enforced known held points := by
    rw [Tables.holds_lay]
    rw [Tables.row?_lay] at held
    split_ifs at held with here
    · obtain ⟨rfl, rfl⟩ := here
      cases registered.symm.trans known
      obtain ⟨columns, found, rfl⟩ := Option.map_eq_some_iff.1 held
      have whole : backend.checkReferences tables definition key (columns ∪ values) = .ok () :=
        (checkReferences_union linked registered found fun _ _ => rfl).trans resolved
      exact Tables.holds_iff.2 (checkReferences_eq_ok_iff.1 whole enforced target principal points)
    · exact linked.resolved enforced known held points

section Update
variable {affected : Nat} (registered : backend.catalog.entities[definition.name.text]? = some definition)
  (named : definition.keyOf? keys = some key)

theorem updateRow_of_absent (named : definition.keyOf? keys = some key)
    (absent : tables.row? definition.name.text key = none) :
    backend.updateRow tables definition keys data = (.ok 0, tables) := by
  simp only [updateRow, keyOf_eq_ok_iff.2 named, absent]

theorem updateRow_of_unfit (named : definition.keyOf? keys = some key)
    (found : tables.row? definition.name.text key = some columns) {error : BackendError}
    (unfit : overwrite definition ∅ data.toList = .error error) :
    backend.updateRow tables definition keys data = (.error error, tables) := by
  have refused : backend.updatedRow tables definition key columns data = .error error := by
    rw [updatedRow, overwrite_eq, unfit]
    rfl
  simp only [updateRow, keyOf_eq_ok_iff.2 named, found, refused]

include registered named

/-- An update whose values fit is laid over its row, whose references are then checked. -/
theorem updateRow_of_fitting (linked : backend.Linked tables) (kept : definition.key ∉ data)
    (found : tables.row? definition.name.text key = some columns)
    (fitting : overwrite definition ∅ data.toList = .ok values) :
    backend.updateRow tables definition keys data =
      ((backend.checkReferences tables definition key values).map fun () => 1,
        tables.lay ⟨definition.name.text, key, values⟩) := by
  have laid : tables.lay ⟨definition.name.text, key, values⟩ =
      tables.put definition.name.text key (columns ∪ values) := Tables.lay_of_row found
  have stays : definition.keyOf? (columns ∪ values) = some key := by
    rw [← linked.keyed registered found, Definition.keyOf?, Std.ExtTreeMap.getElem?_union,
      none_of_fitting kept fitting]
    rfl
  have updated : backend.updatedRow tables definition key columns data = .ok (key, columns ∪ values) := by
    rw [updatedRow, overwrite_eq, fitting]
    simp only [Except.map, bind, Except.bind, keyOf_eq_ok_iff.2 stays, checkMove, if_true]
    rfl
  simp only [updateRow, keyOf_eq_ok_iff.2 named, found, updated, Tables.put_drop, ← laid]
  rw [checkReferences_union linked registered found fun _ _ => Tables.holds_lay]

/-- What comes of an update in place depends on the tables only through the keys that they hold. -/
theorem updateRow_outcome (linked : backend.Linked tables) (linked' : backend.Linked tables')
    (same : tables'.SameKeys tables)
    (kept : definition.key ∉ data) :
    (backend.updateRow tables' definition keys data).1 = (backend.updateRow tables definition keys data).1 := by
  cases found : tables.row? definition.name.text key with
  | none =>
    have absent : tables'.row? definition.name.text key = none := by
      rw [← Tables.holds_eq_false_iff, same, Tables.holds_eq_false_iff, found]
    rw [updateRow_of_absent named found, updateRow_of_absent named absent]
  | some columns =>
    obtain ⟨columns', found'⟩ : ∃ columns', tables'.row? definition.name.text key = some columns' := by
      rw [← Tables.holds_iff, same, Tables.holds_iff]
      exact ⟨columns, found⟩
    cases fitting : overwrite definition ∅ data.toList with
    | error e => rw [updateRow_of_unfit named found fitting, updateRow_of_unfit named found' fitting]
    | ok values =>
      rw [updateRow_of_fitting registered named linked kept found fitting,
        updateRow_of_fitting registered named linked' kept found' fitting, checkReferences_same same]

/-- An update that succeeds finds no row, or lays its values over the row. -/
theorem updateRow_laid (linked : backend.Linked tables) (kept : definition.key ∉ data)
    (ok : backend.updateRow tables definition keys data = (.ok affected, after)) :
    (tables.row? definition.name.text key = none ∧ after = tables) ∨
      ∃ values, overwrite definition ∅ data.toList = .ok values ∧
        after = tables.lay ⟨definition.name.text, key, values⟩ ∧ backend.Linked after := by
  cases found : tables.row? definition.name.text key with
  | none =>
    rw [updateRow_of_absent named found] at ok
    cases ok
    exact .inl ⟨rfl, rfl⟩
  | some columns =>
    cases fitting : overwrite definition ∅ data.toList with
    | error e =>
      rw [updateRow_of_unfit named found fitting] at ok
      cases ok
    | ok values =>
      rw [updateRow_of_fitting registered named linked kept found fitting] at ok
      obtain ⟨-, rfl, resolved⟩ := Transfer.counted_eq_ok_iff.1 ok
      exact .inr ⟨values, rfl, rfl, linked.lay registered (none_of_fitting kept fitting) resolved⟩

end Update

section Batch
variable {change : Change} {changes : List Change} {affected : Nat}

theorem apply_update {entity : EntityName} (known : backend.catalog.entities[entity.text]? = some definition) :
    backend.apply tables (.update entity keys data) = backend.updateRow tables definition keys data := by
  simp only [apply, definition_eq_ok_iff.2 known]

theorem apply_outcome (linked : backend.Linked tables) (linked' : backend.Linked tables')
    (same : tables'.SameKeys tables)
    (inPlace : backend.InPlace change) : (backend.apply tables' change).1 = (backend.apply tables change).1 := by
  obtain ⟨entity, keys, data, rfl, kept⟩ := inPlace
  cases known : backend.catalog.entities[entity.text]? with
  | none => simp [apply, MemoryBackend.definition, Catalog.get, known, Except.mapError]
  | some definition =>
    have registered := known
    rw [← Catalog.name_of_entities known] at registered
    rw [apply_update known, apply_update known]
    cases named : definition.keyOf? keys with
    | none => simp [updateRow, keyOf, named]
    | some key => exact updateRow_outcome registered named linked linked' same (kept known (mem_of_keyOf? named))

section Single
variable {entity : EntityName}

/-- An update that succeeds names a row of a known entity. -/
theorem named_of_apply (ok : (backend.apply tables (.update entity keys data)).1 = .ok affected) :
    ∃ definition key, backend.catalog.entities[entity.text]? = some definition ∧
      definition.keyOf? keys = some key := by
  cases known : backend.catalog.entities[entity.text]? with
  | none => simp [apply, MemoryBackend.definition, Catalog.get, known, Except.mapError] at ok
  | some definition =>
    rw [apply_update known] at ok
    cases named : definition.keyOf? keys with
    | none => simp [updateRow, keyOf, named] at ok
    | some key => exact ⟨definition, key, rfl, named⟩

theorem overlay?_update (known : backend.catalog.entities[entity.text]? = some definition)
    (named : definition.keyOf? keys = some key) :
    backend.overlay? (.update entity keys data) =
      (overwrite definition ∅ data.toList).toOption.map fun values => ⟨entity.text, key, values⟩ := by
  simp only [overlay?, known, named, bind, Option.bind]
  cases overwrite definition ∅ data.toList <;> rfl

/-- An update that succeeds and finds its row has an overlay. -/
theorem overlay?_of_apply (ok : (backend.apply tables (.update entity keys data)).1 = .ok affected)
    (known : backend.catalog.entities[entity.text]? = some definition) (named : definition.keyOf? keys = some key)
    (found : tables.row? entity.text key = some columns) :
    ∃ values, backend.overlay? (.update entity keys data) = some ⟨entity.text, key, values⟩ := by
  rw [← Catalog.name_of_entities known] at found
  rw [apply_update known] at ok
  rw [overlay?_update known named]
  cases fitting : overwrite definition ∅ data.toList with
  | error e =>
    rw [updateRow_of_unfit named found fitting] at ok
    cases ok
  | ok values => exact ⟨values, rfl⟩

end Single

/-- An update in place that succeeds lays its overlay over the tables, which stay linked. -/
theorem apply_laid (linked : backend.Linked tables) (inPlace : backend.InPlace change)
    (ok : backend.apply tables change = (.ok affected, after)) :
    after = (backend.overlay? change).elim tables tables.lay ∧ backend.Linked after := by
  obtain ⟨entity, keys, data, rfl, kept⟩ := inPlace
  obtain ⟨definition, key, known, named⟩ := named_of_apply (congrArg Prod.fst ok)
  have name := Catalog.name_of_entities known
  rw [apply_update known] at ok
  rw [overlay?_update known named]
  rcases updateRow_laid (name.symm ▸ known) named linked (kept known (mem_of_keyOf? named)) ok with
    ⟨absent, rfl⟩ | ⟨values, fitting, rfl, kept⟩
  · rw [name] at absent
    refine ⟨?_, linked⟩
    cases overwrite definition ∅ data.toList with
    | error e => rfl
    | ok values => exact (Tables.lay_of_absent absent).symm
  · rw [name] at kept ⊢
    rw [fitting]
    exact ⟨rfl, kept⟩

variable (inPlace : ∀ change ∈ changes, backend.InPlace change)
include inPlace

/-- What comes of updates in place depends on the tables only through the keys that they hold. -/
theorem applyAll_outcome (linked : backend.Linked tables) (linked' : backend.Linked tables')
    (same : tables'.SameKeys tables) :
    (backend.applyAll tables' changes).1 = (backend.applyAll tables changes).1 := by
  induction changes generalizing tables tables' with
  | nil => rfl
  | cons change changes ih =>
    rw [List.forall_mem_cons] at inPlace
    have outcome := apply_outcome linked linked' same inPlace.1
    simp only [applyAll]
    cases first : backend.apply tables change with
    | mk result next =>
      cases first' : backend.apply tables' change with
      | mk result' next' =>
        rw [first, first'] at outcome
        cases outcome
        cases result with
        | error e => rfl
        | ok one =>
          obtain ⟨rfl, kept⟩ := apply_laid linked inPlace.1 first
          obtain ⟨rfl, kept'⟩ := apply_laid linked' inPlace.1 first'
          have rest := ih inPlace.2 kept kept' fun entity key => by
            rw [Tables.holds_elim_lay, Tables.holds_elim_lay, same]
          exact congrArg (Except.map (one + ·)) rest

/-- Updates in place that succeed lay their overlays over the tables in turn. -/
theorem applyAll_laid (linked : backend.Linked tables) (ok : backend.applyAll tables changes = (.ok affected, after)) :
    after = (changes.filterMap backend.overlay?).foldl Tables.lay tables ∧ backend.Linked after := by
  induction changes generalizing tables affected with
  | nil =>
    cases ok
    exact ⟨rfl, linked⟩
  | cons change changes ih =>
    rw [List.forall_mem_cons] at inPlace
    obtain ⟨one, rest, next, -, applied, ok⟩ := applyAll_cons_eq_ok_iff.1 ok
    obtain ⟨rfl, kept⟩ := apply_laid linked inPlace.1 applied
    obtain ⟨rfl, kept⟩ := ih inPlace.2 kept ok
    refine ⟨?_, kept⟩
    cases written : backend.overlay? change with
    | none => rw [List.filterMap_cons_none written, Option.elim_none]
    | some overlay => rw [List.filterMap_cons_some written, Option.elim_some, List.foldl_cons]

/-- Each update of a batch that succeeds would do so alone. -/
theorem apply_of_applyAll (linked : backend.Linked tables)
    (ok : backend.applyAll tables changes = (.ok affected, after)) :
    ∀ change ∈ changes, ∃ one, (backend.apply tables change).1 = .ok one := by
  induction changes generalizing tables affected with
  | nil => simp
  | cons change changes ih =>
    rw [List.forall_mem_cons] at inPlace ⊢
    obtain ⟨one, rest, next, -, applied, ok⟩ := applyAll_cons_eq_ok_iff.1 ok
    refine ⟨⟨one, by rw [applied]⟩, fun later member => ?_⟩
    obtain ⟨rfl, kept⟩ := apply_laid linked inPlace.1 applied
    obtain ⟨two, alone⟩ := ih inPlace.2 kept ok later member
    have outcome := apply_outcome kept linked (fun _ _ => Tables.holds_elim_lay.symm) (inPlace.2 later member)
    exact ⟨two, outcome.trans alone⟩

end Batch

/-- The backend with other tables and another history. -/
def holding (backend : MemoryBackend) (tables : Tables) (batches : List (List Change)) : MemoryBackend :=
  { backend with tables, batches }

section Submit
variable {changes : List Change} {batches : List (List Change)}

theorem applyAll_holding :
    (backend.holding tables' batches).applyAll tables changes = backend.applyAll tables changes := by
  induction changes generalizing tables with
  | nil => rfl
  | cons change changes ih =>
    have first : (backend.holding tables' batches).apply tables change = backend.apply tables change := by
      cases change <;> rfl
    simp only [applyAll, first, ih]

theorem submit_fst : (backend.submit changes).1 =
    (backend.checkAvailable >>= fun _ => (backend.applyAll backend.tables changes).1) := by
  unfold submit
  cases backend.checkAvailable with
  | error e => rfl
  | ok =>
    cases applied : backend.applyAll backend.tables changes with
    | mk outcome after => cases outcome <;> rfl

theorem applyAll_of_submit {affected : Nat} (ok : (backend.submit changes).1 = .ok affected) :
    ∃ after, backend.applyAll backend.tables changes = (.ok affected, after) := by
  rw [submit_fst] at ok
  obtain ⟨-, applied⟩ := check_eq_ok_iff.1 ok
  exact ⟨_, Prod.ext applied rfl⟩

theorem Linked.holding (linked : backend.Linked tables) : (backend.holding tables' batches).Linked tables :=
  ⟨linked.keyed, linked.resolved⟩

/-- The tables after a batch of updates in place that is accepted or refused. -/
def settled (backend : MemoryBackend) (changes : List Change) (accepted : Bool) (tables : Tables) : Tables :=
  if accepted then (changes.filterMap backend.overlay?).foldl Tables.lay tables else tables

theorem settled_holding {accepted : Bool} :
    (backend.holding tables' batches).settled changes accepted tables = backend.settled changes accepted tables := by
  have same : (backend.holding tables' batches).overlay? = backend.overlay? := by
    funext change
    cases change <;> rfl
  unfold settled
  rw [same]

theorem holds_settled {accepted : Bool} {entity : String} :
    (backend.settled changes accepted tables).holds entity key = tables.holds entity key := by
  unfold settled
  split_ifs
  · exact Tables.holds_foldl_lay
  · rfl

/-- Two batches whose overlays are apart settle in either order. -/
theorem settled_comm {others : List Change} {accepted accepted' : Bool}
    (apart : ∀ one ∈ changes.filterMap backend.overlay?,
      ∀ two ∈ others.filterMap backend.overlay?, one.Apart two) :
    backend.settled others accepted' (backend.settled changes accepted tables) =
      backend.settled changes accepted (backend.settled others accepted' tables) := by
  unfold settled
  split_ifs
  · exact Tables.foldl_lay_comm apart
  · rfl
  · rfl
  · rfl

variable (inPlace : ∀ change ∈ changes, backend.InPlace change)
include inPlace

theorem submit_outcome (linked : backend.Linked backend.tables) (linked' : backend.Linked tables)
    (same : tables.SameKeys backend.tables) :
    ((backend.holding tables batches).submit changes).1 = (backend.submit changes).1 := by
  have outcome : ((backend.holding tables batches).applyAll tables changes).1 =
      (backend.applyAll backend.tables changes).1 :=
    (congrArg Prod.fst applyAll_holding).trans (applyAll_outcome inPlace linked linked' same)
  rw [submit_fst, submit_fst]
  exact congrArg (fun result => backend.checkAvailable >>= fun _ => result) outcome

theorem submit_settled (linked : backend.Linked backend.tables) :
    ∃ batches, (backend.submit changes).2 =
        backend.holding (backend.settled changes (backend.submit changes).1.isOk backend.tables) batches ∧
      backend.Linked (backend.settled changes (backend.submit changes).1.isOk backend.tables) := by
  unfold submit
  cases backend.checkAvailable with
  | error e => exact ⟨backend.batches, rfl, linked⟩
  | ok =>
    cases applied : backend.applyAll backend.tables changes with
    | mk outcome after =>
      cases outcome with
      | error e => exact ⟨backend.batches, rfl, linked⟩
      | ok affected =>
        obtain ⟨rfl, kept⟩ := applyAll_laid inPlace linked applied
        exact ⟨_, rfl, kept⟩

end Submit

end MemoryBackend
end EntityGraph
