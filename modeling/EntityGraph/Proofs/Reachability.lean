import EntityGraph.Graph.Query
import EntityGraph.Graph.Save
import EntityGraph.Proofs.Tracking
import EntityGraph.Proofs.Validity
import Mathlib.Logic.Relation

/-! # Reachable graphs

A graph starts empty on a valid catalog and goes through the public operations, each with any outcome
and over any backend. Every operation is a sequence of row events, so what all events keep holds of
every reachable graph. -/
namespace EntityGraph

namespace Graph

/-- Rows that are built from the definitions of a graph and then written to. -/
inductive Built (graph : Graph) : Row → Prop
  | fresh {name : String} {identity : Nat} {row : Row} :
      graph.newRow name identity = .ok row → Built graph row
  | ofColumns {name : String} {identity : Nat} {columns : Columns} {row : Row} :
      graph.buildRow name identity columns = .ok row → Built graph row
  | set {row : Row} (field : String) (value : Value) : Built graph row → Built graph (row.set field value).2

/-- One public operation, whether it succeeds or fails. -/
inductive Step (graph : Graph) : Graph → Prop
  | query {σ : Type} [Backend σ] (backend : σ) (name : String) (parameters : Columns) (identity : Nat) :
      Step graph (graph.query backend name parameters identity).2
  | insert {row : Row} (generated : Int64) : graph.Built row → Step graph (graph.insert row generated).2
  | remove (name : String) (key : Key) : Step graph (graph.remove name key).2
  | clear (name : String) : Step graph (graph.clear name).2
  | set (name : String) (key : Key) (field : String) (value : Value) :
      Step graph (graph.set name key field value).2
  | setReference (name : String) (key : Key) (relationship : String) (target : Option Key) :
      Step graph (graph.setReference name key relationship target).2
  | command (name : String) (parameters : Columns) : Step graph (graph.command name parameters).2
  | dropChanges : Step graph graph.dropChanges
  | dropEntityChanges (name : String) : Step graph (graph.dropEntityChanges name).2
  | save {σ : Type} [Backend σ] (backend : σ) : Step graph (graph.save backend).2.1

inductive Reachable (catalog : Catalog) (config : GraphConfig) : Graph → Prop
  | start {graph : Graph} : Graph.ofCatalog catalog config = .ok graph → Reachable catalog config graph
  | step {graph next : Graph} :
      Reachable catalog config graph → Step graph next → Reachable catalog config next

/-- The entities are those of the catalog, and the bookkeeping of each is right. -/
structure Sound (graph : Graph) : Prop where
  valid : graph.catalog.validate = .ok ()
  definitions : ∀ name : String, graph.entities[name]?.map EntitySet.definition = graph.catalog.entities[name]?
  order : graph.order = saveOrder graph.catalog.definitions
  tracked : ∀ {name : String} {set : EntitySet}, graph.entities[name]? = some set → set.Tracked

variable {graph next : Graph} {name : String} {set : EntitySet} {loading : Prop}

theorem Sound.definition (h : graph.Sound) (found : graph.entities[name]? = some set) :
    graph.catalog.entities[name]? = some set.definition := by
  rw [← h.definitions, found]
  rfl

theorem Sound.definition_valid (h : graph.Sound) (found : graph.entities[name]? = some set) :
    set.definition.Valid :=
  Catalog.valid_of_entities (h.definition found)

theorem Sound.name_eq (h : graph.Sound) (found : graph.entities[name]? = some set) :
    set.definition.name.text = name :=
  Catalog.name_of_entities (h.definition found)

theorem entity_eq_ok_iff : graph.entity name = .ok set ↔ graph.entities[name]? = some set := by
  unfold entity
  cases graph.entities[name]? <;> simp

theorem row_eq_ok_iff {key : Key} {row : Row} :
    graph.row name key = .ok row ↔ ∃ set, graph.entities[name]? = some set ∧ set.get? key = some row := by
  unfold Graph.row
  rw [bind_eq_ok_iff]
  refine exists_congr fun set => and_congr entity_eq_ok_iff ?_
  cases set.get? key <;> simp

theorem writable_eq_ok_iff {definition : Definition} :
    graph.writable name = .ok definition ↔
      ∃ set, graph.entities[name]? = some set ∧ set.definition.readOnly = false ∧
        set.definition = definition := by
  unfold writable
  rw [bind_eq_ok_iff]
  refine exists_congr fun set => and_congr entity_eq_ok_iff ?_
  cases set.definition.readOnly <;> simp

theorem ofCatalog_sound {catalog : Catalog} {config : GraphConfig}
    (h : Graph.ofCatalog catalog config = .ok graph) : graph.Sound := by
  obtain ⟨valid, h⟩ := check_eq_ok_iff.1 h
  cases h
  refine ⟨mapError_eq_ok_iff.1 valid, fun name => ?_, rfl, fun {name set} found => ?_⟩
  · rw [Std.ExtTreeMap.getElem?_map]
    cases catalog.entities[name]? <;> rfl
  · rw [Std.ExtTreeMap.getElem?_map, Option.map_eq_some_iff] at found
    obtain ⟨definition, -, rfl⟩ := found
    exact EntitySet.empty_tracked definition

/-- A built row belongs to an entity of the graph and fits its definition. -/
theorem Built.typed {row : Row} (built : graph.Built row) (h : graph.Sound) :
    ∃ set, graph.entities[row.entity]? = some set ∧ row.definition = set.definition ∧ row.Typed := by
  induction built with
  | @fresh name identity row hr =>
    obtain ⟨set, found, hr⟩ := bind_eq_ok_iff.1 hr
    cases hr
    rw [entity_eq_ok_iff] at found
    have valid := (graph.catalog.registered _ _ (h.definition found)).2
    exact ⟨set, by rwa [Row.entity, Row.fresh, h.name_eq found], rfl, Row.fresh_typed valid⟩
  | @ofColumns name identity columns row hr =>
    obtain ⟨set, found, hr⟩ := bind_eq_ok_iff.1 hr
    rw [entity_eq_ok_iff] at found
    rw [mapError_eq_ok_iff] at hr
    have typed := Row.ofColumns_typed hr
    obtain ⟨columns, -, rfl⟩ := Row.ofColumns_eq_ok_iff.1 hr
    exact ⟨set, by rwa [Row.entity, h.name_eq found], rfl, typed⟩
  | @set row field value _ ih =>
    obtain ⟨set, found, definition, typed⟩ := ih
    refine ⟨set, ?_, ?_, typed.set field value⟩
    · rwa [Row.entity, Row.set_definition]
    · rwa [Row.set_definition]

/-- A complete, typed row of an entity can be built from its columns. -/
theorem built_of_typed {row : Row} (found : graph.entities[name]? = some set)
    (definition : row.definition = set.definition) (typed : row.Typed) : graph.Built row := by
  have built : graph.buildRow name row.identity row.columns = .ok row := by
    refine bind_eq_ok_iff.2 ⟨set, entity_eq_ok_iff.2 found, ?_⟩
    rw [← definition, typed.ofColumns]
    rfl
  exact .ofColumns built

/-- A row that a graph handed out may be inserted again. -/
theorem Sound.built {key : Key} {slot : Slot} (h : graph.Sound) (found : graph.entities[name]? = some set)
    (hs : set.rows[key]? = some slot) : graph.Built slot.row := by
  have tracked := h.tracked found
  refine built_of_typed found (tracked.definition hs) ?_
  rw [Row.Typed, tracked.definition hs]
  exact (tracked.row hs).1

/-- A command for an entity of the graph, with a value for each of its parameters. -/
def Commanded (graph : Graph) (change : Change) : Prop :=
  ∃ (name : String) (set : EntitySet) (supplied resolved : Columns), graph.entities[name]? = some set ∧
    set.definition.resolveParameters supplied = .ok resolved ∧
    change = .command set.definition.name resolved none

inductive Event (loading : Prop) (graph : Graph) : Graph → Prop
  | row {name : String} {set set' : EntitySet} {groups : Groups}
      (found : graph.entities[name]? = some set) (event : set.RowEvent loading graph.groups set' groups) :
      Event loading graph (graph.put name set' groups)
  | queue {commands : List Change}
      (listed : ∀ change ∈ commands, change ∈ graph.commands ∨ graph.Commanded change) :
      Event loading graph { graph with commands }
  | dropChanges : Event loading graph graph.dropChanges

theorem put_entities {set' : EntitySet} {groups : Groups} {other : String} :
    (graph.put name set' groups).entities[other]? =
      if name = other then some set' else graph.entities[other]? := by
  simp [put, Std.ExtTreeMap.getElem?_insert]

theorem dropChanges_entities : graph.dropChanges.entities[name]? =
    graph.entities[name]?.map EntitySet.acceptChanges := by
  simp [dropChanges, Std.ExtTreeMap.getElem?_map]

theorem Event.sound (event : Event loading graph next) (h : graph.Sound) : next.Sound := by
  cases event with
  | @row name set set' groups found event =>
    refine ⟨h.valid, fun other => ?_, h.order, fun {other other'} found' => ?_⟩
    · rw [put_entities]
      split_ifs with same
      · subst same
        rw [Option.map_some, event.definition]
        exact (h.definition found).symm
      · exact h.definitions other
    · rw [put_entities] at found'
      split_ifs at found' with same
      · cases found'
        exact event.tracked (h.tracked found)
      · exact h.tracked found'
  | queue => exact ⟨h.valid, h.definitions, h.order, h.tracked⟩
  | dropChanges =>
    refine ⟨h.valid, fun other => ?_, h.order, fun {other other'} found => ?_⟩
    · rw [dropChanges_entities, Option.map_map]
      exact h.definitions other
    · rw [dropChanges_entities, Option.map_eq_some_iff] at found
      obtain ⟨set, found, rfl⟩ := found
      exact (h.tracked found).acceptChanges

/-- A sequence of events. -/
abbrev Events (loading : Prop) : Graph → Graph → Prop := Relation.ReflTransGen (Event loading)

theorem Events.sound (events : Events loading graph next) (h : graph.Sound) : next.Sound := by
  induction events with
  | refl => exact h
  | tail _ event ih => exact event.sound ih

theorem put_put {first second : EntitySet} {groups groups' : Groups} :
    (graph.put name first groups).put name second groups' = graph.put name second groups' := by
  simp only [put, Graph.mk.injEq, and_true, true_and]
  apply Std.ExtTreeMap.ext_getElem?
  grind

theorem put_self (found : graph.entities[name]? = some set) : graph.put name set graph.groups = graph := by
  have same : graph.entities.insert name set = graph.entities := by
    apply Std.ExtTreeMap.ext_getElem?
    grind
  simp [put, same]

/-- A sequence of row events of one entity. -/
abbrev RowEvents (loading : Prop) : EntitySet × Groups → EntitySet × Groups → Prop :=
  Relation.ReflTransGen fun before after => before.1.RowEvent loading before.2 after.1 after.2

theorem events_of_rowEvents {after : EntitySet × Groups} (found : graph.entities[name]? = some set)
    (events : RowEvents loading (set, graph.groups) after) :
    Events loading graph (graph.put name after.1 after.2) := by
  induction events with
  | refl => rw [put_self found]
  | @tail before after _ event ih =>
    have next : Event loading (graph.put name before.1 before.2)
        ((graph.put name before.1 before.2).put name after.1 after.2) :=
      .row (by rw [put_entities, if_pos rfl]) event
    rw [put_put] at next
    exact ih.tail next

/-- A row keeps its definition and its types when it is given a key. -/
theorem fillKey_eq_ok {definition : Definition} {row filled : Row} {generated : Int64}
    (h : Graph.fillKey definition row generated = .ok filled) (typed : row.Typed) :
    filled.definition = row.definition ∧ filled.Typed := by
  unfold Graph.fillKey at h
  split_ifs at h
  · split at h
    · cases h
    · next previous after written =>
      cases h
      have same := row.set_definition definition.key (.integer generated)
      have typed' := typed.set definition.key (.integer generated)
      rw [written] at same typed'
      exact ⟨same, typed'⟩
  · cases h
    exact ⟨rfl, typed⟩

theorem keyed_eq_ok {definition : Definition} {row keyed : Row} {generated : Int64} {key : Key}
    (h : Graph.keyed definition row generated = .ok (key, keyed)) (typed : row.Typed) :
    keyed.definition = row.definition ∧ keyed.Typed ∧ keyed.key? = some key := by
  obtain ⟨filled, hf, h⟩ := bind_eq_ok_iff.1 h
  obtain ⟨same, typed'⟩ := fillKey_eq_ok hf typed
  split at h
  · next found hk =>
    cases h
    exact ⟨same, typed', hk⟩
  · cases h

theorem place_eq (h : graph.Sound) (found : graph.entities[name]? = some set) {key : Key} {row : Row} :
    graph.place set.definition key row =
      (.ok key, graph.put name (set.insert key row)
        ((set.ungroup graph.groups key).indexRow set.definition key row.columns)) := by
  unfold place
  simp only [h.name_eq found, entity_eq_ok_iff.2 found]
  rfl

theorem insert_events (h : graph.Sound) {row : Row} (built : graph.Built row) (generated : Int64) :
    Events loading graph (graph.insert row generated).2 := by
  unfold Graph.insert
  split
  · exact .refl
  · next definition hw =>
    split
    · exact .refl
    · next key row' hk =>
      obtain ⟨set, found, writable, rfl⟩ := writable_eq_ok_iff.1 hw
      obtain ⟨owner, hf, definition, typed⟩ := built.typed h
      cases hf.symm.trans found
      obtain ⟨hd, typed', hkey⟩ := keyed_eq_ok hk typed
      rw [definition] at hd
      have stores : set.definition.Stores key row'.columns := by
        rw [← hd]
        exact ⟨typed', hkey⟩
      rw [place_eq h found]
      exact .single (.row found (.place writable hd stores))

theorem remove_events (h : graph.Sound) (name : String) (key : Key) :
    Events loading graph (graph.remove name key).2 := by
  unfold remove
  split
  · exact .refl
  · next definition hw =>
    obtain ⟨set, found, writable, rfl⟩ := writable_eq_ok_iff.1 hw
    simp only [h.name_eq found, entity_eq_ok_iff.2 found, EntitySet.remove]
    cases hs : set.rows[key]? with
    | none => exact .refl
    | some slot =>
      have event : set.RowEvent loading graph.groups _ _ := .take writable hs
      rw [EntitySet.ungroup_of_row hs] at event
      exact .single (.row found event)

theorem removeAll_events (h : graph.Sound) (name : String) (keys : List Key) :
    Events loading graph (graph.removeAll name keys).2 := by
  induction keys generalizing graph with
  | nil => exact .refl
  | cons key keys ih =>
    have first : Events loading graph (graph.remove name key).2 := remove_events h name key
    unfold removeAll
    split
    · next e next removed => simpa [removed] using first
    · next row next removed =>
      rw [removed] at first
      exact first.trans (ih (first.sound h))

theorem clear_events (h : graph.Sound) (name : String) : Events loading graph (graph.clear name).2 := by
  unfold clear
  split
  · exact .refl
  · next set found => exact removeAll_events h name set.keys

theorem checkWrite_eq_ok {key : Key} {field : String} {value : Value} {references : Bool} {write : Write}
    (h : graph.checkWrite name key field value references = .ok write) :
    ∃ set slot written, graph.entities[name]? = some set ∧ set.definition.readOnly = false ∧
      set.rows[key]? = some slot ∧ write = ⟨set.definition, slot.row.columns, written⟩ ∧
      set.definition.coerceWrite field value = .ok written ∧
      (references = true →
        graph.checkRequired set.definition key written (set.definition.relationshipsOn field) = .ok ()) ∧
      checkKeyFree set name key field written = .ok () := by
  unfold checkWrite at h
  obtain ⟨definition, hw, h⟩ := bind_eq_ok_iff.1 h
  obtain ⟨written, hv, h⟩ := bind_eq_ok_iff.1 h
  obtain ⟨set, hf, h⟩ := bind_eq_ok_iff.1 h
  obtain ⟨row, hr, h⟩ := bind_eq_ok_iff.1 h
  obtain ⟨owner, found, writable, rfl⟩ := writable_eq_ok_iff.1 hw
  cases found.symm.trans (entity_eq_ok_iff.1 hf)
  rw [mapError_eq_ok_iff] at hv
  obtain ⟨owner, found', hr⟩ := row_eq_ok_iff.1 hr
  cases found.symm.trans found'
  obtain ⟨slot, hs, rfl⟩ := EntitySet.get?_eq_some_iff.1 hr
  cases references with
  | true =>
    obtain ⟨resolved, h⟩ := check_eq_ok_iff.1 h
    obtain ⟨free, h⟩ := check_eq_ok_iff.1 h
    cases h
    exact ⟨set, slot, written, found, writable, hs, rfl, hv, fun _ => resolved, free⟩
  | false =>
    obtain ⟨free, h⟩ := check_eq_ok_iff.1 h
    cases h
    exact ⟨set, slot, written, found, writable, hs, rfl, hv, nofun, free⟩

/-- A checked value of the key field is a key. -/
theorem key_of_coerceWrite {definition : Definition} (valid : definition.Valid) {value written : Value}
    (h : definition.coerceWrite definition.key value = .ok written) :
    ∃ key, Key.ofValue? written = some key := by
  obtain ⟨hc, hn⟩ := Definition.coerceWrite_eq_ok_iff.1 h
  obtain ⟨field, hf, ha⟩ := Definition.holds_of_coerceField hc
  obtain ⟨field', hf', ht, hr⟩ := valid.key
  cases hf'.symm.trans hf
  have present : written.isNull = false := by
    simpa [valid.requires_key] using hn
  exact DataType.key_of_admits ht ha present

/-- A write that passes its checks, with the slot of its row, the value that the field takes and the key under
which the row is then. -/
structure Passes (graph : Graph) (name : String) (key : Key) (field : String) (value : Value) (references : Bool)
    (set : EntitySet) (slot : Slot) (written : Value) (target : Key) : Prop where
  found : graph.entities[name]? = some set
  writable : set.definition.readOnly = false
  held : set.rows[key]? = some slot
  accepted : set.definition.coerceWrite field value = .ok written
  resolved : references = true →
    graph.checkRequired set.definition key written (set.definition.relationshipsOn field) = .ok ()
  stores : set.definition.Stores target (slot.row.columns.insert field written)
  free : target ≠ key → set.rows[target]? = none ∧ set.removed[target]? = none

section Write
variable {key target : Key} {field : String} {value written : Value} {references : Bool} {slot : Slot}

/-- A row with a field overwritten is still complete and typed, and a key that it moves to is free. -/
theorem stores_of_checked (h : set.Tracked) (valid : set.definition.Valid) (held : set.rows[key]? = some slot)
    (accepted : set.definition.coerceWrite field value = .ok written)
    (free : checkKeyFree set name key field written = .ok ()) :
    ∃ target, set.definition.Stores target (slot.row.columns.insert field written) ∧
      (target ≠ key → set.rows[target]? = none ∧ set.removed[target]? = none) := by
  obtain ⟨fits, keyed⟩ := h.row held
  have fits' := fits.insert (Definition.holds_of_coerceField (Definition.coerceWrite_eq_ok_iff.1 accepted).1)
  by_cases isKey : field = set.definition.key
  · subst isKey
    obtain ⟨target, ht⟩ := key_of_coerceWrite valid accepted
    refine ⟨target, ⟨fits', by simpa [Definition.keyOf?] using ht⟩, fun moves => ?_⟩
    simp only [checkKeyFree, beq_self_eq_true, if_true, ht] at free
    split_ifs at free with taken
    simpa [moves, EntitySet.contains, EntitySet.isRemoved, ← Std.ExtTreeMap.contains_iff_mem] using taken
  · have stays : set.definition.keyOf? (slot.row.columns.insert field written) = some key := by
      rw [← keyed]
      simp [Definition.keyOf?, Std.ExtTreeMap.getElem?_insert, isKey]
    exact ⟨key, ⟨fits', stays⟩, fun moves => absurd rfl moves⟩

theorem passes_of_checked (h : graph.Sound) {write : Write}
    (checked : graph.checkWrite name key field value references = .ok write) :
    ∃ set slot written target, graph.Passes name key field value references set slot written target ∧
      write = ⟨set.definition, slot.row.columns, written⟩ := by
  obtain ⟨set, slot, written, found, writable, held, rfl, accepted, resolved, free⟩ := checkWrite_eq_ok checked
  obtain ⟨target, stores, vacant⟩ :=
    stores_of_checked (h.tracked found) (h.definition_valid found) held accepted free
  exact ⟨set, slot, written, target, ⟨found, writable, held, accepted, resolved, stores, vacant⟩, rfl⟩

/-- Only a write of the key field moves a row. -/
theorem Passes.stays (h : graph.Sound) (passes : graph.Passes name key field value references set slot written target)
    (other : field ≠ set.definition.key) : target = key := by
  have keyed := passes.stores.2
  simp only [Definition.keyOf?, Std.ExtTreeMap.getElem?_insert, Std.compare_eq_iff_eq, other, if_false] at keyed
  exact Option.some.inj (keyed.symm.trans ((h.tracked passes.found).row passes.held).2)

/-- A row whose key is written moves to it. -/
theorem Passes.lands (passes : graph.Passes name key set.definition.key value references set slot written target) :
    written = target.toValue := by
  have keyed := passes.stores.keyField
  rwa [Std.ExtTreeMap.getElem?_insert_self, Option.some.injEq] at keyed

/-- A checked value is not refused by the row. -/
theorem Passes.write_eq (h : graph.Sound)
    (passes : graph.Passes name key field value references set slot written target) :
    set.write key field written = (some target, set.move key target (slot.written field written)) := by
  have definition := (h.tracked passes.found).definition passes.held
  have accepted : slot.row.definition.coerceWrite field written = .ok written := by
    rw [definition]
    exact Definition.coerceWrite_idem passes.accepted
  have keyed : slot.row.definition.keyOf? (slot.row.columns.insert field written) = some target :=
    definition ▸ passes.stores.2
  simp only [EntitySet.write, passes.held, Row.set_of_ok accepted, Row.key?, keyed, Option.getD_some]
  rfl

/-- The row takes the value, and moves with its memberships to the key that it then holds. -/
theorem Passes.commitWrite_eq (h : graph.Sound)
    (passes : graph.Passes name key field value references set slot written target) :
    graph.commitWrite name key field ⟨set.definition, slot.row.columns, written⟩ =
      (.ok target, graph.put name (set.move key target (slot.written field written))
        ((set.ungroup graph.groups key).indexRow set.definition target
          (slot.row.columns.insert field written))) := by
  have arrived : (set.move key target (slot.written field written)).get? target =
      some (slot.written field written).row := by
    simp [EntitySet.move_rows]
  simp only [commitWrite, h.name_eq passes.found, entity_eq_ok_iff.2 passes.found, passes.write_eq h, arrived,
    EntitySet.ungroup_of_row passes.held]
  rfl

/-- A write is refused and changes nothing, or passes its checks and is carried out. -/
theorem writeField_cases (h : graph.Sound) (name : String) (key : Key) (field : String) (value : Value)
    (references : Bool) : (∃ e, graph.writeField name key field value references = (.error e, graph)) ∨
      ∃ set slot written target, graph.Passes name key field value references set slot written target ∧
        graph.writeField name key field value references =
          (.ok target, graph.put name (set.move key target (slot.written field written))
            ((set.ungroup graph.groups key).indexRow set.definition target
              (slot.row.columns.insert field written))) := by
  unfold writeField
  split
  · next e _ => exact .inl ⟨e, rfl⟩
  · next write checked =>
    obtain ⟨set, slot, written, target, passes, rfl⟩ := passes_of_checked h checked
    exact .inr ⟨set, slot, written, target, passes, passes.commitWrite_eq h⟩

end Write

theorem writeField_events (h : graph.Sound) (name : String) (key : Key) (field : String) (value : Value)
    (references : Bool) : Events loading graph (graph.writeField name key field value references).2 := by
  rcases writeField_cases h name key field value references with
    ⟨e, refused⟩ | ⟨set, slot, written, target, passes, moved⟩
  · rw [refused]
  · rw [moved]
    have definition := (h.tracked passes.found).definition passes.held
    have event : set.RowEvent loading graph.groups
        (set.move key target ⟨(slot.written field written).row, slot.baseline⟩) _ :=
      .move passes.writable passes.held definition passes.stores passes.free
    exact .single (.row passes.found event)

theorem setReference_events (h : graph.Sound) (name : String) (key : Key) (relationship : String)
    (target : Option Key) : Events loading graph (graph.setReference name key relationship target).2 := by
  unfold setReference
  split
  · exact .refl
  · exact writeField_events h ..

theorem command_events (name : String) (parameters : Columns) :
    Events loading graph (graph.command name parameters).2 := by
  unfold command
  split
  · exact .refl
  · next set found =>
    split
    · exact .refl
    · next resolved hresolved =>
      refine .single (.queue fun change member => ?_)
      rcases List.mem_append.1 member with queued | added
      · exact .inl queued
      · exact .inr ⟨name, set, parameters, resolved, entity_eq_ok_iff.1 found, hresolved, List.mem_singleton.1 added⟩

theorem dropEntityChanges_events (name : String) : Events loading graph (graph.dropEntityChanges name).2 := by
  unfold dropEntityChanges
  split
  · exact .refl
  · next set found =>
    have accepted : Event loading graph _ := .row (entity_eq_ok_iff.1 found) .accept
    exact (Relation.ReflTransGen.single accepted).tail
      (.queue fun change member => .inl (List.mem_filter.1 member).1)

theorem save_events {σ : Type} [Backend σ] (backend : σ) : Events loading graph (graph.save backend).2.1 := by
  have dropped : Events loading graph graph.dropChanges := .single .dropChanges
  unfold save
  grind [Relation.ReflTransGen]

/-- A row of a result belongs to the queried entity and stands under its key. -/
def Delivered (definition : Definition) (entry : Key × Row) : Prop :=
  entry.2.definition = definition ∧ definition.Stores entry.1 entry.2.columns

theorem resultRows_delivered {definition : Definition} {identity : Nat} {records : List Columns}
    {rows : List (Key × Row)} (h : resultRows definition identity records = .ok rows) :
    ∀ entry ∈ rows, Delivered definition entry := by
  induction records generalizing identity rows with
  | nil => cases h; simp
  | cons columns records ih =>
    obtain ⟨row, hrow, h⟩ := bind_eq_ok_iff.1 h
    split at h
    · cases h
    · next key hkey =>
      obtain ⟨rest, hrest, h⟩ := bind_eq_ok_iff.1 h
      cases h
      have typed := Row.ofColumns_typed hrow
      obtain ⟨built, -, rfl⟩ := Row.ofColumns_eq_ok_iff.1 hrow
      rintro entry (_ | ⟨_, member⟩)
      · exact ⟨rfl, typed, hkey⟩
      · exact ih hrest entry member

theorem fetch_reads {σ : Type} [Backend σ] {backend : σ} {parameters : Columns} {identity : Nat}
    {definition : Definition} {rows : List (Key × Row)}
    (h : graph.fetch backend name parameters identity = .ok (definition, rows)) :
    ∃ set resolved records, graph.entities[name]? = some set ∧ definition = set.definition ∧
      set.definition.resolveParameters parameters = .ok resolved ∧
      Backend.read backend set.definition resolved = .ok records ∧
      resultRows set.definition identity records = .ok rows := by
  obtain ⟨set, found, h⟩ := bind_eq_ok_iff.1 h
  obtain ⟨resolved, hresolved, h⟩ := bind_eq_ok_iff.1 h
  obtain ⟨records, hrecords, h⟩ := bind_eq_ok_iff.1 h
  obtain ⟨built, hrows, h⟩ := bind_eq_ok_iff.1 h
  cases h
  rw [mapError_eq_ok_iff] at hresolved hrecords hrows
  exact ⟨set, resolved, records, entity_eq_ok_iff.1 found, rfl, hresolved, hrecords, hrows⟩

theorem fetch_eq_ok {σ : Type} [Backend σ] {backend : σ} {parameters : Columns} {identity : Nat}
    {definition : Definition} {rows : List (Key × Row)}
    (h : graph.fetch backend name parameters identity = .ok (definition, rows)) :
    ∃ set, graph.entities[name]? = some set ∧ definition = set.definition ∧
      ∀ entry ∈ rows, Delivered definition entry := by
  obtain ⟨set, _, _, found, rfl, -, -, hrows⟩ := fetch_reads h
  exact ⟨set, found, rfl, resultRows_delivered hrows⟩

theorem RowEvents.definition {before after : EntitySet × Groups} (events : RowEvents loading before after) :
    after.1.definition = before.1.definition := by
  induction events with
  | refl => rfl
  | tail _ event ih => exact event.definition.trans ih

theorem RowEvents.tracked {before after : EntitySet × Groups}
    (events : RowEvents loading before after) (h : before.1.Tracked) : after.1.Tracked := by
  induction events with
  | refl => exact h
  | tail _ event ih => exact event.tracked ih

theorem RowEvents.markLoaded {before after : EntitySet × Groups} (events : RowEvents loading before after) :
    RowEvents loading before (after.1.markLoaded, after.2) :=
  events.tail .markLoaded

/-- A pending row stays, an unknown row is added, and another row stays or is refreshed. -/
theorem mergeRow_cases (definition : Definition) (before : EntitySet × Groups) (key : Key) (row : Row) :
    (mergeRow definition before (key, row) = before ∧ (before.1.isPending key = false →
        ∃ slot, before.1.rows[key]? = some slot ∧ slot.row.columns = row.columns)) ∨
      (before.1.isPending key = false ∧ before.1.rows[key]? = none ∧
        mergeRow definition before (key, row) =
          (before.1.load key row, before.2.indexRow definition key row.columns)) ∨
      ∃ slot, before.1.isPending key = false ∧ before.1.rows[key]? = some slot ∧
        mergeRow definition before (key, row) =
          (before.1.refresh key row.columns,
            (before.2.unindexRow definition key slot.row.columns).indexRow definition key row.columns) := by
  simp only [mergeRow]
  by_cases idle : before.1.isPending key = false
  · simp only [idle, Bool.false_eq_true, if_false]
    cases hs : before.1.rows[key]? with
    | none => simp [EntitySet.get?, hs]
    | some slot =>
      simp only [EntitySet.get?, hs, Option.map_some]
      split_ifs with same
      · exact .inl ⟨rfl, fun _ => ⟨slot, rfl, by simpa [Row.sameValues] using same⟩⟩
      · simp
  · simp [idle]

theorem mergeRow_events {groups : Groups} {entry : Key × Row}
    (delivered : Delivered set.definition entry) :
    RowEvents True (set, groups) (mergeRow set.definition (set, groups) entry) := by
  obtain ⟨key, row⟩ := entry
  obtain ⟨definition, stores⟩ := delivered
  rcases mergeRow_cases set.definition (set, groups) key row with
    ⟨kept, -⟩ | ⟨idle, absent, loaded⟩ | ⟨slot, idle, found, refreshed⟩
  · rw [kept]
  · have event : set.RowEvent True groups _ _ := .load trivial idle absent definition stores
    rw [EntitySet.ungroup_of_absent absent] at event
    rw [loaded]
    exact .single event
  · have event : set.RowEvent True groups _ _ := .refresh idle found stores
    rw [EntitySet.ungroup_of_row found] at event
    rw [refreshed]
    exact .single event

theorem refresh_marks {key : Key} {columns : Columns} :
    (set.refresh key columns).isPending = set.isPending ∧
      (set.refresh key columns).removed = set.removed ∧ (set.refresh key columns).isDirty = set.isDirty := by
  unfold EntitySet.refresh
  split <;> exact ⟨rfl, rfl, rfl⟩

theorem mergeRow_isDirty {definition : Definition} {before : EntitySet × Groups} {entry : Key × Row} :
    (mergeRow definition before entry).1.isDirty = before.1.isDirty := by
  obtain ⟨key, row⟩ := entry
  rcases mergeRow_cases definition before key row with ⟨kept, -⟩ | ⟨-, -, loaded⟩ | ⟨slot, -, -, refreshed⟩
  · rw [kept]
  · rw [loaded]
    rfl
  · rw [refreshed]
    exact refresh_marks.2.2

theorem foldl_mergeRow_events {rows : List (Key × Row)} {before : EntitySet × Groups}
    (delivered : ∀ entry ∈ rows, Delivered before.1.definition entry) :
    RowEvents True before (rows.foldl (mergeRow before.1.definition) before) := by
  induction rows generalizing before with
  | nil => exact .refl
  | cons entry rows ih =>
    have first : RowEvents True before (mergeRow before.1.definition before entry) :=
      mergeRow_events (delivered entry (by simp))
    have same := first.definition
    have rest := @ih (mergeRow before.1.definition before entry) fun other member => by
      rw [same]
      exact delivered other (by simp [member])
    rw [same] at rest
    exact first.trans rest

theorem foldl_mergeRow_isDirty {definition : Definition} {rows : List (Key × Row)}
    {before : EntitySet × Groups} :
    (rows.foldl (mergeRow definition) before).1.isDirty = before.1.isDirty := by
  induction rows generalizing before with
  | nil => rfl
  | cons entry rows ih => rw [List.foldl_cons, ih, mergeRow_isDirty]

theorem evictRow_of_absent {definition : Definition} {before : EntitySet × Groups} {key : Key}
    (absent : before.1.rows[key]? = none) : evictRow definition before key = before := by
  simp [evictRow, EntitySet.get?, absent]

theorem evictRow_of_row {before : EntitySet × Groups} {key : Key} {slot : Slot}
    (found : before.1.rows[key]? = some slot) :
    evictRow before.1.definition before key = (before.1.evict key, before.1.ungroup before.2 key) := by
  simp [evictRow, EntitySet.ungroup, EntitySet.get?, found]

theorem foldl_evictRow_events {keys : List Key} {before : EntitySet × Groups}
    (clean : before.1.isDirty = false) :
    RowEvents True before (keys.foldl (evictRow before.1.definition) before) := by
  induction keys generalizing before with
  | nil => exact .refl
  | cons key keys ih =>
    rw [List.foldl_cons]
    cases hs : before.1.rows[key]? with
    | none =>
      rw [evictRow_of_absent hs]
      exact ih clean
    | some slot =>
      have event : before.1.RowEvent True before.2 _ _ := .evict clean hs
      rw [evictRow_of_row hs]
      exact (Relation.ReflTransGen.single event).trans (@ih (before.1.evict key, _) clean)

theorem mergeRows_events {rows : List (Key × Row)} {before : EntitySet × Groups} {replace : Bool}
    (delivered : ∀ entry ∈ rows, Delivered before.1.definition entry)
    (clean : replace = true → before.1.isDirty = false) :
    RowEvents True before (mergeRows before.1.definition replace before rows) := by
  have merged := foldl_mergeRow_events delivered
  unfold mergeRows
  cases replace with
  | false => exact merged
  | true =>
    refine merged.trans ?_
    have evicted := fun keys => @foldl_evictRow_events keys (rows.foldl (mergeRow before.1.definition) before)
      (foldl_mergeRow_isDirty.trans (clean rfl))
    rw [merged.definition] at evicted
    exact evicted _

theorem query_events (h : graph.Sound) {σ : Type} [Backend σ] (backend : σ) (name : String)
    (parameters : Columns) (identity : Nat) :
    Events True graph (graph.query backend name parameters identity).2 := by
  unfold query
  split
  · exact .refl
  · next definition rows fetched =>
    obtain ⟨set, found, rfl, delivered⟩ := fetch_eq_ok fetched
    simp only [merge, h.name_eq found, entity_eq_ok_iff.2 found]
    have merged := @mergeRows_events rows (set, graph.groups)
      (!set.isDirty && graph.config.evictOnReload && set.loaded) delivered (by simp +contextual)
    exact events_of_rowEvents found merged.markLoaded

theorem Step.events (step : Step graph next) (h : graph.Sound) : Events True graph next := by
  cases step with
  | query backend name parameters identity => exact query_events h backend name parameters identity
  | insert generated built => exact insert_events h built generated
  | remove name key => exact remove_events h name key
  | clear name => exact clear_events h name
  | set name key field value => exact writeField_events h ..
  | setReference name key relationship target => exact setReference_events h name key relationship target
  | command name parameters => exact command_events name parameters
  | dropChanges => exact .single .dropChanges
  | dropEntityChanges name => exact dropEntityChanges_events name
  | save backend => exact save_events backend

theorem Reachable.sound {catalog : Catalog} {config : GraphConfig}
    (reachable : Reachable catalog config graph) :
    graph.Sound := by
  induction reachable with
  | start opened => exact ofCatalog_sound opened
  | step _ step ih => exact (step.events ih).sound ih

/-- What holds of an empty graph and is kept by every event holds of every reachable graph. -/
theorem Reachable.invariant {catalog : Catalog} {config : GraphConfig} (Inv : Graph → Prop)
    (start : ∀ {graph : Graph}, Graph.ofCatalog catalog config = .ok graph → Inv graph)
    (preserved : ∀ {graph next : Graph}, Event True graph next → graph.Sound → Inv graph → Inv next)
    (reachable : Reachable catalog config graph) : Inv graph := by
  induction reachable with
  | start opened => exact start opened
  | @step graph next reached step ih =>
    have kept : ∀ {after : Graph}, Events True graph after → after.Sound ∧ Inv after := by
      intro after events
      induction events with
      | refl => exact ⟨reached.sound, ih⟩
      | tail _ event ih => exact ⟨event.sound ih.1, preserved event ih.1 ih.2⟩
    exact (kept (step.events reached.sound)).2

theorem Reachable.catalog_eq {catalog : Catalog} {config : GraphConfig}
    (reachable : Reachable catalog config graph) : graph.catalog = catalog := by
  refine reachable.invariant (fun graph => graph.catalog = catalog) (fun opened => ?_)
    fun event _ same => ?_
  · obtain ⟨-, opened⟩ := check_eq_ok_iff.1 opened
    cases opened
    rfl
  · cases event <;> exact same

theorem Reachable.config_eq {catalog : Catalog} {config : GraphConfig}
    (reachable : Reachable catalog config graph) : graph.config = config := by
  refine reachable.invariant (fun graph => graph.config = config) (fun opened => ?_)
    fun event _ same => ?_
  · obtain ⟨-, opened⟩ := check_eq_ok_iff.1 opened
    cases opened
    rfl
  · cases event <;> exact same

end Graph

namespace Forest

def nodeName : EntityName := ⟨"node", by decide +kernel⟩

def node : Definition where
  name := nodeName
  key := "id"
  fields := [⟨"id", .integer, true, none, none⟩, ⟨"parent", .integer, false, none, none⟩]
  relationships := [⟨"up", "parent", nodeName, none⟩]
  parameters := []
  readOnly := false
  description := none

/-- The least catalog with a relationship: nodes that may have a node as parent. -/
def catalog : Catalog where
  entities := .ofList [("node", node)]
  registered name definition found := by
    have member := mem_of_getElem?_ofList found
    simp only [List.mem_singleton, Prod.mk.injEq] at member
    obtain ⟨rfl, rfl⟩ := member
    exact ⟨rfl, by decide +kernel⟩

def columns (id : Int64) (parent : Value) : Columns :=
  .ofList [("id", .integer id), ("parent", parent)]

/-- A forest without nodes. -/
def bare : Graph where
  catalog := catalog
  config := {}
  order := [node]
  entities := .ofList [("node", EntitySet.empty node)]
  groups := .empty
  inverses := ∅
  commands := []

theorem bare_reachable : Graph.Reachable catalog {} bare := .start (by decide +kernel)

theorem node_fits (id : Int64) : node.Fits (columns id .null) where
  typed {name value} held := by
    have member := mem_of_getElem?_ofList held
    simp only [List.mem_cons, Prod.mk.injEq, List.not_mem_nil, or_false] at member
    rcases member with ⟨rfl, rfl⟩ | ⟨rfl, rfl⟩ <;> exact ⟨_, rfl, rfl⟩
  total {name field} declared := by
    obtain ⟨member, rfl⟩ := mem_of_find?_name declared
    simp only [node, List.mem_cons, List.not_mem_nil, or_false] at member
    rcases member with rfl | rfl <;> simp [columns]

/-- The only entity of a forest are its nodes. -/
theorem node_of_found {graph : Graph} (reachable : Graph.Reachable catalog {} graph) {name : String}
    {set : EntitySet} (found : graph.entities[name]? = some set) : name = "node" ∧ set.definition = node := by
  have registered := reachable.sound.definition found
  rw [reachable.catalog_eq] at registered
  have member := mem_of_getElem?_ofList registered
  simpa using member

theorem node_found {graph : Graph} (reachable : Graph.Reachable catalog {} graph) :
    ∃ set, graph.entities["node"]? = some set ∧ set.definition = node := by
  have definitions := reachable.sound.definitions "node"
  rwa [reachable.catalog_eq, show catalog.entities["node"]? = some node from rfl, Option.map_eq_some_iff] at definitions

/-- A node without a parent may be inserted into every forest. -/
theorem node_built {graph : Graph} (reachable : Graph.Reachable catalog {} graph) (identity : Nat) (id : Int64) :
    graph.Built ⟨node, identity, columns id .null⟩ := by
  obtain ⟨set, found, definition⟩ := node_found reachable
  exact Graph.built_of_typed found definition.symm (node_fits id)

/-- A forest of one node. -/
def planted : Graph := (bare.insert ⟨node, 0, columns 1 .null⟩ 0).2

theorem planted_reachable : Graph.Reachable catalog {} planted :=
  .step bare_reachable (.insert 0 (node_built bare_reachable 0 1))

/-- A forest of one node that counts as persisted. -/
def rooted : Graph := planted.dropChanges

theorem rooted_reachable : Graph.Reachable catalog {} rooted := .step planted_reachable .dropChanges

/-- A forest of one node that is its own parent. -/
def looped : Graph := (planted.set "node" (.integer 1) "parent" (.integer 1)).2

theorem looped_reachable : Graph.Reachable catalog {} looped := .step planted_reachable (.set ..)

end Forest
end EntityGraph
