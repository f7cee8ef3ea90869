import EntityGraph.Proofs.Acceptance
import EntityGraph.Proofs.Navigation
import EntityGraph.Proofs.Overlays
import EntityGraph.Proofs.Queries

/-! # Two graphs over one backend

Graphs that have read the same tables and then write different fields may save in either order. Each save
comes out the same, the tables are the same in the end, and they hold what every successful save wrote. This
needs tables in which every row stands under its own key, as all rows do that were loaded or written by data
changes; a command handler may file them elsewhere. -/
namespace EntityGraph

/-- A key is converted to no other key. -/
theorem DataType.eq_of_coerce?_toValue {type : DataType} {source key : Key}
    (converted : type.coerce? source.toValue = some key.toValue) : source = key := by
  have same : source.toValue = key.toValue := by
    unfold coerce? at converted
    split_ifs at converted
    · exact Option.some.inj converted
    · cases source <;> cases key <;> cases type <;>
        simp_all [Key.toValue, Value.readTimestamp?, Value.ofEpochMillis?]
  simpa using congrArg Key.ofValue? same

/-- A row is built under the key of its record. -/
theorem Definition.keyOf?_of_rowColumns {definition : Definition} {record columns : Columns} {source key : Key}
    (built : definition.rowColumns record = .ok columns) (named : definition.keyOf? record = some source)
    (stands : definition.keyOf? columns = some key) : source = key := by
  obtain ⟨value, given, isKey⟩ := Option.bind_eq_some_iff.1 named
  obtain ⟨stored, converted, held⟩ := rowColumns_given built given
  rw [keyOf?, held] at stands
  cases Key.ofValue?_eq_some_iff.1 isKey
  cases Key.ofValue?_eq_some_iff.1 stands
  obtain ⟨field, -, written⟩ := coerceField_eq_ok_iff.1 converted
  exact DataType.eq_of_coerce?_toValue written

/-- The records that a backend delivers are rows of its tables. -/
theorem MemoryBackend.row?_of_read {backend : MemoryBackend} {definition : Definition} {parameters : Columns}
    {records : List Columns} (delivered : Backend.read backend definition parameters = .ok records)
    {record : Columns} (member : record ∈ records) :
    ∃ key, backend.tables.row? definition.name.text key = some record := by
  obtain ⟨-, delivered⟩ := check_eq_ok_iff.1 delivered
  obtain ⟨registered, known, delivered⟩ := bind_eq_ok_iff.1 delivered
  cases delivered
  rw [definition_eq_ok_iff] at known
  rw [← Catalog.name_of_entities known]
  have listed := List.mem_of_mem_filter member
  rw [values_eq, List.mem_map] at listed
  obtain ⟨⟨key, _⟩, held, rfl⟩ := listed
  exact ⟨key, Std.ExtTreeMap.mem_toList_iff_getElem?_eq_some.1 held⟩

/-- The last record with a key is a row of the tables. -/
theorem MemoryBackend.row?_of_lastUnder? {backend : MemoryBackend} {definition : Definition}
    {parameters columns : Columns} {records : List Columns}
    (delivered : Backend.read backend definition parameters = .ok records) {key : Key}
    (last : definition.lastUnder? records key = some columns) :
    ∃ source record, backend.tables.row? definition.name.text source = some record ∧
      definition.rowColumns record = .ok columns := by
  obtain ⟨record, member, under⟩ := List.exists_of_findSome?_eq_some last
  obtain ⟨source, held⟩ := row?_of_read delivered (List.mem_reverse.1 member)
  exact ⟨source, record, held, toOption_eq_some_iff.1 (Option.filter_eq_some_iff.1 under).1⟩

namespace Graph
variable {graph : Graph} {catalog : Catalog} {config : GraphConfig} {backend : MemoryBackend} {tables : Tables}
  {name : String} {set : EntitySet} {key : Key} {slot : Slot}

/-- Nothing is pending, and every row is what the graph builds from a row of the tables. -/
structure ReadFrom (graph : Graph) (tables : Tables) : Prop where
  clean : graph.isDirty = false
  row : ∀ {name : String} {set : EntitySet} {key : Key} {slot : Slot}, graph.entities[name]? = some set →
    set.rows[key]? = some slot → ∃ (source : Key) (record : Columns), tables.row? name source = some record ∧
      set.definition.rowColumns record = .ok slot.row.columns

/-- A graph without rows has read them all. -/
theorem ofCatalog_readFrom (opened : ofCatalog catalog config = .ok graph) : graph.ReadFrom tables := by
  obtain ⟨-, opened⟩ := check_eq_ok_iff.1 opened
  cases opened
  have fresh : ∀ {name : String} {set : EntitySet},
      (catalog.entities.map fun _ definition => EntitySet.empty definition)[name]? = some set →
        ∃ definition, EntitySet.empty definition = set := by
    intro name set found
    rw [Std.ExtTreeMap.getElem?_map, Option.map_eq_some_iff] at found
    obtain ⟨definition, -, same⟩ := found
    exact ⟨definition, same⟩
  refine ⟨isDirty_eq_false_iff.2 ⟨rfl, fun found => ?_⟩, fun found hs => ?_⟩
  · obtain ⟨definition, rfl⟩ := fresh found
    rfl
  · obtain ⟨definition, rfl⟩ := fresh found
    simp [EntitySet.empty] at hs

/-- A query reads further rows of the tables. -/
theorem ReadFrom.query (read : graph.ReadFrom backend.tables) (reachable : Reachable catalog config graph)
    (parameters : Columns) (identity : Nat) :
    (graph.query backend name parameters identity).2.ReadFrom backend.tables := by
  cases fetched : graph.fetch backend name parameters identity with
  | error e =>
    have same : (graph.query backend name parameters identity).2 = graph := by simp [Graph.query, fetched]
    rwa [same]
  | ok result =>
    obtain ⟨definition, rows⟩ := result
    obtain ⟨set, after, groups, resolved, records, found, -, delivered, -, requeried, answered⟩ :=
      reachable.requeried_of_fetched fetched
    rw [answered]
    refine ⟨(isDirty_put found requeried.isDirty).trans read.clean, fun {owner set' key slot} found' hs => ?_⟩
    rw [put_entities] at found'
    split_ifs at found' with here
    · subst here
      cases found'
      rw [requeried.definition]
      cases last : set.definition.lastUnder? records key with
      | none =>
        rw [requeried.unreturned last] at hs
        split_ifs at hs
        exact read.row found hs
      | some columns =>
        have idle : set.isPending key = false := by
          by_contra pending
          have clean := (isDirty_eq_false_iff.1 read.clean).2 found
          exact Bool.false_ne_true (clean.symm.trans (isDirty_of_isPending (by simpa using pending)))
        obtain ⟨row, arrived, same, -⟩ := requeried.returned idle last
        cases arrived.symm.trans hs
        obtain ⟨source, record, held, built⟩ := MemoryBackend.row?_of_lastUnder? delivered last
        rw [reachable.sound.name_eq found] at held
        exact ⟨source, record, held, same ▸ built⟩
    · exact read.row found' hs

/-- A graph that has read its rows from a backend, after any calls that write fields other than keys. -/
inductive Draft (backend : MemoryBackend) : Graph → Prop
  | read {catalog : Catalog} {config : GraphConfig} {graph : Graph} :
      Reachable catalog config graph → graph.ReadFrom backend.tables → Draft backend graph
  | set {graph : Graph} {name : String} {key : Key} {field : String} {value : Value} : Draft backend graph →
      (∀ set, graph.entities[name]? = some set → field ≠ set.definition.key) →
        Draft backend (graph.set name key field value).2

/-- Nothing is pending but updates of rows that were persisted, each under its key, as what the graph builds
from a row of the tables. -/
structure Edited (graph : Graph) (tables : Tables) : Prop where
  sound : graph.Sound
  idle : graph.commands = []
  kept : ∀ {name : String} {set : EntitySet}, graph.entities[name]? = some set → set.removed = ∅
  persisted : ∀ {name : String} {set : EntitySet} {key : Key} {slot : Slot}, graph.entities[name]? = some set →
    set.rows[key]? = some slot → ∃ (baseline : Columns) (source : Key) (record : Columns),
      slot.baseline = some baseline ∧ set.definition.Stores key baseline ∧
      tables.row? name source = some record ∧ set.definition.rowColumns record = .ok baseline

theorem ReadFrom.edited (h : graph.ReadFrom tables) (sound : graph.Sound) : graph.Edited tables := by
  obtain ⟨idle, clean⟩ := isDirty_eq_false_iff.1 h.clean
  refine ⟨sound, idle, fun {name set} found => ?_, fun {name set key slot} found hs => ?_⟩
  · exact (EntitySet.isDirty_eq_false_iff.1 (clean found)).2.2
  · obtain ⟨source, record, held, built⟩ := h.row found hs
    have tracked := sound.tracked found
    exact ⟨_, source, record, tracked.slot_of_clean (clean found) hs, tracked.row hs, held, built⟩

/-- A write of a field other than the key changes the values of one row and nothing that was persisted. -/
theorem Edited.writes (h : graph.Edited tables) {field : String} {value : Value}
    (other : ∀ set, graph.entities[name]? = some set → field ≠ set.definition.key) :
    (graph.set name key field value).2.Edited tables := by
  have events : Events True graph (graph.set name key field value).2 := writeField_events h.sound ..
  have sound := events.sound h.sound
  rcases writeField_cases h.sound name key field value graph.config.checkReferences with
    ⟨e, refused⟩ | ⟨set, slot, written, target, passes, moved⟩
  · rw [Graph.set, refused]
    exact h
  · have found := passes.found
    have hs := passes.held
    cases passes.stays h.sound (other set found)
    rw [Graph.set, moved] at sound ⊢
    refine ⟨sound, h.idle, fun {name' set'} found' => ?_, fun {name' set' place seated} found' hs' => ?_⟩
    · rw [put_entities] at found'
      split_ifs at found' with owner
      · cases found'
        rw [EntitySet.move_removed]
        exact h.kept found
      · exact h.kept found'
    · rw [put_entities] at found'
      split_ifs at found' with owner
      · cases found'
        subst owner
        rw [EntitySet.move_rows, Std.ExtTreeMap.getElem?_insert] at hs'
        rw [EntitySet.move_definition]
        split_ifs at hs' with here
        · cases hs'
          cases Std.compare_eq_iff_eq.1 here
          obtain ⟨baseline, source, record, persisted⟩ := h.persisted found hs
          exact ⟨baseline, source, record, persisted⟩
        · rw [Std.ExtTreeMap.getElem?_erase, if_neg here] at hs'
          exact h.persisted found hs'
      · exact h.persisted found' hs'

theorem Draft.edited (draft : graph.Draft backend) : graph.Edited backend.tables := by
  induction draft with
  | read reachable read => exact read.edited reachable.sound
  | set _ other ih => exact ih.writes other

/-- The fields in which the row under a key differs from what was persisted, with their values. -/
def netColumns (graph : Graph) (entity : String) (key : Key) : Columns :=
  match graph.entities[entity]?.bind fun set => set.rows[key]? with
  | none => ∅
  | some slot => (slot.baseline.map (EntitySet.changedColumns slot.row.columns)).getD ∅

theorem netColumns_of_slot (found : graph.entities[name]? = some set) (hs : set.rows[key]? = some slot)
    {baseline : Columns} (hb : slot.baseline = some baseline) :
    graph.netColumns name key = EntitySet.changedColumns slot.row.columns baseline := by
  simp [netColumns, found, hs, hb]

/-- The change of a row that has net changes names it by its key. -/
def netChange (graph : Graph) (set : EntitySet) (key : Key) : Change :=
  .update set.definition.name (.ofList [(set.definition.key, key.toValue)])
    (graph.netColumns set.definition.name.text key)

/-- Only rows that were persisted have net changes. -/
theorem slot_of_mem_netColumns {field : String} (changed : field ∈ graph.netColumns name key) :
    ∃ set slot, graph.entities[name]? = some set ∧ set.rows[key]? = some slot := by
  cases located : graph.entities[name]?.bind fun set => set.rows[key]? with
  | none => simp [netColumns, located] at changed
  | some slot =>
    obtain ⟨set, found, hs⟩ := Option.bind_eq_some_iff.1 located
    exact ⟨set, slot, found, hs⟩

/-- Net changes are changes of a row that was persisted as what the graph builds from a row of the tables. -/
theorem Edited.of_mem_netColumns (h : graph.Edited tables) {field : String}
    (changed : field ∈ graph.netColumns name key) :
    ∃ (set : EntitySet) (slot : Slot) (baseline : Columns) (source : Key) (record : Columns),
      graph.entities[name]? = some set ∧ set.rows[key]? = some slot ∧ slot.baseline = some baseline ∧
      set.definition.Stores key baseline ∧ tables.row? name source = some record ∧
      set.definition.rowColumns record = .ok baseline := by
  obtain ⟨set, slot, found, hs⟩ := slot_of_mem_netColumns changed
  obtain ⟨baseline, source, record, hb, persisted⟩ := h.persisted found hs
  exact ⟨set, slot, baseline, source, record, found, hs, hb, persisted⟩

/-- Nothing but net changes is pending. -/
theorem Edited.eq_netChange (h : graph.Edited tables) {change : Change} (pending : change ∈ graph.pendingChanges) :
    ∃ set key, graph.entities[set.definition.name.text]? = some set ∧ change = graph.netChange set key := by
  rw [h.sound.pendingChanges_eq, h.idle, List.append_nil, List.mem_map] at pending
  obtain ⟨transfer, member, rfl⟩ := pending
  obtain ⟨set, found, tracked, ⟨key, slot, hs, fresh, -⟩ | ⟨key, slot, source, baseline, hs, hb, -, -, rfl⟩ |
    ⟨key, columns, gone, -⟩⟩ := h.sound.transfers_cases member
  · obtain ⟨baseline, -, -, hb, -⟩ := h.persisted found hs
    rw [fresh] at hb
    cases hb
  · change graph.entities[set.definition.name.text]? = some set at found
    obtain ⟨baseline', -, -, hb', stores, -⟩ := h.persisted found hs
    cases hb.symm.trans hb'
    refine ⟨set, key, found, ?_⟩
    rw [netChange, netColumns_of_slot found hs hb, Transfer.change, stores.keyField]
    rfl
  · simp [h.kept found] at gone

/-- Every row with net changes is updated. -/
theorem Edited.netChange_mem (h : graph.Edited tables) (found : graph.entities[name]? = some set) {field : String}
    (changed : field ∈ graph.netColumns name key) : graph.netChange set key ∈ graph.pendingChanges := by
  obtain ⟨set', slot, baseline, -, -, found', hs, hb, stores, -⟩ := h.of_mem_netColumns changed
  cases found.symm.trans found'
  have differs : baseline ≠ slot.row.columns := by
    rintro rfl
    rw [netColumns_of_slot found hs hb, EntitySet.changedColumns_self] at changed
    simp at changed
  have moved : Transfer.update set.definition key baseline key slot.row.columns ∈ graph.transfers :=
    h.sound.mem_transfers_of_listed found <| .inr <| .inl <|
      (h.sound.tracked found).mem_updateTransfers.2 ⟨key, slot, key, baseline, hs, hb, differs, stores, rfl⟩
  rw [h.sound.pendingChanges_eq, h.idle, List.append_nil, List.mem_map]
  refine ⟨_, moved, ?_⟩
  rw [netChange, h.sound.name_eq found, netColumns_of_slot found hs hb, Transfer.change, stores.keyField]
  rfl

/-- Net changes leave the key alone. -/
theorem Edited.key_unchanged (h : graph.Edited tables) (found : graph.entities[name]? = some set) :
    set.definition.key ∉ graph.netColumns name key := by
  intro changed
  obtain ⟨set', slot, baseline, -, -, found', hs, hb, stores, -⟩ := h.of_mem_netColumns changed
  cases found.symm.trans found'
  rw [netColumns_of_slot found hs hb] at changed
  obtain ⟨value, held⟩ := mem_iff_exists_getElem?.1 changed
  obtain ⟨current, differs⟩ := mem_changedColumns.1 held
  refine differs (stores.keyField.trans ?_)
  rw [← ((h.sound.tracked found).row hs).keyField, current]

theorem Edited.inPlace (h : graph.Edited tables) : ∀ change ∈ graph.pendingChanges, backend.InPlace change := by
  intro change pending
  obtain ⟨set, key, found, rfl⟩ := h.eq_netChange pending
  refine ⟨_, _, _, rfl, fun {definition} _ named => ?_⟩
  have same : definition.key = set.definition.key := by
    simpa [Std.ExtTreeMap.ofList_singleton, @eq_comm _ set.definition.key] using named
  rw [same]
  exact h.key_unchanged found

/-- An overlay of a draft holds the net changes of a row, each converted by the backend. -/
theorem Edited.overlay_eq (h : graph.Edited tables) {overlay : Overlay}
    (laid : overlay ∈ graph.pendingChanges.filterMap backend.overlay?) :
    ∃ definition, backend.catalog.entities[overlay.entity]? = some definition ∧
      MemoryBackend.overwrite definition ∅ (graph.netColumns overlay.entity overlay.key).toList =
        .ok overlay.values := by
  obtain ⟨change, pending, laid⟩ := List.mem_filterMap.1 laid
  obtain ⟨set, key, found, rfl⟩ := h.eq_netChange pending
  obtain ⟨definition, known, laid⟩ := Option.bind_eq_some_iff.1 laid
  obtain ⟨place, named, laid⟩ := Option.bind_eq_some_iff.1 laid
  obtain ⟨values, fitting, laid⟩ := Option.bind_eq_some_iff.1 laid
  cases laid
  obtain ⟨-, rfl⟩ := Definition.keyOf?_singleton.1 named
  exact ⟨definition, known, toOption_eq_some_iff.1 fitting⟩

theorem Edited.mem_of_overlay (h : graph.Edited tables) {overlay : Overlay}
    (laid : overlay ∈ graph.pendingChanges.filterMap backend.overlay?) {field : String}
    (given : field ∈ overlay.values) : field ∈ graph.netColumns overlay.entity overlay.key := by
  obtain ⟨definition, -, fitting⟩ := h.overlay_eq laid
  by_contra unchanged
  simp [Std.ExtTreeMap.mem_iff_isSome_getElem?, MemoryBackend.none_of_fitting unchanged fitting] at given

theorem Edited.value_of_overlay (h : graph.Edited tables) {overlay : Overlay}
    (laid : overlay ∈ graph.pendingChanges.filterMap backend.overlay?) {field : String} {value : Value}
    (changed : (graph.netColumns overlay.entity overlay.key)[field]? = some value) :
    ∃ definition stored, backend.catalog.entities[overlay.entity]? = some definition ∧
      definition.coerceField field value = .ok stored ∧ overlay.values[field]? = some stored := by
  obtain ⟨definition, known, fitting⟩ := h.overlay_eq laid
  obtain ⟨stored, converted, given⟩ :=
    (MemoryBackend.overwrite_values MemoryBackend.toList_names_nodup fitting field).1 value
      (Std.ExtTreeMap.mem_toList_iff_getElem?_eq_some.2 changed)
  exact ⟨definition, stored, known, converted, given⟩

section Two
variable {first second : Graph}

/-- No field of a row has net changes in both graphs. -/
def Apart (first second : Graph) : Prop :=
  ∀ (entity : String) (key : Key), ∀ field ∈ first.netColumns entity key, field ∉ second.netColumns entity key

/-- Whether two graphs are apart can be told from their rows. -/
instance : Decidable (first.Apart second) :=
  decidable_of_iff (∀ entry ∈ first.entities.toList, ∀ key ∈ entry.2.rows.keys,
      ∀ field ∈ (first.netColumns entry.1 key).keys, field ∉ second.netColumns entry.1 key) <| by
    constructor
    · intro check entity key field changed
      obtain ⟨set, slot, found, hs⟩ := slot_of_mem_netColumns changed
      have held : key ∈ set.rows := mem_iff_exists_getElem?.2 ⟨_, hs⟩
      exact check (entity, set) (Std.ExtTreeMap.mem_toList_iff_getElem?_eq_some.2 found) key
        (Std.ExtTreeMap.mem_keys.2 held) field (Std.ExtTreeMap.mem_keys.2 changed)
    · exact fun apart entry _ key _ field changed => apart entry.1 key field (Std.ExtTreeMap.mem_keys.1 changed)

theorem Apart.symm (apart : first.Apart second) : second.Apart first :=
  fun entity key field theirs ours => apart entity key field ours theirs

theorem Apart.overlays (apart : first.Apart second) (one : first.Edited tables) (two : second.Edited tables) :
    ∀ ours ∈ first.pendingChanges.filterMap backend.overlay?,
      ∀ theirs ∈ second.pendingChanges.filterMap backend.overlay?, ours.Apart theirs := by
  intro ours laid theirs laid' entity key field given given'
  have changed := two.mem_of_overlay laid' given'
  rw [← entity, ← key] at changed
  exact apart _ _ field (one.mem_of_overlay laid given) changed

end Two

/-- The save of a draft answers what the backend answers to its updates. -/
theorem Edited.save_eq (h : graph.Edited tables) (some : graph.pendingChanges ≠ []) :
    (graph.save backend).1 = (backend.submit graph.pendingChanges).1.mapError .ofSubmit ∧
      (graph.save backend).2.2 = (backend.submit graph.pendingChanges).2 := by
  have valid := h.sound.transfers_valid
  rw [← List.append_nil (graph.transfers.map _), ← h.idle, ← h.sound.pendingChanges_eq] at valid
  obtain ⟨outcome, after, -⟩ := save_of_valid some valid (rfl : backend.submit graph.pendingChanges = (_, _))
  exact ⟨outcome, after⟩

/-- What comes of the save of a draft depends on the tables only through the keys that they hold. -/
theorem Edited.save_outcome (h : graph.Edited backend.tables) (linked : backend.Linked backend.tables)
    (linked' : backend.Linked tables) (same : tables.SameKeys backend.tables)
    (batches : List (List Change)) : (graph.save (backend.holding tables batches)).1 = (graph.save backend).1 := by
  by_cases none : graph.pendingChanges = []
  · rw [save_of_empty none, save_of_empty none]
  · rw [(h.save_eq none).1, (h.save_eq none).1, MemoryBackend.submit_outcome h.inPlace linked linked' same]

/-- A save of a draft that succeeds lays its overlays over the tables, another leaves them as they are. -/
theorem Edited.save_settled (h : graph.Edited tables) (linked : backend.Linked backend.tables) :
    ∃ batches, (graph.save backend).2.2 = backend.holding
        (backend.settled graph.pendingChanges (graph.save backend).1.isOk backend.tables) batches ∧
      backend.Linked (backend.settled graph.pendingChanges (graph.save backend).1.isOk backend.tables) := by
  by_cases none : graph.pendingChanges = []
  · rw [save_of_empty none, none]
    exact ⟨backend.batches, rfl, linked⟩
  · rw [(h.save_eq none).1, (h.save_eq none).2, isOk_mapError]
    exact MemoryBackend.submit_settled h.inPlace linked

/-- The update of a row of a save that succeeds finds the row, and its values fit. -/
theorem Edited.overlay_of_saved (h : graph.Edited backend.tables) (linked : backend.Linked backend.tables)
    {affected : Nat} (saved : (graph.save backend).1 = .ok affected) {entity field : String}
    (changed : field ∈ graph.netColumns entity key) :
    ∃ columns overlay, backend.tables.row? entity key = some columns ∧
      overlay ∈ graph.pendingChanges.filterMap backend.overlay? ∧ overlay.entity = entity ∧ overlay.key = key := by
  obtain ⟨set, slot, baseline, source, record, found, hs, hb, stores, held, built⟩ := h.of_mem_netColumns changed
  have pending := h.netChange_mem found changed
  cases h.sound.name_eq found
  have submitted : (backend.submit graph.pendingChanges).1 = .ok affected := by
    rw [(h.save_eq (List.ne_nil_of_mem pending)).1, mapError_eq_ok_iff] at saved
    exact saved
  obtain ⟨after, applied⟩ := MemoryBackend.applyAll_of_submit submitted
  obtain ⟨one, accepted⟩ := MemoryBackend.apply_of_applyAll h.inPlace linked applied _ pending
  obtain ⟨definition, place, known, named⟩ := MemoryBackend.named_of_apply accepted
  obtain ⟨same, rfl⟩ := Definition.keyOf?_singleton.1 named
  -- the row that was read has the key under which it was persisted
  have keyed : set.definition.keyOf? record = some source := by
    rw [Definition.keyOf?, same]
    exact linked.keyed known held
  cases Definition.keyOf?_of_rowColumns built keyed stores.2
  obtain ⟨values, laid⟩ := MemoryBackend.overlay?_of_apply accepted known named held
  exact ⟨record, _, held, List.mem_filterMap.2 ⟨_, pending, laid⟩, rfl, rfl⟩

/-- The tables hold what a graph has changed, each value converted to the type that the backend declares, and
as it is if the graph has the definition of the backend. -/
def SavedIn (graph : Graph) (catalog : Catalog) (tables : Tables) : Prop :=
  ∀ {entity : String} {key : Key} {field : String} {value : Value},
    (graph.netColumns entity key)[field]? = some value →
      ∃ definition columns stored, catalog.entities[entity]? = some definition ∧
        definition.coerceField field value = .ok stored ∧ tables.row? entity key = some columns ∧
        columns[field]? = some stored ∧ (graph.catalog.entities[entity]? = some definition → stored = value)

/-- A net value has the type of its field. -/
theorem Edited.coerceField_eq (h : graph.Edited tables) {definition : Definition} {field : String} {value : Value}
    (registered : graph.catalog.entities[name]? = some definition)
    (changed : (graph.netColumns name key)[field]? = some value) : definition.coerceField field value = .ok value := by
  have listed : field ∈ graph.netColumns name key := mem_iff_exists_getElem?.2 ⟨_, changed⟩
  obtain ⟨set, slot, baseline, -, -, found, hs, hb, -⟩ := h.of_mem_netColumns listed
  cases (h.sound.definition found).symm.trans registered
  rw [netColumns_of_slot found hs hb] at changed
  exact (((h.sound.tracked found).row hs).1.typed (mem_changedColumns.1 changed).1).coerceField

/-- All overlays of a row give a field the same value. -/
theorem Edited.overlays_agree (h : graph.Edited tables) {overlay : Overlay}
    (laid : overlay ∈ graph.pendingChanges.filterMap backend.overlay?) {field : String} {value stored : Value}
    (changed : (graph.netColumns overlay.entity overlay.key)[field]? = some value)
    (given : overlay.values[field]? = some stored) :
    ∀ one ∈ graph.pendingChanges.filterMap backend.overlay?,
      one.value? overlay.entity overlay.key field = none ∨
        one.value? overlay.entity overlay.key field = some stored := by
  intro one laid'
  unfold Overlay.value?
  split_ifs with here
  · obtain ⟨definition, value', known, converted, held⟩ := h.value_of_overlay laid changed
    cases given.symm.trans held
    rw [← here.1, ← here.2] at changed
    obtain ⟨definition', stored', known', converted', given'⟩ := h.value_of_overlay laid' changed
    rw [here.1] at known'
    cases known.symm.trans known'
    cases converted.symm.trans converted'
    exact .inr given'
  · exact .inl rfl

/-- What a save has written stays when another graph that is apart settles before or after. -/
theorem Edited.savedIn (h : graph.Edited backend.tables) (linked : backend.Linked backend.tables)
    {affected : Nat} (saved : (graph.save backend).1 = .ok affected) {other : Graph}
    (settles : other.Edited backend.tables) (apart : graph.Apart other) (accepted : Bool) :
    graph.SavedIn backend.catalog (backend.settled other.pendingChanges accepted
      (backend.settled graph.pendingChanges true backend.tables)) := by
  intro entity key field value changed
  have listed : field ∈ graph.netColumns entity key := mem_iff_exists_getElem?.2 ⟨_, changed⟩
  obtain ⟨columns, overlay, held, laid, rfl, rfl⟩ := h.overlay_of_saved linked saved listed
  obtain ⟨definition, stored, known, converted, given⟩ := h.value_of_overlay laid changed
  obtain ⟨written, found, kept⟩ := Tables.value_foldl_lay held
    (.inr ⟨overlay, laid, by rw [Overlay.value?, if_pos ⟨rfl, rfl⟩, given]⟩) (h.overlays_agree laid changed given)
  have stays : ∃ result, (backend.settled other.pendingChanges accepted
      (backend.settled graph.pendingChanges true backend.tables)).row? overlay.entity overlay.key = some result ∧
        result[field]? = some stored := by
    rw [MemoryBackend.settled, MemoryBackend.settled, if_pos rfl]
    split_ifs
    · have member : field ∈ overlay.values := mem_iff_exists_getElem?.2 ⟨_, given⟩
      exact Tables.value_foldl_lay found (.inl kept) fun theirs laid' =>
        .inl ((apart.overlays h settles overlay laid theirs laid').value?_eq_none member)
    · exact ⟨written, found, kept⟩
  obtain ⟨result, arrived, kept⟩ := stays
  refine ⟨definition, result, stored, known, converted, arrived, kept, fun registered => ?_⟩
  exact Except.ok.inj (converted.symm.trans (h.coerceField_eq registered changed))

section Two
variable {first second : Graph}

/-- The save of a draft after that of another comes out as it would have before. -/
theorem Edited.save_after (one : first.Edited backend.tables) (two : second.Edited backend.tables)
    (linked : backend.Linked backend.tables) :
    (second.save (first.save backend).2.2).1 = (second.save backend).1 ∧
      (second.save (first.save backend).2.2).2.2.tables =
        backend.settled second.pendingChanges (second.save backend).1.isOk
          (backend.settled first.pendingChanges (first.save backend).1.isOk backend.tables) := by
  obtain ⟨batches, after, linked'⟩ := one.save_settled linked
  have outcome := two.save_outcome linked linked' (fun _ _ => MemoryBackend.holds_settled) batches
  have carried : (first.save backend).2.2.Linked (first.save backend).2.2.tables := by
    rw [after]
    exact linked'.holding
  obtain ⟨batches', after', -⟩ := two.save_settled carried
  rw [after] at after' ⊢
  refine ⟨outcome, ?_⟩
  rw [after', outcome]
  exact MemoryBackend.settled_holding

/-- Two graphs that have read the same tables and then have written different fields save alike in either order,
if in these tables every row stands under its own key and, where foreign keys are enforced, refers to rows. Each
save comes out the same, the tables are the same in the end, and they hold what each save that succeeds has
written. -/
theorem Draft.saves_commute (keyed : backend.tables.Keyed backend.catalog)
    (resolved : backend.Resolved backend.tables) (one : first.Draft backend) (two : second.Draft backend)
    (apart : first.Apart second) :
    (first.save (second.save backend).2.2).1 = (first.save backend).1 ∧
    (second.save (first.save backend).2.2).1 = (second.save backend).1 ∧
    (first.save (second.save backend).2.2).2.2.tables = (second.save (first.save backend).2.2).2.2.tables ∧
    (∀ {affected : Nat}, (first.save backend).1 = .ok affected →
      first.SavedIn backend.catalog (second.save (first.save backend).2.2).2.2.tables) ∧
    ∀ {affected : Nat}, (second.save backend).1 = .ok affected →
      second.SavedIn backend.catalog (second.save (first.save backend).2.2).2.2.tables := by
  have linked : backend.Linked backend.tables := ⟨keyed, resolved⟩
  obtain ⟨outcome, after⟩ := one.edited.save_after two.edited linked
  obtain ⟨outcome', after'⟩ := two.edited.save_after one.edited linked
  have same : (first.save (second.save backend).2.2).2.2.tables =
      (second.save (first.save backend).2.2).2.2.tables := by
    rw [after, after']
    exact (MemoryBackend.settled_comm (apart.overlays one.edited two.edited)).symm
  refine ⟨outcome', outcome, same, fun saved => ?_, fun saved => ?_⟩
  · rw [after, saved]
    exact one.edited.savedIn linked saved two.edited apart _
  · rw [← same, after', saved]
    exact two.edited.savedIn linked saved one.edited apart.symm _

end Two

end Graph

namespace Family

/-- One clerk enters the mother of the child. -/
def mothered : Graph := (loaded.set "person" (.integer 3) "mother" (.integer 2)).2

/-- Another one takes its father out. -/
def disowned : Graph := (loaded.set "person" (.integer 3) "father" .null).2

/-- The registry was loaded with its persons. -/
theorem registry_stocked : MemoryBackend.Stocked registry := by
  have loads : ((MemoryBackend.empty catalog true).seed "person" persons.values).2.tables = registry.tables := by
    decide +kernel
  obtain ⟨tables, rest⟩ := MemoryBackend.seed_rest (.empty catalog true) "person" persons.values
  have same : registry = ((MemoryBackend.empty catalog true).seed "person" persons.values).2 := by
    rw [rest] at loads ⊢
    cases loads
    rfl
  exact same ▸ .seed _ _ (.empty _ _)

/-- The persons of a backend in a graph. -/
def readIn (backend : MemoryBackend) : Graph := (opened.query backend "person" ∅ 0).2

theorem readIn_draft (backend : MemoryBackend) : (readIn backend).Draft backend :=
  .read (.step opened_reachable (.query ..)) ((Graph.ofCatalog_readFrom ofCatalog_opened).query opened_reachable ∅ 0)

theorem edited_draft (backend : MemoryBackend) {key : Key} {field : String} {value : Value} (other : field ≠ "id") :
    ((readIn backend).set "person" key field value).2.Draft backend := by
  have reachable : Graph.Reachable catalog {} (readIn backend) := .step opened_reachable (.query ..)
  refine (readIn_draft backend).set fun set found => ?_
  have registered := reachable.sound.definition found
  rw [reachable.catalog_eq] at registered
  have declared := List.mem_singleton.1 (mem_of_getElem?_ofList registered)
  have own : set.definition.key = "id" := congrArg (fun entry => entry.2.key) declared
  rwa [own]

theorem mothered_draft : mothered.Draft registry := edited_draft registry (by decide)

theorem disowned_draft : disowned.Draft registry := edited_draft registry (by decide)

theorem edits_run : registry.Resolved registry.tables ∧ mothered.Apart disowned ∧
    (mothered.save registry).1 = .ok 1 ∧ (disowned.save registry).1 = .ok 1 ∧
    (mothered.netColumns "person" (.integer 3))["mother"]? = some (.integer 2) ∧
    (disowned.netColumns "person" (.integer 3))["father"]? = some .null ∧
    mothered.catalog.entities["person"]? = some person ∧ disowned.catalog.entities["person"]? = some person := by
  decide +kernel

/-- Both edits of the child arrive. -/
theorem edits_commute : mothered.Apart disowned ∧
    (mothered.save registry).1 = .ok 1 ∧ (disowned.save (mothered.save registry).2.2).1 = .ok 1 ∧
    ∃ child, (disowned.save (mothered.save registry).2.2).2.2.row? "person" (.integer 3) = some child ∧
      child["mother"]? = some (.integer 2) ∧ child["father"]? = some .null := by
  obtain ⟨resolved, apart, saved, saved', changed, changed', registered, registered'⟩ := edits_run
  obtain ⟨-, outcome, -, ours, theirs⟩ :=
    Graph.Draft.saves_commute registry_stocked.filed.1 resolved mothered_draft disowned_draft apart
  obtain ⟨definition, child, stored, known, -, held, written, same⟩ := ours saved changed
  obtain ⟨definition', child', stored', known', -, held', written', same'⟩ := theirs saved' changed'
  cases held.symm.trans held'
  cases List.mem_singleton.1 (mem_of_getElem?_ofList known)
  cases List.mem_singleton.1 (mem_of_getElem?_ofList known')
  refine ⟨apart, saved, outcome.trans saved', child, held, ?_, ?_⟩
  · rw [written, same registered]
  · rw [written', same' registered']

/-- A registry whose persons a command has filed under the keys of a table. -/
def refiled (table : Table) : MemoryBackend :=
  let handler : CommandHandler := fun tables _ _ => (.ok table.size, tables.insert "person" table)
  (((MemoryBackend.empty catalog true).register "person" handler).submit [.command personName ∅ none]).2

/-- One person, who has the second key and stands under the first. -/
def misfiled : MemoryBackend := refiled (.ofList [(Key.integer 1, columns 2 .null .null)])

/-- Under the first two keys stands the fifth person twice, and the persons of these keys stand elsewhere. -/
def shuffled : MemoryBackend :=
  refiled (.ofList [(Key.integer 1, columns 5 .null .null), (Key.integer 2, columns 5 .null .null),
    (Key.integer 3, columns 1 .null .null), (Key.integer 4, columns 2 .null .null)])

/-- The mother of a person is entered in a graph with the persons of a backend. -/
def motheredIn (backend : MemoryBackend) (key mother : Int64) : Graph :=
  ((readIn backend).set "person" (.integer key) "mother" (.integer mother)).2

theorem misfiled_run :
    (misfiled.Resolved misfiled.tables ∧ (motheredIn misfiled 2 2).Apart (readIn misfiled) ∧
      ((motheredIn misfiled 2 2).save misfiled).1 = .ok 0 ∧
      ((motheredIn misfiled 2 2).netColumns "person" (.integer 2))["mother"]? = some (.integer 2) ∧
      ((readIn misfiled).save ((motheredIn misfiled 2 2).save misfiled).2.2).2.2.rows "person" =
        [columns 2 .null .null] ∧
      ((readIn misfiled).save ((motheredIn misfiled 2 2).save misfiled).2.2).2.2.row? "person" (.integer 2) = none) ∧
    shuffled.Resolved shuffled.tables ∧ (motheredIn shuffled 1 3).Apart (motheredIn shuffled 2 3) ∧
      ((motheredIn shuffled 1 3).save shuffled).1 = .ok 1 ∧
      ((motheredIn shuffled 1 3).save ((motheredIn shuffled 2 3).save shuffled).2.2).1 =
        .error (.saveConflict (.duplicateKey "person" "5")) ∧
      ((motheredIn shuffled 1 3).save ((motheredIn shuffled 2 3).save shuffled).2.2).2.2.row? "person" (.integer 1) =
        some (columns 5 .null .null) ∧
      ((motheredIn shuffled 2 3).save ((motheredIn shuffled 1 3).save shuffled).2.2).2.2.row? "person" (.integer 1) =
        none := by
  decide +kernel

/-- Where rows stand under other keys than their own, a save that succeeds may write nothing, and which of two
saves succeeds may depend on their order, although all references are resolved. -/
theorem misfiled_saves_differ :
    (∃ (backend : MemoryBackend) (first second : Graph), backend.Resolved backend.tables ∧ first.Draft backend ∧
      second.Draft backend ∧ first.Apart second ∧ (first.save backend).1 = .ok 0 ∧
      (first.netColumns "person" (.integer 2))["mother"]? = some (.integer 2) ∧
      (second.save (first.save backend).2.2).2.2.rows "person" = [columns 2 .null .null] ∧
      ¬first.SavedIn backend.catalog (second.save (first.save backend).2.2).2.2.tables) ∧
    ∃ (backend : MemoryBackend) (first second : Graph), backend.Resolved backend.tables ∧ first.Draft backend ∧
      second.Draft backend ∧ first.Apart second ∧ (first.save backend).1 = .ok 1 ∧
      (first.save (second.save backend).2.2).1 = .error (.saveConflict (.duplicateKey "person" "5")) ∧
      (first.save (second.save backend).2.2).2.2.tables ≠ (second.save (first.save backend).2.2).2.2.tables := by
  obtain ⟨⟨resolved, apart, saved, changed, rows, absent⟩, resolved', apart', saved', refused, kept, left⟩ :=
    misfiled_run
  refine ⟨⟨misfiled, motheredIn misfiled 2 2, readIn misfiled, resolved, edited_draft misfiled (by decide),
      readIn_draft misfiled, apart, saved, changed, rows, fun savedIn => ?_⟩,
    shuffled, motheredIn shuffled 1 3, motheredIn shuffled 2 3, resolved', edited_draft shuffled (by decide),
      edited_draft shuffled (by decide), apart', saved', refused, fun same => ?_⟩
  · obtain ⟨-, row, -, -, -, held, -⟩ := savedIn changed
    cases absent.symm.trans held
  · rw [MemoryBackend.row?, same] at kept
    cases left.symm.trans kept

end Family
end EntityGraph
