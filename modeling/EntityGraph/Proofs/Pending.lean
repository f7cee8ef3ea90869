import EntityGraph.Proofs.Saving

/-! # Pending changes

The marks of a set say which of its rows differ from what was persisted, and the batch of a save is
that difference: one change for each row that differs, and none besides. -/
namespace EntityGraph

namespace EntitySet
variable {set : EntitySet} {key : Key} {slot : Slot}

/-- The insert of a row that was never persisted. -/
def netInsert? (set : EntitySet) (slot : Slot) : Option Change :=
  match slot.baseline with
  | none => some (.insert set.definition.name slot.row.columns)
  | some _ => none

/-- The update of a row that differs from what was persisted: it names the row by the key that it was
persisted under, and carries the values that differ. -/
def netUpdate? (set : EntitySet) (slot : Slot) : Option Change :=
  slot.baseline.bind fun baseline =>
    (set.persistedKey? slot).bind fun persisted =>
      if baseline = slot.row.columns then none
      else
        some (.update set.definition.name (.ofList [(set.definition.key, persisted.toValue)])
          (slot.row.columns.filter fun field value => baseline[field]? != some value))

/-- The delete of a row that was persisted under a key. -/
def netDelete (set : EntitySet) (persisted : Key) : Change :=
  .delete set.definition.name (.ofList [(set.definition.key, persisted.toValue)])

def netInserts (set : EntitySet) : List Change := set.rows.toList.filterMap fun entry => set.netInsert? entry.2

def netUpdates (set : EntitySet) : List Change := set.rows.toList.filterMap fun entry => set.netUpdate? entry.2

def netDeletes (set : EntitySet) : List Change := set.removed.keys.map set.netDelete

theorem netInsert?_isSome : (set.netInsert? slot).isSome ↔ slot.baseline = none := by
  cases hb : slot.baseline <;> simp [netInsert?, hb]

/-- No row that differs from what was persisted goes without an update. -/
theorem Tracked.netUpdate?_isSome (h : set.Tracked) (found : set.rows[key]? = some slot) :
    (set.netUpdate? slot).isSome ↔ ∃ baseline, slot.baseline = some baseline ∧ baseline ≠ slot.row.columns := by
  cases hb : slot.baseline with
  | none => simp [netUpdate?, hb]
  | some baseline =>
    obtain ⟨persisted, stores⟩ := h.baseline found hb
    have named : set.persistedKey? slot = some persisted := persistedKey?_eq_some_iff.2 ⟨baseline, hb, stores.2⟩
    by_cases same : baseline = slot.row.columns <;> simp [netUpdate?, hb, named, same]

theorem changedColumns_self {columns : Columns} : changedColumns columns columns = ∅ := by
  refine Std.ExtTreeMap.eq_empty_iff_forall_not_mem.2 fun field changed => ?_
  obtain ⟨value, held⟩ := mem_iff_exists_getElem?.1 changed
  obtain ⟨current, differs⟩ := mem_changedColumns.1 held
  exact differs current

theorem Tracked.updateChange?_eq (h : set.Tracked) (found : set.rows[key]? = some slot) :
    set.updateChange? slot = set.netUpdate? slot := by
  cases hb : slot.baseline with
  | none => simp [updateChange?, netUpdate?, hb]
  | some baseline =>
    obtain ⟨persisted, stores⟩ := h.baseline found hb
    have named : set.persistedKey? slot = some persisted := persistedKey?_eq_some_iff.2 ⟨baseline, hb, stores.2⟩
    simp only [updateChange?, netUpdate?, hb, named, Option.bind_some]
    by_cases same : baseline = slot.row.columns
    · simp [same, changedColumns_self]
    · simp only [same, changedColumns_ne_empty (h.row found).1 stores.1 same, stores.keyField]
      rfl

/-- Going through the marked keys is going through the rows, if the marks tell which rows give
something. -/
theorem perm_of_marks {marks : Std.ExtTreeSet Key} {rows : Std.ExtTreeMap Key Slot} {result : Slot → Option Change}
    (exact : ∀ key, key ∈ marks ↔ ∃ slot, rows[key]? = some slot ∧ (result slot).isSome) :
    (marks.toList.filterMap fun key => rows[key]?.bind result).Perm
      (rows.toList.filterMap fun entry => result entry.2) := by
  have byKey : (rows.toList.filterMap fun entry => result entry.2) =
      rows.keys.filterMap fun key => rows[key]?.bind result := by
    rw [← Std.ExtTreeMap.map_fst_toList_eq_keys, List.filterMap_map]
    refine List.filterMap_congr fun entry member => ?_
    rw [Std.ExtTreeMap.mem_toList_iff_getElem?_eq_some] at member
    simp [member]
  have listed : marks.toList.Perm (rows.keys.filter fun key => (rows[key]?.bind result).isSome) := by
    refine (List.perm_ext_iff_of_nodup (toList_nodup marks) (Std.ExtTreeMap.nodup_keys.filter _)).2 fun key => ?_
    rw [Std.ExtTreeSet.mem_toList, exact, List.mem_filter, Std.ExtTreeMap.mem_keys,
      Std.ExtTreeMap.mem_iff_isSome_getElem?]
    cases rows[key]? <;> simp
  rw [byKey]
  refine (listed.filterMap _).trans (.of_eq ?_)
  rw [List.filterMap_filter]
  refine List.filterMap_congr fun key _ => ?_
  cases rows[key]?.bind result <;> simp

theorem parentsFirst_perm {definition : Definition} {changes : List PendingChange} :
    (Batch.parentsFirst definition changes).Perm (changes.map PendingChange.change) :=
  (Batch.rounds_perm _ _).map _

theorem Tracked.inserts_perm (h : set.Tracked) :
    (Batch.parentsFirst set.definition set.changes.inserts).Perm set.netInserts := by
  have listed : set.changes.inserts.map PendingChange.change =
      set.inserted.toList.filterMap fun key => set.rows[key]?.bind set.netInsert? := by
    rw [changes, List.map_filterMap]
    refine List.filterMap_congr fun key member => ?_
    rw [Std.ExtTreeSet.mem_toList, h.inserted] at member
    obtain ⟨slot, found, fresh⟩ := member
    simp [found, netInsert?, fresh, insertChange]
  refine parentsFirst_perm.trans (listed ▸ perm_of_marks fun key => ?_)
  simp only [h.inserted, netInsert?_isSome]

theorem Tracked.updates_perm (h : set.Tracked) : set.changes.updates.Perm set.netUpdates := by
  have listed : set.changes.updates =
      set.updated.toList.filterMap fun key => set.rows[key]?.bind set.netUpdate? := by
    refine List.filterMap_congr fun key _ => ?_
    cases found : set.rows[key]? with
    | none => rfl
    | some slot => exact h.updateChange?_eq found
  refine listed ▸ perm_of_marks fun key => ?_
  rw [h.updated]
  refine exists_congr fun slot => ?_
  rw [exists_and_left]
  exact and_congr_right fun found => (h.netUpdate?_isSome found).symm

theorem deletes_perm :
    (Batch.parentsFirst set.definition set.changes.deletes).reverse.Perm set.netDeletes := by
  refine (List.reverse_perm _).trans (parentsFirst_perm.trans (.of_eq ?_))
  rw [changes, netDeletes, ← Std.ExtTreeMap.map_fst_toList_eq_keys, List.map_map, List.map_map]
  rfl

end EntitySet

namespace Graph
variable {graph : Graph} {name : String} {set : EntitySet} {catalog : Catalog} {config : GraphConfig}

/-- The marks of every reachable set are exact: a row stands under its key, it is marked as inserted or
updated just while it was never persisted or differs from what was, and it is clean whenever it is back
at its baseline. -/
theorem Reachable.marks_exact (reachable : Reachable catalog config graph)
    (found : graph.entities[name]? = some set) :
    (∀ {key : Key} {row : Row}, set.get? key = some row → row.key? = some key) ∧
    (∀ key : Key, key ∈ set.inserted ↔ ∃ slot, set.rows[key]? = some slot ∧ slot.baseline = none) ∧
    (∀ key : Key, key ∈ set.updated ↔ ∃ slot baseline, set.rows[key]? = some slot ∧
      slot.baseline = some baseline ∧ baseline ≠ slot.row.columns) ∧
    (∀ {persisted : Key} {columns : Columns}, set.removed[persisted]? = some columns →
      columns[set.definition.key]? = some persisted.toValue) ∧
    ∀ {key : Key} {slot : Slot}, set.rows[key]? = some slot →
      (slot.baseline = some slot.row.columns ↔ key ∉ set.inserted ∧ key ∉ set.updated) := by
  have tracked := reachable.sound.tracked found
  refine ⟨fun {key row} held => ?_, fun _ => tracked.inserted, fun _ => tracked.updated,
    fun removed => (tracked.removed removed).keyField, fun {key slot} hs => ⟨fun clean => ?_, fun unmarked => ?_⟩⟩
  · obtain ⟨slot, hs, rfl⟩ := EntitySet.get?_eq_some_iff.1 held
    rw [Row.key?, tracked.definition hs]
    exact (tracked.row hs).2
  · rw [tracked.inserted, tracked.updated]
    simp [hs, clean]
  · exact tracked.clean unmarked.1 unmarked.2 hs

/-- Only commands wait in the queue. -/
theorem Reachable.commands_only (reachable : Reachable catalog config graph) :
    ∀ change ∈ graph.commands, change.isDataChange = false := by
  refine reachable.invariant (fun graph => ∀ change ∈ graph.commands, change.isDataChange = false)
    (fun opened => ?_) fun event _ queued => ?_
  · obtain ⟨-, opened⟩ := check_eq_ok_iff.1 opened
    cases opened
    simp
  · cases event with
    | row => exact queued
    | queue listed =>
      intro change member
      rcases listed change member with waiting | ⟨_, _, _, _, -, -, rfl⟩
      · exact queued change waiting
      · rfl
    | dropChanges => simp [dropChanges]

/-- The save order goes through every entity once. -/
theorem Sound.sets_perm (h : graph.Sound) : graph.sets.Perm graph.entities.values := by
  have once : graph.sets.Nodup := h.sets_distinct.imp fun differ same => differ (by rw [same])
  have once' : graph.entities.values.Nodup := by
    rw [values_eq, List.nodup_iff_pairwise_ne, List.pairwise_map]
    refine Std.ExtTreeMap.distinct_keys_toList.imp_of_mem fun {entry other} he ho differ same => ?_
    rw [Std.ExtTreeMap.mem_toList_iff_getElem?_eq_some] at he ho
    refine differ (Std.compare_eq_iff_eq.2 ?_)
    rw [← h.name_eq he, same, h.name_eq ho]
  refine (List.perm_ext_iff_of_nodup once once').2 fun set => ?_
  rw [h.mem_sets, values_eq]
  simp only [List.mem_map, Prod.exists, exists_eq_right, Std.ExtTreeMap.mem_toList_iff_getElem?_eq_some]
  exact ⟨fun found => ⟨_, found⟩, fun ⟨name, found⟩ => h.name_eq found ▸ found⟩

/-- The batch of every reachable graph is its net difference to what was persisted: the inserts of all
sets in save order, then the updates, then the deletes in reverse order, then the commands of the queue,
and for each set one change for each row that differs. -/
theorem Reachable.pendingChanges_net (reachable : Reachable catalog config graph) :
    graph.sets.Perm graph.entities.values ∧
    graph.sets.map EntitySet.definition = saveOrder catalog.definitions ∧
    (∃ inserts updates deletes : EntitySet → List Change,
      graph.pendingChanges = graph.sets.flatMap inserts ++ graph.sets.flatMap updates ++
        graph.sets.reverse.flatMap deletes ++ graph.commands ∧
      ∀ set ∈ graph.sets, (inserts set).Perm set.netInserts ∧ (updates set).Perm set.netUpdates ∧
        (deletes set).Perm set.netDeletes) ∧
    (∀ set ∈ graph.sets, ∀ {key : Key} {slot : Slot}, set.rows[key]? = some slot →
      ((set.netInsert? slot).isSome ↔ slot.baseline = none) ∧
      ((set.netUpdate? slot).isSome ↔ ∃ baseline, slot.baseline = some baseline ∧ baseline ≠ slot.row.columns)) ∧
    (∀ change ∈ graph.commands, change.isDataChange = false) ∧
    (graph.pendingChanges = [] ↔ graph.isDirty = false) := by
  have sound := reachable.sound
  have tracked : ∀ set ∈ graph.sets, set.Tracked := fun set member => sound.tracked (sound.mem_sets.1 member)
  refine ⟨sound.sets_perm, ?_, ?_, ?_, reachable.commands_only, sound.pendingChanges_eq_nil_iff⟩
  · rw [sound.map_sets, sound.order, reachable.catalog_eq]
  · refine ⟨fun set => Batch.parentsFirst set.definition set.changes.inserts, fun set => set.changes.updates,
      fun set => (Batch.parentsFirst set.definition set.changes.deletes).reverse, ?_, fun set member => ?_⟩
    · rw [sound.pendingChanges_eq_assemble]
      simp only [Batch.assemble, ← List.map_reverse, List.flatMap_map]
    · exact ⟨(tracked set member).inserts_perm, (tracked set member).updates_perm, EntitySet.deletes_perm⟩
  · exact fun set member _ _ found =>
      ⟨EntitySet.netInsert?_isSome, (tracked set member).netUpdate?_isSome found⟩

end Graph

namespace Forest

/-- A backend with three nodes. -/
def orchard : MemoryBackend :=
  ((MemoryBackend.empty catalog true).seed "node" [columns 1 .null, columns 2 .null, columns 3 .null]).2

/-- A graph with the nodes of a backend. -/
def gathered : Graph := (bare.query orchard "node" ∅ 0).2

theorem gathered_reachable : Graph.Reachable catalog {} gathered := .step bare_reachable (.query ..)

/-- The first node was moved to another key and back, a node is new, the second node is attached to it, the
third is removed, and a command waits. -/
def tended : Graph :=
  let shifted := (gathered.set "node" (.integer 1) "id" (.integer 5)).2
  let restored := (shifted.set "node" (.integer 5) "id" (.integer 1)).2
  let grown := (restored.insert ⟨node, 3, columns 4 .null⟩ 0).2
  let attached := (grown.set "node" (.integer 2) "parent" (.integer 4)).2
  ((attached.remove "node" (.integer 3)).2.command "node" ∅).2

theorem tended_reachable : Graph.Reachable catalog {} tended := by
  have restored : Graph.Reachable catalog {} _ :=
    .step (.step gathered_reachable (.set "node" (.integer 1) "id" (.integer 5)))
      (.set "node" (.integer 5) "id" (.integer 1))
  exact .step (.step (.step (.step restored (.insert 0 (node_built restored 3 4))) (.set ..)) (.remove ..))
    (.command ..)

/-- What a save of the tended nodes submits. -/
def tendedBatch : List Change :=
  [.insert nodeName (columns 4 .null),
    .update nodeName (.ofList [("id", Value.integer 2)]) (.ofList [("parent", Value.integer 4)]),
    .delete nodeName (.ofList [("id", Value.integer 3)]),
    .command nodeName ∅ none]

theorem tended_run : (tended.entities["node"]?.bind fun set => set.rows[Key.integer 1]?.filter fun slot =>
      slot.baseline == some slot.row.columns).isSome = true ∧ tended.pendingChanges = tendedBatch := by
  decide +kernel

/-- The first node is clean again. -/
theorem tended_marks_exact : ∃ set slot, tended.entities["node"]? = some set ∧
    set.rows[Key.integer 1]? = some slot ∧ slot.baseline = some slot.row.columns ∧
      Key.integer 1 ∉ set.inserted ∧ Key.integer 1 ∉ set.updated := by
  obtain ⟨slot, back⟩ := Option.isSome_iff_exists.1 tended_run.1
  obtain ⟨set, found, back⟩ := Option.bind_eq_some_iff.1 back
  obtain ⟨hs, back⟩ := Option.filter_eq_some_iff.1 back
  rw [beq_iff_eq] at back
  obtain ⟨-, -, -, -, unmarked⟩ := Graph.Reachable.marks_exact tended_reachable found
  exact ⟨set, slot, found, hs, back, (unmarked hs).1 back⟩

theorem tended_pendingChanges_net : tended.pendingChanges = tendedBatch ∧ tended.isDirty = true := by
  have pending := tended_run.2
  obtain ⟨-, -, -, -, -, settled⟩ := Graph.Reachable.pendingChanges_net tended_reachable
  refine ⟨pending, ?_⟩
  by_contra clean
  rw [settled.2 (by simpa using clean)] at pending
  cases pending

end Forest
end EntityGraph
