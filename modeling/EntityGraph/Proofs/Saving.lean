import EntityGraph.Proofs.Reachability
import EntityGraph.Proofs.Rounds
import EntityGraph.Proofs.Transfers

/-! # Saving

The batch of a save is a list of transfers, one for each row that is not as persisted. A graph and a
memory backend are in step when the tables hold what the graph takes for persisted; a save that
succeeds brings the tables to the rows of the graph and keeps the two in step. -/
namespace EntityGraph

/-- The key of columns that hold one. -/
def Definition.keyIn (definition : Definition) (columns : Columns) : Key :=
  (definition.keyOf? columns).getD (.integer 0)

theorem Definition.Stores.keyIn_eq {definition : Definition} {key : Key} {columns : Columns}
    (stores : definition.Stores key columns) : definition.keyIn columns = key := by
  simp [Definition.keyIn, stores.2]

namespace EntitySet
variable {set : EntitySet} {transfer : Transfer}

def insertTransfer (set : EntitySet) (pending : PendingChange) : Transfer :=
  .insert set.definition (set.definition.keyIn pending.columns) pending.columns

def updateTransfer? (set : EntitySet) (slot : Slot) : Option Transfer :=
  slot.baseline.map fun baseline =>
    .update set.definition (set.definition.keyIn baseline) baseline
      (set.definition.keyIn slot.row.columns) slot.row.columns

def deleteTransfer (set : EntitySet) (pending : PendingChange) : Transfer :=
  .delete set.definition (set.definition.keyIn pending.columns) pending.columns

def insertTransfers (set : EntitySet) : List Transfer :=
  (Batch.rounds set.definition set.changes.inserts.length set.changes.inserts).map set.insertTransfer

def updateTransfers (set : EntitySet) : List Transfer :=
  set.updated.toList.filterMap fun key => set.rows[key]?.bind set.updateTransfer?

def deleteTransfers (set : EntitySet) : List Transfer :=
  (Batch.rounds set.definition set.changes.deletes.length set.changes.deletes).map set.deleteTransfer

/-- The transfers of one entity, in the order in which a save makes them. -/
def transfers (set : EntitySet) : List Transfer :=
  set.insertTransfers ++ (set.updateTransfers ++ set.deleteTransfers.reverse)

theorem mem_transfers : transfer ∈ set.transfers ↔
    transfer ∈ set.insertTransfers ∨ transfer ∈ set.updateTransfers ∨ transfer ∈ set.deleteTransfers := by
  simp only [transfers, List.mem_append, List.mem_reverse]

theorem mem_inserts {pending : PendingChange} : pending ∈ set.changes.inserts ↔
    ∃ key slot, key ∈ set.inserted ∧ set.rows[key]? = some slot ∧ pending = set.insertChange slot := by
  simp only [changes, List.mem_filterMap, Std.ExtTreeSet.mem_toList, eq_comm]
  grind

theorem mem_deletes {pending : PendingChange} : pending ∈ set.changes.deletes ↔
    ∃ key columns, set.removed[key]? = some columns ∧ pending = set.deleteChange key columns := by
  simp only [changes, List.mem_map, Prod.exists, Std.ExtTreeMap.mem_toList_iff_getElem?_eq_some, eq_comm]

theorem Tracked.mem_insertTransfers (h : set.Tracked) : transfer ∈ set.insertTransfers ↔
    ∃ key slot, set.rows[key]? = some slot ∧ slot.baseline = none ∧
      transfer = .insert set.definition key slot.row.columns := by
  simp only [insertTransfers, List.mem_map, (Batch.rounds_perm _ _).mem_iff, mem_inserts]
  constructor
  · rintro ⟨pending, ⟨key, slot, marked, found, rfl⟩, rfl⟩
    obtain ⟨_, found', fresh⟩ := h.inserted.1 marked
    cases found.symm.trans found'
    exact ⟨key, slot, found, fresh, by rw [insertTransfer, insertChange, (h.row found).keyIn_eq]⟩
  · rintro ⟨key, slot, found, fresh, rfl⟩
    refine ⟨set.insertChange slot, ⟨key, slot, h.inserted.2 ⟨slot, found, fresh⟩, found, rfl⟩, ?_⟩
    rw [insertTransfer, insertChange, (h.row found).keyIn_eq]

theorem Tracked.mem_updateTransfers (h : set.Tracked) : transfer ∈ set.updateTransfers ↔
    ∃ key slot source baseline, set.rows[key]? = some slot ∧ slot.baseline = some baseline ∧
      baseline ≠ slot.row.columns ∧ set.definition.Stores source baseline ∧
      transfer = .update set.definition source baseline key slot.row.columns := by
  simp only [updateTransfers, List.mem_filterMap, Std.ExtTreeSet.mem_toList, Option.bind_eq_some_iff,
    updateTransfer?, Option.map_eq_some_iff]
  constructor
  · rintro ⟨key, marked, slot, found, baseline, persisted, rfl⟩
    obtain ⟨_, _, found', persisted', changed⟩ := h.updated.1 marked
    cases found.symm.trans found'
    cases persisted.symm.trans persisted'
    obtain ⟨source, stores⟩ := h.baseline found persisted
    exact ⟨key, slot, source, baseline, found, persisted, changed, stores,
      by rw [stores.keyIn_eq, (h.row found).keyIn_eq]⟩
  · rintro ⟨key, slot, source, baseline, found, persisted, changed, stores, rfl⟩
    refine ⟨key, h.updated.2 ⟨slot, baseline, found, persisted, changed⟩, slot, found, baseline, persisted, ?_⟩
    rw [stores.keyIn_eq, (h.row found).keyIn_eq]

theorem Tracked.mem_deleteTransfers (h : set.Tracked) : transfer ∈ set.deleteTransfers ↔
    ∃ key columns, set.removed[key]? = some columns ∧ transfer = .delete set.definition key columns := by
  simp only [deleteTransfers, List.mem_map, (Batch.rounds_perm _ _).mem_iff, mem_deletes]
  constructor
  · rintro ⟨pending, ⟨key, columns, found, rfl⟩, rfl⟩
    exact ⟨key, columns, found, by rw [deleteTransfer, deleteChange, (h.removed found).keyIn_eq]⟩
  · rintro ⟨key, columns, found, rfl⟩
    exact ⟨set.deleteChange key columns, ⟨key, columns, found, rfl⟩,
      by rw [deleteTransfer, deleteChange, (h.removed found).keyIn_eq]⟩

/-- The transfers of a set belong to its entity. -/
theorem Tracked.definition_of_mem (h : set.Tracked) (member : transfer ∈ set.transfers) :
    transfer.definition = set.definition := by
  rw [mem_transfers, h.mem_insertTransfers, h.mem_updateTransfers, h.mem_deleteTransfers] at member
  rcases member with ⟨_, _, _, _, rfl⟩ | ⟨_, _, _, _, _, _, _, _, rfl⟩ | ⟨_, _, _, rfl⟩ <;> rfl

theorem map_change_insertTransfers :
    set.insertTransfers.map Transfer.change = Batch.parentsFirst set.definition set.changes.inserts := by
  rw [insertTransfers, List.map_map, Batch.parentsFirst]
  refine List.map_congr_left fun pending member => ?_
  obtain ⟨key, slot, -, -, rfl⟩ := mem_inserts.1 ((Batch.rounds_perm _ _).mem_iff.1 member)
  rfl

theorem Tracked.map_change_deleteTransfers (h : set.Tracked) :
    set.deleteTransfers.map Transfer.change = Batch.parentsFirst set.definition set.changes.deletes := by
  rw [deleteTransfers, List.map_map, Batch.parentsFirst]
  refine List.map_congr_left fun pending member => ?_
  obtain ⟨key, columns, found, rfl⟩ := mem_deletes.1 ((Batch.rounds_perm _ _).mem_iff.1 member)
  simp only [Function.comp, deleteTransfer, deleteChange, (h.removed found).keyIn_eq, Transfer.change]

/-- Two rows of one definition with different columns differ in the value of some field. -/
theorem changedColumns_ne_empty {definition : Definition} {columns baseline : Columns}
    (fits : definition.Fits columns) (fits' : definition.Fits baseline) (changed : baseline ≠ columns) :
    (changedColumns columns baseline).isEmpty = false := by
  by_contra empty
  rw [Bool.not_eq_false, Std.ExtTreeMap.isEmpty_iff] at empty
  refine changed (Std.ExtTreeMap.ext_getElem? fun name => ?_)
  cases hc : columns[name]? with
  | none => exact fits.absent fits' hc
  | some value =>
    by_contra differs
    have listed := mem_changedColumns.2 ⟨hc, differs⟩
    simp [empty] at listed

theorem Tracked.map_change_updateTransfers (h : set.Tracked) :
    set.updateTransfers.map Transfer.change = set.changes.updates := by
  rw [updateTransfers, List.map_filterMap, changes]
  refine List.filterMap_congr fun key member => ?_
  rw [Std.ExtTreeSet.mem_toList, h.updated] at member
  obtain ⟨slot, baseline, found, persisted, changed⟩ := member
  obtain ⟨source, stores⟩ := h.baseline found persisted
  have nonempty := changedColumns_ne_empty (h.row found).1 stores.1 changed
  simp [found, updateTransfer?, updateChange?, persisted, nonempty, Transfer.change]

theorem Tracked.not_leaves_of_insert (h : set.Tracked) (member : transfer ∈ set.insertTransfers) {entity : String}
    {key : Key} : ¬transfer.Leaves entity key := by
  intro leaves
  obtain ⟨_, _, _, _, rfl⟩ := h.mem_insertTransfers.1 member
  cases leaves.2

theorem Tracked.leaves_of_update (h : set.Tracked) (member : transfer ∈ set.updateTransfers) {entity : String}
    {key : Key} (leaves : transfer.Leaves entity key) :
    set.definition.name.text = entity ∧
      ∃ (place : Key) (slot : Slot), set.rows[place]? = some slot ∧ set.persistedKey? slot = some key ∧
        slot.baseline ≠ some slot.row.columns ∧
        transfer.target = some (place, slot.row.columns) := by
  obtain ⟨place, slot, source, baseline, found, hb, changed, stores, rfl⟩ := h.mem_updateTransfers.1 member
  obtain ⟨named, left⟩ := leaves
  cases left
  refine ⟨named, place, slot, found, persistedKey?_eq_some_iff.2 ⟨baseline, hb, stores.2⟩, ?_, rfl⟩
  rw [hb]
  exact fun same => changed (Option.some.inj same)

theorem Tracked.leaves_of_delete (h : set.Tracked) (member : transfer ∈ set.deleteTransfers) {entity : String}
    {key : Key} (leaves : transfer.Leaves entity key) :
    set.definition.name.text = entity ∧
      ∃ columns, set.removed[key]? = some columns ∧ transfer = .delete set.definition key columns := by
  obtain ⟨place, columns, found, rfl⟩ := h.mem_deleteTransfers.1 member
  obtain ⟨named, left⟩ := leaves
  cases left
  exact ⟨named, columns, found, rfl⟩

theorem Tracked.updateTransfers_apart (h : set.Tracked) (distinct : set.Distinct) :
    set.updateTransfers.Pairwise Transfer.Apart := by
  refine List.pairwise_filterMap.2 ((toList_nodup set.updated).imp fun {key other} differ => ?_)
  intro transfer ht transfer' ht' entity persisted leaves leaves'
  have source : ∀ {key : Key} {transfer : Transfer}, set.rows[key]?.bind set.updateTransfer? = some transfer →
      transfer.Leaves entity persisted →
      ∃ slot, set.rows[key]? = some slot ∧ set.persistedKey? slot = some persisted := by
    intro key transfer ht leaves
    obtain ⟨slot, found, ht⟩ := Option.bind_eq_some_iff.1 ht
    obtain ⟨baseline, hb, rfl⟩ := Option.map_eq_some_iff.1 ht
    obtain ⟨place, stores⟩ := h.baseline found hb
    have same : place = persisted := by
      simpa [Transfer.Leaves, Transfer.source, stores.keyIn_eq] using leaves.2
    exact ⟨slot, found, persistedKey?_eq_some_iff.2 ⟨baseline, hb, same ▸ stores.2⟩⟩
  obtain ⟨slot, found, hp⟩ := source ht leaves
  obtain ⟨slot', found', hp'⟩ := source ht' leaves'
  exact differ (distinct.rows found found' hp hp').symm

theorem Tracked.deleteTransfers_apart (h : set.Tracked) : set.deleteTransfers.Pairwise Transfer.Apart := by
  have listed : (set.changes.deletes.map set.deleteTransfer).Pairwise Transfer.Apart := by
    rw [changes, List.map_map, List.pairwise_map]
    refine Std.ExtTreeMap.distinct_keys_toList.imp_of_mem fun {entry entry'} he he' differ => ?_
    intro entity persisted leaves leaves'
    rw [Std.ExtTreeMap.mem_toList_iff_getElem?_eq_some] at he he'
    have key := (h.removed he).keyIn_eq
    have key' := (h.removed he').keyIn_eq
    refine differ (Std.compare_eq_iff_eq.2 ?_)
    have same := leaves.2.trans leaves'.2.symm
    simpa [Transfer.source, deleteTransfer, deleteChange, key, key'] using same
  exact ((Batch.rounds_perm _ _).map _).symm.pairwise listed Transfer.Apart.symm

/-- No two transfers take away one row, if no two rows were persisted under one key. -/
theorem Tracked.transfers_apart (h : set.Tracked) (distinct : set.Distinct) :
    set.transfers.Pairwise Transfer.Apart := by
  rw [transfers, List.pairwise_append, List.pairwise_append, List.pairwise_reverse]
  refine ⟨?_, ⟨h.updateTransfers_apart distinct, ?_, ?_⟩, ?_⟩
  · exact List.pairwise_of_forall_mem_list fun transfer member other _ =>
      fun leaves => absurd leaves (h.not_leaves_of_insert member)
  · exact h.deleteTransfers_apart.imp fun apart => apart.symm
  · intro transfer member other member' entity key leaves leaves'
    obtain ⟨-, place, slot, found, persisted, -⟩ := h.leaves_of_update member leaves
    obtain ⟨-, columns, removed, -⟩ := h.leaves_of_delete (List.mem_reverse.1 member') leaves'
    rw [distinct.removed found persisted] at removed
    cases removed
  · exact fun transfer member _ _ _ _ leaves => absurd leaves (h.not_leaves_of_insert member)

/-- What was persisted, with its key: the baselines of the rows and those of the removed rows. -/
def persistedRows (set : EntitySet) : List (Key × Columns) :=
  (set.rows.toList.filterMap fun entry =>
    entry.2.baseline.bind fun columns => (set.definition.keyOf? columns).map fun key => (key, columns)) ++
    set.removed.toList

theorem mem_persistedRows {key : Key} {columns : Columns} :
    (key, columns) ∈ set.persistedRows ↔ set.Persisted key columns := by
  simp only [persistedRows, List.mem_append, List.mem_filterMap, Std.ExtTreeMap.mem_toList_iff_getElem?_eq_some,
    Prod.exists, Option.bind_eq_some_iff, Option.map_eq_some_iff, Prod.mk.injEq, Persisted]
  grind

theorem map_fst_persistedRows : set.persistedRows.map Prod.fst =
    (set.rows.toList.filterMap fun entry => set.persistedKey? entry.2) ++ set.removed.keys := by
  rw [persistedRows, List.map_append, List.map_filterMap, Std.ExtTreeMap.map_fst_toList_eq_keys]
  congr 1
  refine List.filterMap_congr fun entry _ => ?_
  rw [persistedKey?, Option.map_bind]
  congr 1
  funext columns
  cases keyed : set.definition.keyOf? columns <;> simp [keyed]

/-- What was persisted has distinct keys if and only if none of them is listed twice. -/
theorem distinct_iff_nodup : set.Distinct ↔ (set.persistedRows.map Prod.fst).Nodup := by
  rw [map_fst_persistedRows, List.nodup_append, List.nodup_iff_pairwise_ne, List.pairwise_filterMap]
  simp only [List.mem_filterMap, Prod.exists, Std.ExtTreeMap.mem_toList_iff_getElem?_eq_some, Std.ExtTreeMap.mem_keys]
  constructor
  · intro distinct
    refine ⟨Std.ExtTreeMap.distinct_keys_toList.imp_of_mem ?_, Std.ExtTreeMap.nodup_keys, ?_⟩
    · rintro ⟨place, slot⟩ ⟨other, slot'⟩ hs hs' differ key hp _ hp' rfl
      rw [Std.ExtTreeMap.mem_toList_iff_getElem?_eq_some] at hs hs'
      exact differ (Std.compare_eq_iff_eq.2 (distinct.rows hs' hs hp' hp))
    · rintro key ⟨place, slot, hs, hp⟩ _ removed rfl
      simp [Std.ExtTreeMap.mem_iff_isSome_getElem?, distinct.removed hs hp] at removed
  · rintro ⟨listed, -, apart⟩
    have : Std.Symm fun entry entry' : Key × Slot => ∀ key, set.persistedKey? entry.2 = some key →
        ∀ key', set.persistedKey? entry'.2 = some key' → key ≠ key' :=
      ⟨fun entry entry' differ key hp key' hp' => (differ key' hp' key hp).symm⟩
    refine ⟨fun {place other persisted slot slot'} hs hs' hp hp' => ?_, fun {place persisted slot} hs hp => ?_⟩
    · rw [← Std.ExtTreeMap.mem_toList_iff_getElem?_eq_some] at hs hs'
      by_contra differ
      exact listed.forall hs' hs (fun same => differ (congrArg Prod.fst same)) persisted hp' persisted hp rfl
    · exact Std.ExtTreeMap.getElem?_eq_none fun removed =>
        apart persisted ⟨place, slot, hs, hp⟩ persisted removed rfl

end EntitySet

namespace Graph
variable {graph : Graph} {name : String} {set : EntitySet} {transfer : Transfer} {backend : MemoryBackend}

/-- The sets of all entities in save order. -/
def sets (graph : Graph) : List EntitySet :=
  graph.order.filterMap fun definition => graph.entities[definition.name.text]?

/-- What a save does, in the order in which it does it. -/
def transfers (graph : Graph) : List Transfer :=
  graph.sets.flatMap EntitySet.insertTransfers ++ graph.sets.flatMap EntitySet.updateTransfers
    ++ (graph.sets.flatMap EntitySet.deleteTransfers).reverse

theorem Sound.mem_order (h : graph.Sound) {definition : Definition} : definition ∈ graph.order ↔
    ∃ set, graph.entities[definition.name.text]? = some set ∧ set.definition = definition := by
  rw [h.order, SaveOrder.mem_saveOrder (Catalog.definitions_distinct _), Catalog.mem_definitions,
    ← h.definitions, Option.map_eq_some_iff]

theorem Sound.mem_sets (h : graph.Sound) :
    set ∈ graph.sets ↔ graph.entities[set.definition.name.text]? = some set := by
  simp only [sets, List.mem_filterMap, h.mem_order]
  constructor
  · rintro ⟨_, ⟨other, found, rfl⟩, found'⟩
    cases found.symm.trans found'
    exact found
  · exact fun found => ⟨set.definition, ⟨set, found, rfl⟩, found⟩

theorem Sound.mem_sets_of_found (h : graph.Sound)
    (found : graph.entities[name]? = some set) : set ∈ graph.sets := by
  rwa [h.mem_sets, h.name_eq found]

/-- The sets stand in the order of their definitions. -/
theorem Sound.map_sets (h : graph.Sound) : graph.sets.map EntitySet.definition = graph.order := by
  have known : ∀ definition ∈ graph.order, _ := fun _ => h.mem_order.1
  unfold sets
  revert known
  generalize graph.order = order
  intro known
  induction order with
  | nil => rfl
  | cons definition order ih =>
    obtain ⟨set, found, same⟩ := known definition (by simp)
    rw [List.filterMap_cons, found]
    exact congrArg₂ List.cons same (ih fun other later => known other (by simp [later]))

theorem Sound.sets_distinct (h : graph.Sound) :
    graph.sets.Pairwise fun set other => set.definition.name.text ≠ other.definition.name.text := by
  have distinct := SaveOrder.saveOrder_nodup (Catalog.definitions_distinct graph.catalog)
  rw [← h.order, ← h.map_sets, List.map_map, List.nodup_iff_pairwise_ne, List.pairwise_map] at distinct
  exact distinct

/-- A save takes the changes of every set, in save order. -/
theorem Sound.pendingChanges_eq_assemble (h : graph.Sound) :
    graph.pendingChanges =
      Batch.assemble (graph.sets.map fun set => (set.definition, set.changes)) graph.commands := by
  have parts : (graph.order.filterMap fun definition =>
      graph.entities[definition.name.text]?.map fun set => (definition, set.changes)) =
        graph.sets.map fun set => (set.definition, set.changes) := by
    rw [sets, List.map_filterMap]
    refine List.filterMap_congr fun definition member => ?_
    obtain ⟨set, found, rfl⟩ := h.mem_order.1 member
    rw [found]
    rfl
  simp only [pendingChanges, parts]

theorem Sound.pendingChanges_eq (h : graph.Sound) :
    graph.pendingChanges = graph.transfers.map Transfer.change ++ graph.commands := by
  have tracked : ∀ set ∈ graph.sets, set.Tracked := fun set member => h.tracked (h.mem_sets.1 member)
  have inserts : graph.sets.flatMap (fun set => Batch.parentsFirst set.definition set.changes.inserts) =
      graph.sets.flatMap fun set => set.insertTransfers.map Transfer.change :=
    List.flatMap_congr fun set _ => EntitySet.map_change_insertTransfers.symm
  have updates : graph.sets.flatMap (fun set => set.changes.updates) =
      graph.sets.flatMap fun set => set.updateTransfers.map Transfer.change :=
    List.flatMap_congr fun set member => (tracked set member).map_change_updateTransfers.symm
  have deletes : graph.sets.flatMap (fun set => Batch.parentsFirst set.definition set.changes.deletes) =
      graph.sets.flatMap fun set => set.deleteTransfers.map Transfer.change :=
    List.flatMap_congr fun set member => (tracked set member).map_change_deleteTransfers.symm
  rw [h.pendingChanges_eq_assemble]
  simp only [Batch.assemble, transfers, List.map_append, List.map_reverse, List.map_flatMap,
    List.flatMap_map, inserts, updates]
  rw [← deletes, List.reverse_flatMap, ← List.map_reverse, List.flatMap_map]
  rfl

theorem Sound.mem_transfers_of_listed (h : graph.Sound) (found : graph.entities[name]? = some set)
    (listed : transfer ∈ set.insertTransfers ∨ transfer ∈ set.updateTransfers ∨ transfer ∈ set.deleteTransfers) :
    transfer ∈ graph.transfers := by
  have member := h.mem_sets_of_found found
  simp only [transfers, List.mem_append, List.mem_reverse, List.mem_flatMap, or_assoc]
  rcases listed with listed | listed | listed
  · exact .inl ⟨set, member, listed⟩
  · exact .inr (.inl ⟨set, member, listed⟩)
  · exact .inr (.inr ⟨set, member, listed⟩)

theorem Sound.mem_transfers (h : graph.Sound) : transfer ∈ graph.transfers ↔
    ∃ set, graph.entities[transfer.entity]? = some set ∧
      (transfer ∈ set.insertTransfers ∨ transfer ∈ set.updateTransfers ∨ transfer ∈ set.deleteTransfers) := by
  refine ⟨fun member => ?_, fun ⟨set, found, listed⟩ => h.mem_transfers_of_listed found listed⟩
  obtain ⟨set, owner, listed⟩ : ∃ set ∈ graph.sets,
      transfer ∈ set.insertTransfers ∨ transfer ∈ set.updateTransfers ∨ transfer ∈ set.deleteTransfers := by
    simp only [transfers, List.mem_append, List.mem_reverse, List.mem_flatMap, or_assoc] at member
    rcases member with ⟨set, owner, listed⟩ | ⟨set, owner, listed⟩ | ⟨set, owner, listed⟩
    · exact ⟨set, owner, .inl listed⟩
    · exact ⟨set, owner, .inr (.inl listed)⟩
    · exact ⟨set, owner, .inr (.inr listed)⟩
  have found := h.mem_sets.1 owner
  have same := (h.tracked found).definition_of_mem (EntitySet.mem_transfers.2 listed)
  exact ⟨set, by rwa [Transfer.entity, same], listed⟩

theorem Sound.mem_transfers_of (h : graph.Sound) (found : graph.entities[name]? = some set)
    (named : transfer.definition.name.text = name) : transfer ∈ graph.transfers ↔
      transfer ∈ set.insertTransfers ∨ transfer ∈ set.updateTransfers ∨ transfer ∈ set.deleteTransfers := by
  rw [h.mem_transfers, Transfer.entity, named, found]
  simp

/-- The transfers by what they do to the rows of their entity. -/
theorem Sound.transfers_cases (h : graph.Sound) (member : transfer ∈ graph.transfers) :
    ∃ set, graph.entities[transfer.entity]? = some set ∧ set.Tracked ∧
      ((∃ key slot, set.rows[key]? = some slot ∧ slot.baseline = none ∧
        transfer = .insert set.definition key slot.row.columns) ∨
      (∃ key slot source baseline, set.rows[key]? = some slot ∧ slot.baseline = some baseline ∧
        baseline ≠ slot.row.columns ∧ set.definition.Stores source baseline ∧
        transfer = .update set.definition source baseline key slot.row.columns) ∨
      ∃ key columns, set.removed[key]? = some columns ∧ transfer = .delete set.definition key columns) := by
  obtain ⟨set, found, listed⟩ := h.mem_transfers.1 member
  have tracked := h.tracked found
  rw [tracked.mem_insertTransfers, tracked.mem_updateTransfers, tracked.mem_deleteTransfers] at listed
  exact ⟨set, found, tracked, listed⟩

theorem Sound.transfers_legal (h : graph.Sound) (member : transfer ∈ graph.transfers) :
    transfer.Legal graph.catalog := by
  obtain ⟨set, found, tracked, listed⟩ := h.transfers_cases member
  have registered := h.definition found
  rcases listed with ⟨key, slot, hs, -, rfl⟩ | ⟨key, slot, source, baseline, hs, -, -, stores, rfl⟩ |
    ⟨key, columns, hs, rfl⟩
  · refine ⟨registered, fun {_ _} taken => ?_, fun {_ _} left => ?_⟩
    · cases taken
    · cases left
      exact tracked.row hs
  · refine ⟨registered, fun {_ _} taken => ?_, fun {_ _} left => ?_⟩
    · cases taken
      exact stores
    · cases left
      exact tracked.row hs
  · refine ⟨registered, fun {_ _} taken => ?_, fun {_ _} left => ?_⟩
    · cases taken
      exact tracked.removed hs
    · cases left

section Pairwise
variable {R : Transfer → Transfer → Prop} {part part' : EntitySet → List Transfer}

theorem Sound.entity_of_part (h : graph.Sound) (listed : ∀ set, part set ⊆ set.transfers) (owner : set ∈ graph.sets)
    (member : transfer ∈ part set) : transfer.entity = set.definition.name.text := by
  rw [Transfer.entity, (h.tracked (h.mem_sets.1 owner)).definition_of_mem (listed set member)]

/-- What does not concern transfers of different entities is settled within each entity. -/
theorem Sound.flatMap_forall (h : graph.Sound) (listed : ∀ set, part set ⊆ set.transfers)
    (listed' : ∀ set, part' set ⊆ set.transfers)
    (foreign : ∀ early late : Transfer, early.entity ≠ late.entity → R early late)
    (own : ∀ set ∈ graph.sets, ∀ early ∈ part set, ∀ late ∈ part' set, R early late) :
    ∀ early ∈ graph.sets.flatMap part, ∀ late ∈ graph.sets.flatMap part', R early late := by
  intro early he late hl
  obtain ⟨set, hs, he⟩ := List.mem_flatMap.1 he
  obtain ⟨other, ho, hl⟩ := List.mem_flatMap.1 hl
  by_cases same : early.entity = late.entity
  · rw [h.entity_of_part listed hs he, h.entity_of_part listed' ho hl] at same
    have found := h.mem_sets.1 hs
    rw [same, h.mem_sets.1 ho] at found
    cases found
    exact own set hs early he late hl
  · exact foreign early late same

theorem Sound.flatMap_pairwise (h : graph.Sound) (listed : ∀ set, part set ⊆ set.transfers)
    (foreign : ∀ early late : Transfer, early.entity ≠ late.entity → R early late)
    (own : ∀ set ∈ graph.sets, (part set).Pairwise R) : (graph.sets.flatMap part).Pairwise R := by
  refine List.pairwise_flatMap.2 ⟨own, h.sets_distinct.imp_of_mem fun {set other} hs ho differ => ?_⟩
  intro early he late hl
  refine foreign early late ?_
  rwa [h.entity_of_part listed hs he, h.entity_of_part listed ho hl]

/-- An order of transfers that does not concern different entities holds of a whole save if it does of
each entity. -/
theorem Sound.transfers_pairwise (h : graph.Sound)
    (foreign : ∀ early late : Transfer, early.entity ≠ late.entity → R early late)
    (own : ∀ set ∈ graph.sets, set.transfers.Pairwise R) : graph.transfers.Pairwise R := by
  have inserting : ∀ set : EntitySet, set.insertTransfers ⊆ set.transfers :=
    fun set _ member => EntitySet.mem_transfers.2 (.inl member)
  have updating : ∀ set : EntitySet, set.updateTransfers ⊆ set.transfers :=
    fun set _ member => EntitySet.mem_transfers.2 (.inr (.inl member))
  have deleting : ∀ set : EntitySet, set.deleteTransfers ⊆ set.transfers :=
    fun set _ member => EntitySet.mem_transfers.2 (.inr (.inr member))
  simp only [EntitySet.transfers, List.pairwise_append, List.pairwise_reverse, List.mem_append, List.mem_reverse]
    at own
  rw [transfers, List.append_assoc, List.pairwise_append, List.pairwise_append, List.pairwise_reverse]
  refine ⟨?_, ⟨?_, ?_, ?_⟩, ?_⟩
  · exact h.flatMap_pairwise inserting foreign fun set member => (own set member).1
  · exact h.flatMap_pairwise updating foreign fun set member => (own set member).2.1.1
  · exact h.flatMap_pairwise deleting (fun early late differ => foreign late early (Ne.symm differ))
      fun set member => (own set member).2.1.2.1
  · intro early he late hl
    rw [List.mem_reverse] at hl
    exact h.flatMap_forall updating deleting foreign (fun set member => (own set member).2.1.2.2) early he late hl
  · intro early he late hl
    rcases List.mem_append.1 hl with hl | hl
    · exact h.flatMap_forall inserting updating foreign
        (fun set member early he late hl => (own set member).2.2 early he late (.inl hl)) early he late hl
    · rw [List.mem_reverse] at hl
      exact h.flatMap_forall inserting deleting foreign
        (fun set member early he late hl => (own set member).2.2 early he late (.inr hl)) early he late hl

end Pairwise

theorem Sound.transfers_apart (h : graph.Sound)
    (distinct : ∀ {name : String} {set : EntitySet}, graph.entities[name]? = some set → set.Distinct) :
    graph.transfers.Pairwise Transfer.Apart := by
  refine h.transfers_pairwise (fun early late differ entity key leaves leaves' => ?_) fun set member => ?_
  · exact differ (leaves.1.trans leaves'.1.symm)
  · have found := h.mem_sets.1 member
    exact (h.tracked found).transfers_apart (distinct found)

/-- The tables of a backend hold what a graph takes for persisted. -/
structure InStep (graph : Graph) (backend : MemoryBackend) : Prop where
  distinct : ∀ {name : String} {set : EntitySet}, graph.entities[name]? = some set → set.Distinct
  table : ∀ {name : String} {set : EntitySet}, graph.entities[name]? = some set →
    ∀ {key : Key} {columns : Columns}, backend.row? name key = some columns ↔ set.Persisted key columns

/-- A graph and a backend are in step if and only if each table lists just what was persisted. -/
theorem inStep_iff : graph.InStep backend ↔ ∀ owner ∈ graph.entities.toList,
    owner.2.persistedRows.Perm (backend.tables.of owner.1).toList := by
  simp only [Prod.forall, Std.ExtTreeMap.mem_toList_iff_getElem?_eq_some]
  constructor
  · intro inStep name set found
    have once := (EntitySet.distinct_iff_nodup.1 (inStep.distinct found)).of_map
    have listed : ((backend.tables.of name).toList.map Prod.fst).Nodup := by
      rw [Std.ExtTreeMap.map_fst_toList_eq_keys]
      exact Std.ExtTreeMap.nodup_keys
    refine (List.perm_ext_iff_of_nodup once listed.of_map).2 fun ⟨key, columns⟩ => ?_
    rw [EntitySet.mem_persistedRows, Std.ExtTreeMap.mem_toList_iff_getElem?_eq_some]
    exact (inStep.table found).symm
  · intro tables
    refine ⟨fun {name set} found => ?_, fun {name set} found {key columns} => ?_⟩
    · rw [EntitySet.distinct_iff_nodup, ((tables name set found).map _).nodup_iff,
        Std.ExtTreeMap.map_fst_toList_eq_keys]
      exact Std.ExtTreeMap.nodup_keys
    · rw [← EntitySet.mem_persistedRows, (tables name set found).mem_iff,
        Std.ExtTreeMap.mem_toList_iff_getElem?_eq_some]
      rfl

instance : Decidable (graph.InStep backend) := decidable_of_iff _ inStep_iff.symm

/-- Rows that a save leaves alone: those that are as persisted, and those of tables that the graph does
not know. -/
def Resting (graph : Graph) (tables : Tables) (entity : String) (key : Key) (columns : Columns) : Prop :=
  match graph.entities[entity]? with
  | some set => ∃ slot, set.rows[key]? = some slot ∧ slot.baseline = some columns ∧ slot.row.columns = columns
  | none => tables.row? entity key = some columns

theorem Sound.owner (h : graph.Sound) (member : transfer ∈ graph.transfers) :
    ∃ set, graph.entities[transfer.entity]? = some set := by
  obtain ⟨set, found, -⟩ := h.mem_transfers.1 member
  exact ⟨set, found⟩

/-- What was persisted is at rest or is taken away by a transfer. -/
theorem Sound.persisted_iff (h : graph.Sound) (found : graph.entities[name]? = some set) {key : Key}
    {columns : Columns} : set.Persisted key columns ↔
      (∃ transfer ∈ graph.transfers, transfer.Takes name key columns) ∨
        ∃ slot, set.rows[key]? = some slot ∧ slot.baseline = some columns ∧ slot.row.columns = columns := by
  have tracked := h.tracked found
  constructor
  · rintro (⟨place, slot, hs, hb, isKey⟩ | removed)
    · obtain ⟨source, stores⟩ := tracked.baseline hs hb
      cases isKey.symm.trans stores.2
      by_cases changed : columns = slot.row.columns
      · have atPlace := (tracked.row hs).2
        rw [← changed, stores.2] at atPlace
        cases atPlace
        exact .inr ⟨slot, hs, hb, changed.symm⟩
      · refine .inl ⟨.update set.definition key columns place slot.row.columns, ?_, h.name_eq found, rfl⟩
        refine h.mem_transfers_of_listed found (.inr (.inl (tracked.mem_updateTransfers.2 ?_)))
        exact ⟨place, slot, key, columns, hs, hb, changed, stores, rfl⟩
    · refine .inl ⟨.delete set.definition key columns, ?_, h.name_eq found, rfl⟩
      exact h.mem_transfers_of_listed found (.inr (.inr (tracked.mem_deleteTransfers.2 ⟨key, columns, removed, rfl⟩)))
  · rintro (⟨transfer, member, named, taken⟩ | ⟨slot, hs, hb, same⟩)
    · rcases (h.mem_transfers_of found named).1 member with member | member | member
      · obtain ⟨_, _, _, _, rfl⟩ := tracked.mem_insertTransfers.1 member
        cases taken
      · obtain ⟨place, slot, source, baseline, hs, hb, -, stores, rfl⟩ := tracked.mem_updateTransfers.1 member
        cases taken
        exact .inl ⟨place, slot, hs, hb, stores.2⟩
      · obtain ⟨place, baseline, removed, rfl⟩ := tracked.mem_deleteTransfers.1 member
        cases taken
        exact .inr removed
    · exact .inl ⟨key, slot, hs, hb, same ▸ (tracked.row hs).2⟩

/-- A row of the graph is at rest or is left behind by a transfer. -/
theorem Sound.row_iff (h : graph.Sound) (found : graph.entities[name]? = some set) {key : Key}
    {columns : Columns} :
    (set.get? key).map Row.columns = some columns ↔
      (∃ transfer ∈ graph.transfers, transfer.Puts name key columns) ∨
        ∃ slot, set.rows[key]? = some slot ∧ slot.baseline = some columns ∧ slot.row.columns = columns := by
  have tracked := h.tracked found
  simp only [Option.map_eq_some_iff, EntitySet.get?_eq_some_iff]
  constructor
  · rintro ⟨row, ⟨slot, hs, rfl⟩, rfl⟩
    cases hb : slot.baseline with
    | none =>
      refine .inl ⟨.insert set.definition key slot.row.columns, ?_, h.name_eq found, rfl⟩
      exact h.mem_transfers_of_listed found (.inl (tracked.mem_insertTransfers.2 ⟨key, slot, hs, hb, rfl⟩))
    | some baseline =>
      obtain ⟨source, stores⟩ := tracked.baseline hs hb
      by_cases changed : baseline = slot.row.columns
      · exact .inr ⟨slot, hs, changed ▸ hb, rfl⟩
      · refine .inl ⟨.update set.definition source baseline key slot.row.columns, ?_, h.name_eq found, rfl⟩
        refine h.mem_transfers_of_listed found (.inr (.inl (tracked.mem_updateTransfers.2 ?_)))
        exact ⟨key, slot, source, baseline, hs, hb, changed, stores, rfl⟩
  · rintro (⟨transfer, member, named, left⟩ | ⟨slot, hs, -, rfl⟩)
    · rcases (h.mem_transfers_of found named).1 member with member | member | member
      · obtain ⟨place, slot, hs, -, rfl⟩ := tracked.mem_insertTransfers.1 member
        cases left
        exact ⟨slot.row, ⟨slot, hs, rfl⟩, rfl⟩
      · obtain ⟨place, slot, _, _, hs, -, -, -, rfl⟩ := tracked.mem_updateTransfers.1 member
        cases left
        exact ⟨slot.row, ⟨slot, hs, rfl⟩, rfl⟩
      · obtain ⟨place, baseline, removed, rfl⟩ := tracked.mem_deleteTransfers.1 member
        cases left
    · exact ⟨slot.row, ⟨slot, hs, rfl⟩, rfl⟩

theorem Sound.carried (h : graph.Sound) (inStep : graph.InStep backend) :
    Transfer.Carried (graph.Resting backend.tables) [] graph.transfers backend.tables := by
  constructor
  · intro entity key columns
    simp only [List.not_mem_nil, false_and, exists_false, false_or, Resting]
    cases found : graph.entities[entity]? with
    | some set => exact (inStep.table found).trans (h.persisted_iff found)
    | none =>
      refine ⟨.inr, ?_⟩
      rintro (⟨transfer, member, named, -⟩ | held)
      · obtain ⟨set, owner⟩ := h.owner member
        rw [named, found] at owner
        cases owner
      · exact held
  · simp
  · intro entity key columns transfer member rests leaves
    obtain ⟨set, found, listed⟩ := h.mem_transfers.1 member
    have tracked := h.tracked found
    have distinct := inStep.distinct found
    rw [leaves.1] at found
    simp only [Resting, found] at rests
    obtain ⟨slot, hs, hb, rfl⟩ := rests
    have persisted : set.persistedKey? slot = some key :=
      EntitySet.persistedKey?_eq_some_iff.2 ⟨_, hb, (tracked.row hs).2⟩
    rcases listed with listed | listed | listed
    · exact tracked.not_leaves_of_insert listed leaves
    · obtain ⟨-, place, slot', hs', persisted', changed, -⟩ := tracked.leaves_of_update listed leaves
      cases distinct.rows hs hs' persisted persisted'
      cases hs.symm.trans hs'
      exact changed hb
    · obtain ⟨-, columns, removed, -⟩ := tracked.leaves_of_delete listed leaves
      rw [distinct.removed hs persisted] at removed
      cases removed
  · exact h.transfers_apart inStep.distinct

theorem isDirty_eq_false_iff : graph.isDirty = false ↔
    graph.commands = [] ∧
      ∀ {name : String} {set : EntitySet}, graph.entities[name]? = some set → set.isDirty = false := by
  simp only [isDirty, Bool.or_eq_false_iff, Bool.not_eq_false', List.isEmpty_iff, List.any_eq_false, values_eq,
    List.mem_map, Prod.exists, exists_eq_right, Std.ExtTreeMap.mem_toList_iff_getElem?_eq_some,
    Bool.not_eq_true, forall_exists_index]
  exact and_congr_right fun _ => ⟨fun h {name set} => h set name, fun h set name => h⟩

theorem Sound.transfers_eq_nil_iff (h : graph.Sound) : graph.transfers = [] ↔
    ∀ {name : String} {set : EntitySet}, graph.entities[name]? = some set → set.isDirty = false := by
  rw [List.eq_nil_iff_forall_not_mem]
  constructor
  · intro none name set found
    have tracked := h.tracked found
    have unlisted := fun transfer listed => none transfer (h.mem_transfers_of_listed found listed)
    refine EntitySet.isDirty_eq_false_iff.2 ⟨?_, ?_, ?_⟩
    · refine Std.ExtTreeSet.eq_empty_iff_forall_not_mem.2 fun key marked => ?_
      obtain ⟨slot, hs, hb⟩ := tracked.inserted.1 marked
      exact unlisted _ (.inl (tracked.mem_insertTransfers.2 ⟨key, slot, hs, hb, rfl⟩))
    · refine Std.ExtTreeSet.eq_empty_iff_forall_not_mem.2 fun key marked => ?_
      obtain ⟨slot, baseline, hs, hb, changed⟩ := tracked.updated.1 marked
      obtain ⟨source, stores⟩ := tracked.baseline hs hb
      exact unlisted _ (.inr (.inl (tracked.mem_updateTransfers.2
        ⟨key, slot, source, baseline, hs, hb, changed, stores, rfl⟩)))
    · refine Std.ExtTreeMap.eq_empty_iff_forall_not_mem.2 fun key marked => ?_
      obtain ⟨columns, removed⟩ := mem_iff_exists_getElem?.1 marked
      exact unlisted _ (.inr (.inr (tracked.mem_deleteTransfers.2 ⟨key, columns, removed, rfl⟩)))
  · intro clean transfer member
    obtain ⟨set, found, tracked, listed⟩ := h.transfers_cases member
    have settled : ∀ {key : Key} {slot : Slot}, set.rows[key]? = some slot → slot.baseline = some slot.row.columns :=
      tracked.slot_of_clean (clean found)
    rcases listed with ⟨key, slot, hs, fresh, -⟩ | ⟨key, slot, _, baseline, hs, hb, changed, -, -⟩ |
      ⟨key, columns, removed, -⟩
    · rw [settled hs] at fresh
      cases fresh
    · rw [settled hs, Option.some.injEq] at hb
      exact changed hb.symm
    · simp [(EntitySet.isDirty_eq_false_iff.1 (clean found)).2.2] at removed

/-- There is something to save just while the graph is dirty. -/
theorem Sound.pendingChanges_eq_nil_iff
    (h : graph.Sound) : graph.pendingChanges = [] ↔ graph.isDirty = false := by
  rw [h.pendingChanges_eq, List.append_eq_nil_iff, List.map_eq_nil_iff, h.transfers_eq_nil_iff,
    isDirty_eq_false_iff, and_comm]

theorem dropChanges_isDirty : graph.dropChanges.isDirty = false := by
  refine isDirty_eq_false_iff.2 ⟨rfl, fun {name set} found => ?_⟩
  rw [dropChanges_entities, Option.map_eq_some_iff] at found
  obtain ⟨set, -, rfl⟩ := found
  exact EntitySet.acceptChanges_isDirty

theorem dropChanges_of_clean (clean : graph.isDirty = false) : graph.dropChanges = graph := by
  obtain ⟨idle, settled⟩ := isDirty_eq_false_iff.1 clean
  have same : graph.entities.map (fun _ set => set.acceptChanges) = graph.entities := by
    apply Std.ExtTreeMap.ext_getElem?
    intro name
    rw [Std.ExtTreeMap.getElem?_map]
    cases found : graph.entities[name]? with
    | none => rfl
    | some set => rw [Option.map_some, EntitySet.acceptChanges_of_clean (settled found)]
  unfold dropChanges
  rw [same, ← idle]

/-- A successful save applies the pending changes to the tables and drops them. -/
theorem Sound.save_eq_ok (h : graph.Sound) {affected : Nat} {after : Graph} {backend' : MemoryBackend}
    (ok : graph.save backend = (.ok affected, after, backend')) :
    after = graph.dropChanges ∧
      backend.applyAll backend.tables graph.pendingChanges = (.ok affected, backend'.tables) := by
  simp only [save] at ok
  split at ok
  · next none =>
    cases ok
    rw [List.isEmpty_iff] at none
    rw [dropChanges_of_clean (h.pendingChanges_eq_nil_iff.1 none), none]
    exact ⟨rfl, rfl⟩
  · split at ok
    · cases ok
    · split at ok
      · cases ok
      · next submitted =>
        cases ok
        refine ⟨rfl, ?_⟩
        simp only [Backend.submit, MemoryBackend.submit] at submitted
        split at submitted
        · cases submitted
        · split at submitted
          · cases submitted
          · next applied =>
            cases submitted
            exact applied

/-- A graph that starts in step with a memory backend and saves to it: the tables become the rows of the
graph, nothing is left to save, and the two are in step again. -/
theorem Reachable.save_refines {catalog : Catalog} {config : GraphConfig}
    (reachable : Reachable catalog config graph)
    (registered : backend.catalog = catalog) (inStep : graph.InStep backend) (idle : graph.commands = [])
    {affected : Nat} {after : Graph} {backend' : MemoryBackend}
    (ok : graph.save backend = (.ok affected, after, backend')) :
    (∀ {name : String} {set : EntitySet}, graph.entities[name]? = some set → ∀ key : Key,
      backend'.row? name key = (set.get? key).map Row.columns ∧
        after.entities[name]?.bind (fun saved => saved.get? key) = set.get? key) ∧
    affected = graph.pendingChanges.length ∧ after.pendingChanges = [] ∧ after.isDirty = false ∧
      after.InStep backend' := by
  have sound := reachable.sound
  have changes := sound.pendingChanges_eq
  rw [idle, List.append_nil] at changes
  obtain ⟨rfl, applied⟩ := sound.save_eq_ok ok
  have sound' := (Event.dropChanges : Event False graph _).sound sound
  rw [changes] at applied
  obtain ⟨counted, carried⟩ := (sound.carried inStep).applyAll (fun transfer member => by
    rw [registered, ← reachable.catalog_eq]
    exact sound.transfers_legal member) applied
  have saved : ∀ {name : String} {set : EntitySet}, graph.entities[name]? = some set →
      ∀ key : Key, backend'.row? name key = (set.get? key).map Row.columns := by
    intro name set found key
    refine Option.ext fun columns => ?_
    rw [sound.row_iff found, MemoryBackend.row?, carried.row]
    simp [Resting, found]
  refine ⟨fun {name set} found key => ⟨saved found key, ?_⟩, ?_, ?_, dropChanges_isDirty, ?_, ?_⟩
  · rw [dropChanges_entities, found]
    exact EntitySet.get?_acceptChanges
  · rw [counted, changes, List.length_map]
  · exact sound'.pendingChanges_eq_nil_iff.2 dropChanges_isDirty
  · intro name set found
    exact (sound'.tracked found).distinct_of_clean ((isDirty_eq_false_iff.1 dropChanges_isDirty).2 found)
  · intro name set found key columns
    have clean := (isDirty_eq_false_iff.1 dropChanges_isDirty).2 found
    rw [(sound'.tracked found).persisted_iff_of_clean clean]
    rw [dropChanges_entities, Option.map_eq_some_iff] at found
    obtain ⟨set, found, rfl⟩ := found
    rw [saved found, EntitySet.get?_acceptChanges]

end Graph

namespace Forest

/-- A backend with four nodes, the third below the fourth. -/
def copse : MemoryBackend :=
  ((MemoryBackend.empty catalog true).seed "node"
    [columns 1 .null, columns 2 .null, columns 3 (.integer 4), columns 4 .null]).2

/-- Two nodes were added, the fifth below the sixth, the second node was put below the fifth, and the third
and the fourth were removed. -/
def thinned : Graph :=
  let surveyed := (bare.query copse "node" ∅ 0).2
  let sown := ((surveyed.insert ⟨node, 5, columns 5 .null⟩ 0).2.insert ⟨node, 6, columns 6 .null⟩ 0).2
  let grafted := ((sown.set "node" (.integer 5) "parent" (.integer 6)).2.set "node" (.integer 2) "parent"
    (.integer 5)).2
  ((grafted.remove "node" (.integer 3)).2.remove "node" (.integer 4)).2

/-- The first node has left its key as well. -/
def moved : Graph := (thinned.set "node" (.integer 1) "id" (.integer 7)).2

theorem thinned_reachable : Graph.Reachable catalog {} thinned := by
  have surveyed : Graph.Reachable catalog {} _ := .step bare_reachable (.query copse "node" ∅ 0)
  have sown : Graph.Reachable catalog {} _ := .step surveyed (.insert 0 (node_built surveyed 5 5))
  have sown' : Graph.Reachable catalog {} _ := .step sown (.insert 0 (node_built sown 6 6))
  exact .step (.step (.step (.step sown' (.set ..)) (.set ..)) (.remove ..)) (.remove ..)

theorem moved_reachable : Graph.Reachable catalog {} moved := .step thinned_reachable (.set ..)

/-- What a save of the moved node and of the others submits. -/
def movedBatch : List Change :=
  [.insert nodeName (columns 6 .null), .insert nodeName (columns 5 (.integer 6)),
    .update nodeName (.ofList [("id", Value.integer 2)]) (.ofList [("parent", Value.integer 5)]),
    .update nodeName (.ofList [("id", Value.integer 1)]) (.ofList [("id", Value.integer 7)]),
    .delete nodeName (.ofList [("id", Value.integer 3)]), .delete nodeName (.ofList [("id", Value.integer 4)])]

theorem moved_run : moved.InStep copse ∧ moved.commands = [] ∧ moved.pendingChanges = movedBatch ∧
    (moved.save copse).1 = .ok 6 := by
  decide +kernel

theorem moved_save_refines : ∃ set after backend, moved.entities["node"]? = some set ∧
    moved.pendingChanges = movedBatch ∧ moved.save copse = (.ok 6, after, backend) ∧
      (∀ key, backend.row? "node" key = (set.get? key).map Row.columns) ∧ after.pendingChanges = [] ∧
        after.InStep backend := by
  obtain ⟨inStep, idle, batch, saved⟩ := moved_run
  have ok : moved.save copse = (.ok 6, _, _) := Prod.ext saved rfl
  obtain ⟨set, found, -⟩ := node_found moved_reachable
  obtain ⟨rows, -, settled, -, inStep'⟩ := Graph.Reachable.save_refines moved_reachable rfl inStep idle ok
  exact ⟨set, _, _, found, batch, ok, fun key => (rows found key).1, settled, inStep'⟩

end Forest
end EntityGraph
