import EntityGraph.Proofs.Distinctness
import EntityGraph.Proofs.OwnChanges
import EntityGraph.Proofs.References

/-! # Collisions

A save writes the rows of an entity in a fixed order: new rows, changed rows by their keys, removed rows.
A row that has come to a key collides with the row that was persisted under the key when that one leaves
later. The edits of a graph keep a row from a key whose removal waits, but not from a key that another
row has left, so that a save may be refused for a duplicate key, though only after such a collision. -/
namespace EntityGraph

namespace MemoryBackend
variable {backend : MemoryBackend} {tables : Tables} {definition : Definition} {key : Key} {columns : Columns}
  {entity shown : String}

theorem ofRow_ne_duplicateKey {error : RowError} : BackendError.ofRow error ≠ .duplicateKey entity shown := by
  cases error <;> simp [BackendError.ofRow]

theorem checkReferences_ne_duplicateKey :
    backend.checkReferences tables definition key columns ≠ .error (.duplicateKey entity shown) := by
  intro refused
  obtain ⟨-, _, -, _, -, -, same⟩ := checkReferences_eq_error refused
  cases same

theorem checkUnreferenced_ne_duplicateKey :
    backend.checkUnreferenced tables definition key ≠ .error (.duplicateKey entity shown) := by
  intro refused
  obtain ⟨-, _, -, _, _, -, -, -, same⟩ := checkUnreferenced_eq_error refused
  cases same

theorem overwrite_ne_duplicateKey {entries : List (String × Value)} :
    overwrite definition columns entries ≠ .error (.duplicateKey entity shown) := by
  induction entries generalizing columns with
  | nil => simp [overwrite]
  | cons entry entries ih =>
    obtain ⟨field, value⟩ := entry
    intro refused
    rcases bind_eq_error_iff.1 refused with refused | ⟨written, -, refused⟩
    · obtain ⟨error, -, same⟩ := mapError_eq_error_iff.1 refused
      exact ofRow_ne_duplicateKey same
    · split_ifs at refused
      · cases refused
      · exact ih refused

theorem checkMove_eq_duplicateKey {source target : Key}
    (refused : backend.checkMove tables definition source target = .error (.duplicateKey entity shown)) :
    definition.name.text = entity ∧ target ≠ source ∧ tables.holds entity target = true ∧
      shown = target.display := by
  rcases checkMove_eq_error refused with ⟨moves, held, same⟩ | refused
  · cases same
    exact ⟨rfl, moves, held, rfl⟩
  · exact absurd refused checkUnreferenced_ne_duplicateKey

/-- A batch that is refused for its data was run. -/
theorem submit_eq_conflict {changes : List Change} {error : BackendError} {after : MemoryBackend}
    (refused : backend.submit changes = (.error error, after)) (conflict : error.isConflict = true) :
    (backend.applyAll backend.tables changes).1 = .error error := by
  refine (submit_eq_error (by rw [refused])).resolve_left fun offline => ?_
  unfold checkAvailable at offline
  split_ifs at offline
  cases offline
  cases conflict

end MemoryBackend

namespace Change
variable {catalog : Catalog} {definition : Definition} {change : Change} {error : BackendError}

theorem validateData_ne_saveConflict : validateData definition change ≠ .error (.saveConflict error) := by
  intro refused
  rcases validateData_eq_error refused with same | ⟨_, same⟩ <;> cases same

theorem validate_ne_saveConflict : change.validate catalog ≠ .error (.saveConflict error) := by
  intro refused
  unfold validate at refused
  split at refused
  · cases refused
  · split at refused
    · split at refused <;> cases refused
    · exact validateData_ne_saveConflict refused

/-- The check of a batch reports no conflict of a backend. -/
theorem validateAll_ne_saveConflict {changes : List Change} :
    validateAll catalog changes ≠ .error (.saveConflict error) := by
  induction changes with
  | nil => simp [validateAll]
  | cons change changes ih =>
    intro refused
    rcases bind_eq_error_iff.1 refused with fails | ⟨_, -, fails⟩
    · exact validate_ne_saveConflict fails
    · exact ih fails

end Change

namespace Transfer
variable {transfer : Transfer} {backend : MemoryBackend} {tables : Tables} {definition : Definition} {key : Key}
  {columns : Columns} {entity shown : String}

theorem insertRow_eq_duplicateKey (stores : definition.Stores key columns)
    (refused : (backend.insertRow tables definition columns).1 = .error (.duplicateKey entity shown)) :
    definition.name.text = entity ∧ tables.holds entity key = true ∧ shown = key.display := by
  simp only [MemoryBackend.insertRow, newRow_eq stores] at refused
  cases complete : (⟨definition, 0, columns⟩ : Row).checkRequired with
  | error e =>
    simp only [complete, Except.mapError, Except.map, Except.error.injEq] at refused
    exact absurd refused MemoryBackend.ofRow_ne_duplicateKey
  | ok =>
    simp only [complete, Except.mapError, Except.map] at refused
    split_ifs at refused with held
    · obtain ⟨rfl, rfl⟩ := BackendError.duplicateKey.inj (Except.error.inj refused)
      exact ⟨rfl, held, rfl⟩
    · exact absurd (map_eq_error_iff.1 refused) MemoryBackend.checkReferences_ne_duplicateKey

theorem updatedRow_eq_duplicateKey {source : Key} {baseline : Columns} (persisted : definition.Stores source baseline)
    (stores : definition.Stores key columns)
    (refused : backend.updatedRow tables definition source baseline
      (EntitySet.changedColumns columns baseline) = .error (.duplicateKey entity shown)) :
    definition.name.text = entity ∧ key ≠ source ∧ tables.holds entity key = true ∧ shown = key.display := by
  rcases bind_eq_error_iff.1 refused with fails | ⟨written, overwritten, fails⟩
  · exact absurd fails MemoryBackend.overwrite_ne_duplicateKey
  · have same := ((overwrite_changedColumns stores.1 persisted.1).1 overwritten).2
    have keyed := MemoryBackend.keyOf_eq_ok_iff.2 (same ▸ stores.2)
    rcases bind_eq_error_iff.1 fails with fails | ⟨target, held, fails⟩
    · cases keyed.symm.trans fails
    · cases keyed.symm.trans held
      rcases bind_eq_error_iff.1 fails with fails | ⟨_, -, fails⟩
      · exact MemoryBackend.checkMove_eq_duplicateKey fails
      · cases fails

/-- A transfer that is refused for a duplicate key comes from elsewhere to a key that is held. -/
theorem apply_eq_duplicateKey (legal : transfer.Legal backend.catalog)
    (present : ∀ {key : Key} {columns : Columns}, transfer.source = some (key, columns) →
      tables.row? transfer.entity key = some columns)
    (refused : (backend.apply tables transfer.change).1 = .error (.duplicateKey entity shown)) :
    ∃ key, transfer.Reaches entity key ∧ ¬transfer.Leaves entity key ∧ tables.holds entity key = true ∧
      shown = key.display := by
  have registered := MemoryBackend.definition_eq_ok_iff.2 legal.registered
  cases transfer with
  | insert definition key columns =>
    change backend.definition definition.name.text = .ok definition at registered
    simp only [MemoryBackend.apply, Transfer.change, registered] at refused
    obtain ⟨named, held, shows⟩ := insertRow_eq_duplicateKey (legal.target rfl) refused
    refine ⟨key, ⟨named, rfl⟩, fun leaves => ?_, held, shows⟩
    cases leaves.2
  | update definition source baseline key columns =>
    have persisted : definition.Stores source baseline := legal.source rfl
    have here : tables.row? definition.name.text source = some baseline := present rfl
    change backend.definition definition.name.text = .ok definition at registered
    simp only [MemoryBackend.apply, Transfer.change, registered, MemoryBackend.updateRow, persisted.keyField,
      Option.getD_some, MemoryBackend.keyOf_singleton, here] at refused
    split at refused
    · next updated =>
      cases refused
      obtain ⟨named, moved, held, shows⟩ := updatedRow_eq_duplicateKey persisted (legal.target rfl) updated
      refine ⟨key, ⟨named, rfl⟩, fun leaves => moved ?_, held, shows⟩
      exact (Option.some.inj leaves.2).symm
    · exact absurd (map_eq_error_iff.1 refused) MemoryBackend.checkReferences_ne_duplicateKey
  | delete definition key baseline =>
    change backend.definition definition.name.text = .ok definition at registered
    simp only [MemoryBackend.apply, Transfer.change, registered, MemoryBackend.deleteRow,
      MemoryBackend.keyOf_singleton] at refused
    split_ifs at refused
    split at refused
    · next unreferenced =>
      cases refused
      exact absurd unreferenced MemoryBackend.checkUnreferenced_ne_duplicateKey
    · cases refused

/-- The order of transfers within an entity: inserts under different keys, updates by the keys of their
rows, deletes. -/
def Precedes (early late : Transfer) : Prop :=
  early.entity = late.entity →
    match early, late with
    | insert _ key _, insert _ place _ => key ≠ place
    | insert _ _ _, _ => True
    | update _ _ _ key _, update _ _ _ place _ => compare key place = .lt
    | update _ _ _ _ _, delete _ _ _ => True
    | delete _ _ _, delete _ _ _ => True
    | _, _ => False

/-- A transfer that brings a row does not come both before and after one that takes a row away. -/
theorem Precedes.not_precedes {early late : Transfer} (h : early.Precedes late) (same : early.entity = late.entity)
    (brings : early.target ≠ none) (takes : late.source ≠ none) : ¬late.Precedes early := by
  intro back
  have before := h same
  have after := back same.symm
  cases early with
  | insert definition key columns =>
    cases late with
    | insert => exact takes rfl
    | update | delete => exact after
  | update definition source baseline key columns =>
    cases late with
    | insert => exact takes rfl
    | update other source' baseline' place columns' =>
      dsimp only at before after
      rw [Std.OrientedOrd.eq_swap, after] at before
      cases before
    | delete => exact after
  | delete => exact brings rfl

end Transfer

namespace EntitySet
variable {set : EntitySet}

theorem Tracked.insertTransfers_precede (h : set.Tracked) : set.insertTransfers.Pairwise Transfer.Precedes := by
  have listed : (set.changes.inserts.map set.insertTransfer).Pairwise fun transfer other =>
      transfer.target.map Prod.fst ≠ other.target.map Prod.fst := by
    rw [changes, List.map_filterMap, List.pairwise_filterMap]
    refine (toList_nodup set.inserted).imp fun {key other} differ => ?_
    simp only [Option.map_map, Option.map_eq_some_iff]
    rintro _ ⟨slot, found, rfl⟩ _ ⟨slot', found', rfl⟩
    simpa [insertTransfer, Transfer.target, insertChange, (h.row found).keyIn_eq, (h.row found').keyIn_eq] using differ
  have apart : set.insertTransfers.Pairwise fun transfer other =>
      transfer.target.map Prod.fst ≠ other.target.map Prod.fst :=
    ((Batch.rounds_perm _ _).map _).symm.pairwise listed fun differ => differ.symm
  refine apart.imp_of_mem fun {early late} he hl differ => ?_
  obtain ⟨key, slot, -, -, rfl⟩ := h.mem_insertTransfers.1 he
  obtain ⟨place, slot', -, -, rfl⟩ := h.mem_insertTransfers.1 hl
  exact fun _ same => differ (by rw [Transfer.target, Transfer.target, same]; rfl)

theorem Tracked.updateTransfers_precede (h : set.Tracked) : set.updateTransfers.Pairwise Transfer.Precedes := by
  refine List.pairwise_filterMap.2 (Std.ExtTreeSet.ordered_toList.imp fun {key other} before => ?_)
  simp only [Option.bind_eq_some_iff, updateTransfer?, Option.map_eq_some_iff]
  rintro _ ⟨slot, found, baseline, -, rfl⟩ _ ⟨slot', found', baseline', -, rfl⟩ -
  rwa [(h.row found).keyIn_eq, (h.row found').keyIn_eq]

theorem Tracked.transfers_precede (h : set.Tracked) : set.transfers.Pairwise Transfer.Precedes := by
  rw [transfers, List.pairwise_append, List.pairwise_append]
  refine ⟨h.insertTransfers_precede, ⟨h.updateTransfers_precede, ?_, ?_⟩, ?_⟩
  · refine List.pairwise_of_forall_mem_list fun early he late hl _ => ?_
    obtain ⟨_, _, _, rfl⟩ := h.mem_deleteTransfers.1 (List.mem_reverse.1 he)
    obtain ⟨_, _, _, rfl⟩ := h.mem_deleteTransfers.1 (List.mem_reverse.1 hl)
    trivial
  · intro early he late hl _
    obtain ⟨_, _, _, _, -, -, -, -, rfl⟩ := h.mem_updateTransfers.1 he
    obtain ⟨_, _, _, rfl⟩ := h.mem_deleteTransfers.1 (List.mem_reverse.1 hl)
    trivial
  · intro early he late hl _
    obtain ⟨_, _, _, _, rfl⟩ := h.mem_insertTransfers.1 he
    rcases List.mem_append.1 hl with hl | hl
    · obtain ⟨_, _, _, _, -, -, -, -, rfl⟩ := h.mem_updateTransfers.1 hl
      trivial
    · obtain ⟨_, _, _, rfl⟩ := h.mem_deleteTransfers.1 (List.mem_reverse.1 hl)
      trivial

/-- A row has come to a key since it was persisted, if it was, and is written before the row leaves that
was persisted under the key: before a later update moves it, or before it is deleted. -/
def Collides (set : EntitySet) (key : Key) : Prop :=
  ∃ slot, set.rows[key]? = some slot ∧ set.persistedKey? slot ≠ some key ∧
    (set.removed[key]? ≠ none ∨
      ∃ place, set.PersistedAs place key ∧ (slot.baseline = none ∨ compare key place = .lt))

end EntitySet

namespace Graph
variable {graph : Graph} {name : String} {set : EntitySet} {transfer : Transfer} {key : Key}

theorem Sound.transfers_precede (h : graph.Sound) : graph.transfers.Pairwise Transfer.Precedes :=
  h.transfers_pairwise (fun _ _ differ same => absurd same differ)
    fun _ member => (h.tracked (h.mem_sets.1 member)).transfers_precede

/-- The transfer that brings a row to a key. -/
theorem Sound.transfer_to (h : graph.Sound) (found : graph.entities[name]? = some set)
    (member : transfer ∈ graph.transfers) (reaches : transfer.Reaches name key) :
    ∃ slot, set.rows[key]? = some slot ∧
      ((slot.baseline = none ∧ transfer = .insert set.definition key slot.row.columns) ∨
        ∃ source baseline, slot.baseline = some baseline ∧ baseline ≠ slot.row.columns ∧
          set.definition.Stores source baseline ∧
          transfer = .update set.definition source baseline key slot.row.columns) := by
  obtain ⟨named, reached⟩ := reaches
  obtain ⟨owner, found', -, listed⟩ := h.transfers_cases member
  rw [named] at found'
  cases found.symm.trans found'
  rcases listed with ⟨place, slot, hs, fresh, rfl⟩ | ⟨place, slot, source, baseline, hs, hb, changed, stores, rfl⟩ |
    ⟨place, columns, -, rfl⟩
  · cases reached
    exact ⟨slot, hs, .inl ⟨fresh, rfl⟩⟩
  · cases reached
    exact ⟨slot, hs, .inr ⟨source, baseline, hb, changed, stores, rfl⟩⟩
  · cases reached

/-- No row comes to a key twice. -/
theorem Sound.not_reaches_of_precedes (h : graph.Sound) (found : graph.entities[name]? = some set)
    {late : Transfer} (member : transfer ∈ graph.transfers) (member' : late ∈ graph.transfers)
    (precedes : transfer.Precedes late) (reaches : transfer.Reaches name key) : ¬late.Reaches name key := by
  intro reaches'
  obtain ⟨slot, hs, brings⟩ := h.transfer_to found member reaches
  obtain ⟨slot', hs', brings'⟩ := h.transfer_to found member' reaches'
  cases hs.symm.trans hs'
  rcases brings with ⟨fresh, rfl⟩ | ⟨_, _, hb, -, -, rfl⟩ <;>
    rcases brings' with ⟨fresh', rfl⟩ | ⟨_, _, hb', -, -, rfl⟩
  · exact precedes rfl rfl
  · cases fresh.symm.trans hb'
  · exact precedes rfl
  · have irreflexive : compare key key = .lt := precedes rfl
    simp at irreflexive

/-- No row comes to the key of a row at rest. -/
theorem Sound.not_resting (h : graph.Sound) (found : graph.entities[name]? = some set)
    (member : transfer ∈ graph.transfers) (reaches : transfer.Reaches name key) {tables : Tables} {columns : Columns} :
    ¬graph.Resting tables name key columns := by
  intro rests
  simp only [Resting, found] at rests
  obtain ⟨slot, hs, hb, rfl⟩ := rests
  obtain ⟨slot', hs', brings⟩ := h.transfer_to found member reaches
  cases hs.symm.trans hs'
  rcases brings with ⟨fresh, -⟩ | ⟨_, _, hb', changed, -⟩
  · cases fresh.symm.trans hb
  · cases hb.symm.trans hb'
    exact changed rfl

/-- The transfer that takes away the row that was persisted under a key. -/
theorem Sound.transfer_from (h : graph.Sound) (found : graph.entities[name]? = some set)
    (member : transfer ∈ graph.transfers) (leaves : transfer.Leaves name key) :
    (∃ place slot columns, set.rows[place]? = some slot ∧ set.persistedKey? slot = some key ∧
        transfer = .update set.definition key columns place slot.row.columns) ∨
      ∃ columns, set.removed[key]? = some columns ∧ transfer = .delete set.definition key columns := by
  obtain ⟨named, left⟩ := leaves
  obtain ⟨owner, found', -, listed⟩ := h.transfers_cases member
  rw [named] at found'
  cases found.symm.trans found'
  rcases listed with ⟨place, slot, hs, fresh, rfl⟩ | ⟨place, slot, source, baseline, hs, hb, changed, stores, rfl⟩ |
    ⟨place, columns, removed, rfl⟩
  · cases left
  · cases left
    exact .inl ⟨place, slot, baseline, hs, EntitySet.persistedKey?_eq_some_iff.2 ⟨baseline, hb, stores.2⟩, rfl⟩
  · cases left
    exact .inr ⟨columns, removed, rfl⟩

/-- The row that collides is brought by a transfer. -/
theorem Sound.brought_of_collides (h : graph.Sound) (found : graph.entities[name]? = some set)
    (collides : set.Collides key) :
    ∃ transfer ∈ graph.transfers, transfer.Reaches name key ∧ ¬transfer.Leaves name key := by
  obtain ⟨slot, hs, moved, -⟩ := collides
  have held : (set.get? key).map Row.columns = some slot.row.columns := by simp [EntitySet.get?, hs]
  rcases (h.row_iff found).1 held with ⟨transfer, member, puts⟩ | ⟨slot', hs', hb, -⟩
  · have reached := puts.reaches.2
    refine ⟨transfer, member, puts.reaches, fun leaves => ?_⟩
    rcases h.transfer_from found member leaves with ⟨place, slot', _, hs', hp, rfl⟩ | ⟨_, -, rfl⟩
    · cases reached
      cases hs.symm.trans hs'
      exact moved hp
    · cases reached
  · cases hs.symm.trans hs'
    exact absurd (EntitySet.persistedKey?_eq_some_iff.2 ⟨_, hb, ((h.tracked found).row hs).2⟩) moved

/-- A row that has come to a key collides just if another transfer takes away what was persisted under
the key, and comes later. -/
theorem Sound.collides_iff (h : graph.Sound) (found : graph.entities[name]? = some set)
    (member : transfer ∈ graph.transfers) (reaches : transfer.Reaches name key)
    (stays : ¬transfer.Leaves name key) :
    set.Collides key ↔ ∃ other ∈ graph.transfers, other.Leaves name key ∧ transfer.Precedes other := by
  have tracked := h.tracked found
  obtain ⟨slot, hs, brings⟩ := h.transfer_to found member reaches
  have moved : set.persistedKey? slot ≠ some key := by
    rcases brings with ⟨fresh, -⟩ | ⟨source, baseline, hb, -, stores, rfl⟩
    · simp [EntitySet.persistedKey?, fresh]
    · intro own
      have same : source = key := by simpa [EntitySet.persistedKey?, hb, stores.2] using own
      exact stays ⟨reaches.1, congrArg some same⟩
  constructor
  · rintro ⟨slot', hs', -, leaves⟩
    cases hs.symm.trans hs'
    rcases leaves with removed | ⟨place, ⟨slot', hs', hp⟩, before⟩
    · obtain ⟨columns, removed⟩ := Option.ne_none_iff_exists'.1 removed
      refine ⟨.delete set.definition key columns, ?_, ⟨h.name_eq found, rfl⟩, ?_⟩
      · exact h.mem_transfers_of_listed found (.inr (.inr (tracked.mem_deleteTransfers.2 ⟨key, columns, removed, rfl⟩)))
      · rcases brings with ⟨-, rfl⟩ | ⟨_, _, -, -, -, rfl⟩ <;> exact fun _ => trivial
    · obtain ⟨baseline, hb, isKey⟩ := EntitySet.persistedKey?_eq_some_iff.1 hp
      obtain ⟨source, stores⟩ := tracked.baseline hs' hb
      cases isKey.symm.trans stores.2
      have changed : baseline ≠ slot'.row.columns := by
        -- an unchanged row would be the one that has come to the key
        rintro rfl
        cases stores.2.symm.trans (tracked.row hs').2
        cases hs.symm.trans hs'
        exact moved hp
      refine ⟨.update set.definition key baseline place slot'.row.columns, ?_, ⟨h.name_eq found, rfl⟩, ?_⟩
      · exact h.mem_transfers_of_listed found (.inr (.inl (tracked.mem_updateTransfers.2
          ⟨place, slot', key, baseline, hs', hb, changed, stores, rfl⟩)))
      · rcases brings with ⟨-, rfl⟩ | ⟨source, former, hf, -, -, rfl⟩
        · exact fun _ => trivial
        · rw [hf] at before
          exact fun _ => before.resolve_left (by simp)
  · rintro ⟨other, listed, leaves, before⟩
    refine ⟨slot, hs, moved, ?_⟩
    rcases h.transfer_from found listed leaves with ⟨place, slot', columns, hs', hp, rfl⟩ | ⟨columns, removed, -⟩
    · refine .inr ⟨place, ⟨slot', hs', hp⟩, ?_⟩
      rcases brings with ⟨fresh, -⟩ | ⟨_, _, -, -, -, rfl⟩
      · exact .inl fresh
      · exact .inr (before rfl)
    · exact .inl (by simp [removed])

variable {backend : MemoryBackend} {before later : List Transfer} {tables : Tables}

/-- When a row comes to a key from elsewhere, the tables still hold the key just if the row collides. -/
theorem Sound.holds_iff_collides (h : graph.Sound) (split : graph.transfers = before ++ transfer :: later)
    (carried : Transfer.Carried (graph.Resting backend.tables) before (transfer :: later) tables)
    (found : graph.entities[name]? = some set) (reaches : transfer.Reaches name key)
    (stays : ¬transfer.Leaves name key) : tables.holds name key = true ↔ set.Collides key := by
  have order := h.transfers_precede
  rw [split, List.pairwise_append, List.pairwise_cons] at order
  obtain ⟨-, ⟨after, -⟩, earlier⟩ := order
  have member : ∀ {other : Transfer}, other ∈ before ++ transfer :: later → other ∈ graph.transfers := by
    rw [split]
    exact id
  rw [Tables.holds_iff, h.collides_iff found (member (by simp)) reaches stays]
  constructor
  · rintro ⟨columns, held⟩
    rcases carried.row.1 held with ⟨other, listed, puts⟩ | ⟨other, listed, takes⟩ | rests
    · have precedes := earlier other listed transfer (by simp)
      exact absurd reaches (h.not_reaches_of_precedes found (member (by simp [listed])) (member (by simp))
        precedes puts.reaches)
    · rcases List.mem_cons.1 listed with rfl | listed
      · exact absurd takes.leaves stays
      · exact ⟨other, member (by simp [listed]), takes.leaves, after other listed⟩
    · exact absurd rests (h.not_resting found (member (by simp)) reaches)
  · rintro ⟨other, listed, leaves, precedes⟩
    obtain ⟨columns, takes⟩ := leaves.takes
    refine ⟨columns, carried.row.2 (.inr (.inl ⟨other, ?_, takes⟩))⟩
    rw [split, List.mem_append] at listed
    refine listed.resolve_left fun listed => ?_
    have back := earlier other listed transfer (by simp)
    refine precedes.not_precedes (reaches.1.trans leaves.1.symm) ?_ ?_ back
    · intro none
      simp [Transfer.Reaches, none] at reaches
    · simp [takes.2]

/-- The tables when a batch has come to one of its transfers. -/
theorem Sound.carried_before (h : graph.Sound) (registered : backend.catalog = graph.catalog)
    (inStep : graph.InStep backend) (split : graph.transfers = before ++ transfer :: later) {affected : Nat}
    (applied : backend.applyAll backend.tables (before.map Transfer.change) = (.ok affected, tables)) :
    Transfer.Carried (graph.Resting backend.tables) before (transfer :: later) tables := by
  have carried := h.carried inStep
  rw [split] at carried
  have legal : ∀ other ∈ before, other.Legal backend.catalog := by
    intro other listed
    rw [registered]
    exact h.transfers_legal (by simp [split, listed])
  exact (carried.applyPrefix legal applied).2

/-- A batch that is refused for a duplicate key has come to a row that collides, or to a command that
reports such a key. -/
theorem Sound.collides_of_refused (h : graph.Sound) (registered : backend.catalog = graph.catalog)
    (inStep : graph.InStep backend) {entity shown : String}
    (refused : (backend.applyAll backend.tables graph.pendingChanges).1 = .error (.duplicateKey entity shown)) :
    (∃ set key, graph.entities[entity]? = some set ∧ set.Collides key ∧ shown = key.display) ∨
      ∃ command ∈ graph.commands, ∃ tables,
        (backend.apply tables command).1 = .error (.duplicateKey entity shown) := by
  obtain ⟨before, failing, later, affected, middle, batch, applied, fails⟩ := MemoryBackend.applyAll_eq_error refused
  rw [h.pendingChanges_eq] at batch
  rcases List.append_eq_append_iff.1 batch with ⟨_, -, queued⟩ | ⟨rest, changes, queued⟩
  · exact .inr ⟨failing, by simp [queued], middle, fails⟩
  cases rest with
  | nil =>
    rw [List.nil_append] at queued
    exact .inr ⟨failing, by simp [← queued], middle, fails⟩
  | cons change rest =>
    -- the change that fails belongs to a transfer, and the changes before it to the transfers before
    obtain ⟨rfl, -⟩ := List.cons.inj queued
    obtain ⟨earlier, _, split, rfl, waiting⟩ := List.map_eq_append_iff.1 changes
    obtain ⟨transfer, after, rfl, rfl, -⟩ := List.map_eq_cons_iff.1 waiting
    have member : transfer ∈ graph.transfers := by simp [split]
    have legal : transfer.Legal backend.catalog := by
      rw [registered]
      exact h.transfers_legal member
    have carried := h.carried_before registered inStep split applied
    obtain ⟨key, reaches, stays, held, shows⟩ := Transfer.apply_eq_duplicateKey legal (carried.present (by simp)) fails
    obtain ⟨set, found, -⟩ := h.mem_transfers.1 member
    rw [reaches.1] at found
    exact .inl ⟨set, key, found, (h.holds_iff_collides split carried found reaches stays).1 held, shows⟩

/-- A batch with a row that collides does not run through. -/
theorem Sound.not_applied_of_collides (h : graph.Sound) (registered : backend.catalog = graph.catalog)
    (inStep : graph.InStep backend) (found : graph.entities[name]? = some set) (collides : set.Collides key)
    {affected : Nat} : backend.applyAll backend.tables graph.pendingChanges ≠ (.ok affected, tables) := by
  intro applied
  obtain ⟨transfer, member, reaches, stays⟩ := h.brought_of_collides found collides
  obtain ⟨before, later, split⟩ := List.append_of_mem member
  have legal : transfer.Legal backend.catalog := by
    rw [registered]
    exact h.transfers_legal member
  rw [h.pendingChanges_eq, split, List.map_append, List.map_cons, List.append_assoc, List.cons_append,
    MemoryBackend.applyAll_append_eq_ok_iff] at applied
  obtain ⟨_, _, middle, -, first, rest⟩ := applied
  obtain ⟨_, _, next, -, applied, -⟩ := MemoryBackend.applyAll_cons_eq_ok_iff.1 rest
  have carried := h.carried_before registered inStep split first
  have accepted := ((Transfer.apply_eq_ok_iff legal (carried.present (by simp))).1 applied).2.2
  have free := (accepted.free reaches).resolve_right stays
  have held := (h.holds_iff_collides split carried found reaches stays).2 collides
  rw [Tables.holds_eq_false_iff.2 free] at held
  cases held

theorem ofSubmit_eq_saveConflict {error reported : BackendError}
    (conflict : GraphError.ofSubmit reported = .saveConflict error) : reported = error ∧ error.isConflict = true := by
  unfold GraphError.ofSubmit at conflict
  split_ifs at conflict with refused
  cases conflict
  exact ⟨rfl, refused⟩

/-- A save that is refused for its data is refused for the first change that fails. -/
theorem save_eq_saveConflict {error : BackendError} (refused : (graph.save backend).1 = .error (.saveConflict error)) :
    (backend.applyAll backend.tables graph.pendingChanges).1 = .error error := by
  simp only [save] at refused
  split at refused
  · cases refused
  · split at refused
    · next checked =>
      cases refused
      split_ifs at checked
      exact absurd checked Change.validateAll_ne_saveConflict
    · split at refused
      · next submitted =>
        obtain ⟨rfl, conflict⟩ := ofSubmit_eq_saveConflict (Except.error.inj refused)
        exact MemoryBackend.submit_eq_conflict submitted conflict
      · cases refused

/-- A save to a backend in step is refused for a duplicate key only where a row collides or a command reports
the key itself, and where a row collides no save succeeds. -/
theorem Reachable.save_collides {catalog : Catalog} {config : GraphConfig}
    (reachable : Reachable catalog config graph) (registered : backend.catalog = catalog)
    (inStep : graph.InStep backend) :
    (∀ {entity shown : String}, (graph.save backend).1 = .error (.saveConflict (.duplicateKey entity shown)) →
      (∃ set key, graph.entities[entity]? = some set ∧ set.Collides key ∧ shown = key.display) ∨
        ∃ command ∈ graph.commands, ∃ tables,
          (backend.apply tables command).1 = .error (.duplicateKey entity shown)) ∧
    ∀ {name : String} {set : EntitySet} {key : Key}, graph.entities[name]? = some set → set.Collides key →
      ∀ affected, (graph.save backend).1 ≠ .ok affected := by
  have sound := reachable.sound
  rw [← reachable.catalog_eq] at registered
  constructor
  · intro entity shown refused
    exact sound.collides_of_refused registered inStep (save_eq_saveConflict refused)
  · intro name set key found collides affected ok
    obtain ⟨-, applied⟩ := sound.save_eq_ok (Prod.ext ok rfl)
    exact sound.not_applied_of_collides registered inStep found collides applied

end Graph

namespace Forest

/-- Two nodes. -/
def sown : Graph := (planted.insert ⟨node, 1, columns 2 .null⟩ 0).2

/-- The only backend to which the nodes were saved. -/
def nursery : MemoryBackend := (sown.save (MemoryBackend.empty catalog true)).2.2

/-- The second node has left its key since the save, and the first node has come to it. -/
def chained : Graph :=
  let saved := (sown.save (MemoryBackend.empty catalog true)).2.1
  ((saved.set "node" (.integer 2) "id" (.integer 3)).2.set "node" (.integer 1) "id" (.integer 2)).2

theorem chained_reachable : Graph.Reachable catalog {} chained :=
  .step (.step (.step (.step planted_reachable (.insert 0 (node_built planted_reachable 1 2)))
    (.save (MemoryBackend.empty catalog true))) (.set ..)) (.set ..)

/-- The backend holds both nodes as they were before the moves. -/
theorem chained_run : chained.InStep nursery ∧ chained.commands = [] ∧
    (chained.save nursery).1 = .error (.saveConflict (.duplicateKey "node" "2")) := by
  decide +kernel

theorem chained_save_collides : ∃ set key, chained.entities["node"]? = some set ∧ set.Collides key ∧
    key.display = "2" := by
  obtain ⟨inStep, idle, refused⟩ := chained_run
  obtain ⟨collides, -⟩ := Graph.Reachable.save_collides chained_reachable rfl inStep
  rcases collides refused with ⟨set, key, found, collides, shows⟩ | ⟨command, queued, -⟩
  · exact ⟨set, key, found, collides, shows.symm⟩
  · simp [idle] at queued

/-- Moves that were accepted one by one are refused together. -/
theorem chained_save_refused : ∃ backend : MemoryBackend,
    Graph.Reachable catalog {} chained ∧ backend.catalog = catalog ∧ chained.InStep backend ∧
      chained.commands = [] ∧ (chained.save backend).1 = .error (.saveConflict (.duplicateKey "node" "2")) :=
  ⟨nursery, chained_reachable, rfl, chained_run⟩

end Forest
end EntityGraph
