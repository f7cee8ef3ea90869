import EntityGraph.MemoryBackend
import EntityGraph.Proofs.Reachability

/-! # One row for each persisted row

A query adds a row that it does not find under its key, and a row whose key was written since the last
save is found only under its new key. Rows stay distinct as long as no query returns the former key of
such a row. The first query that does adds the persisted row a second time. -/
namespace EntityGraph

namespace EntitySet
variable {set : EntitySet} {key place persisted : Key} {slot : Slot} {row : Row} {groups groups' : Groups}

/-- The row under a key was persisted under another key or the same. -/
def PersistedAs (set : EntitySet) (place persisted : Key) : Prop :=
  ∃ slot, set.rows[place]? = some slot ∧ set.persistedKey? slot = some persisted

/-- A key without a row that some row had when it was persisted. -/
def Vacated (set : EntitySet) (key : Key) : Prop :=
  set.rows[key]? = none ∧ ∃ place, set.PersistedAs place key

theorem distinct_iff : set.Distinct ↔
    (∀ place other persisted, set.PersistedAs place persisted → set.PersistedAs other persisted →
      other = place) ∧ ∀ place persisted, set.PersistedAs place persisted → set.removed[persisted]? = none := by
  constructor
  · intro h
    constructor
    · rintro place other persisted ⟨slot, found, hp⟩ ⟨slot', found', hp'⟩
      exact h.rows found found' hp hp'
    · rintro place persisted ⟨slot, found, hp⟩
      exact h.removed found hp
  · rintro ⟨rows, removed⟩
    exact ⟨fun found found' hp hp' => rows _ _ _ ⟨_, found, hp⟩ ⟨_, found', hp'⟩,
      fun found hp => removed _ _ ⟨_, found, hp⟩⟩

theorem Tracked.persistedAs_insert (h : set.Tracked) :
    (set.insert key row).PersistedAs place persisted ↔
      set.PersistedAs place persisted ∨
        place = key ∧ persisted = key ∧ set.rows[key]? = none ∧ set.removed[key]? ≠ none := by
  simp only [PersistedAs, insert_rows, persistedKey?, insert_definition, Std.ExtTreeMap.getElem?_insert,
    Std.compare_eq_iff_eq]
  by_cases same : key = place
  · subst same
    cases hs : set.rows[key]? with
    | some slot => simp [inherited_of_row hs]
    | none =>
      cases hr : set.removed[key]? with
      | none => simp [inherited_of_absent hs, hr]
      | some columns =>
        simp [inherited_of_absent hs, hr, (h.removed hr).2, eq_comm]
  · simp [same, Ne.symm same]

theorem persistedAs_take : (set.take key slot).PersistedAs place persisted ↔
    place ≠ key ∧ set.PersistedAs place persisted := by
  simp only [PersistedAs, take_rows, persistedKey?, take_definition, Std.ExtTreeMap.getElem?_erase,
    Std.compare_eq_iff_eq]
  by_cases same : key = place
  · simp [same]
  · simp [same, Ne.symm same]

theorem persistedAs_move {target : Key} (found : set.rows[key]? = some slot) :
    (set.move key target ⟨row, slot.baseline⟩).PersistedAs place persisted ↔
      if place = target then set.PersistedAs key persisted
      else place ≠ key ∧ set.PersistedAs place persisted := by
  simp only [PersistedAs, move_rows, persistedKey?, move_definition, Std.ExtTreeMap.getElem?_insert,
    Std.ExtTreeMap.getElem?_erase, Std.compare_eq_iff_eq]
  by_cases same : target = place
  · simp [same, found]
  · by_cases own : key = place
    · simp [same, Ne.symm same, own]
    · simp [same, Ne.symm same, own, Ne.symm own]

theorem persistedAs_load (absent : set.rows[key]? = none) (stores : set.definition.Stores key row.columns) :
    (set.load key row).PersistedAs place persisted ↔
      set.PersistedAs place persisted ∨ place = key ∧ persisted = key := by
  simp only [PersistedAs, load, persistedKey?, Std.ExtTreeMap.getElem?_insert, Std.compare_eq_iff_eq]
  by_cases same : key = place
  · subst same
    simp [absent, stores.2, eq_comm]
  · simp [same, Ne.symm same]

theorem Tracked.persistedAs_refresh (h : set.Tracked) {columns : Columns} (idle : set.isPending key = false)
    (found : set.rows[key]? = some slot) (stores : set.definition.Stores key columns) :
    (set.refresh key columns).PersistedAs place persisted ↔ set.PersistedAs place persisted := by
  obtain ⟨inserted, updated, -⟩ := isPending_eq_false_iff.1 idle
  have clean := h.clean inserted updated found
  simp only [PersistedAs, EntitySet.refresh, found, persistedKey?, Std.ExtTreeMap.getElem?_insert,
    Std.compare_eq_iff_eq]
  by_cases same : key = place
  · subst same
    simp [found, clean, stores.2, (h.row found).2]
  · simp [same]

theorem Tracked.distinct_insert (h : set.Tracked) (distinct : set.Distinct) : (set.insert key row).Distinct := by
  obtain ⟨rows, removed⟩ := distinct_iff.1 distinct
  refine distinct_iff.2 ⟨fun place other persisted hp hp' => ?_, fun place persisted hp => ?_⟩
  · -- a removed row is the only one that was persisted under its key
    rw [h.persistedAs_insert] at hp hp'
    rcases hp with hp | ⟨rfl, rfl, -, waits⟩ <;> rcases hp' with hp' | ⟨rfl, same, -, waits'⟩
    · exact rows _ _ _ hp hp'
    · subst same
      exact absurd (removed _ _ hp) waits'
    · exact absurd (removed _ _ hp') waits
    · rfl
  · rw [h.persistedAs_insert] at hp
    rw [insert_removed]
    rcases hp with hp | ⟨rfl, rfl, absent, -⟩
    · rw [removed _ _ hp, ite_self]
    · rw [if_pos ⟨rfl, absent⟩]

theorem Distinct.take (h : set.Distinct) (found : set.rows[key]? = some slot) : (set.take key slot).Distinct := by
  obtain ⟨rows, removed⟩ := distinct_iff.1 h
  refine distinct_iff.2 ⟨fun place other persisted hp hp' => ?_, fun place persisted hp => ?_⟩
  · rw [persistedAs_take] at hp hp'
    exact rows _ _ _ hp.2 hp'.2
  · rw [persistedAs_take] at hp
    rw [take_removed, if_neg fun own => hp.1 (rows _ _ _ ⟨slot, found, own⟩ hp.2)]
    exact removed _ _ hp.2

theorem Distinct.move (h : set.Distinct) {target : Key} (found : set.rows[key]? = some slot) :
    (set.move key target ⟨row, slot.baseline⟩).Distinct := by
  obtain ⟨rows, removed⟩ := distinct_iff.1 h
  refine distinct_iff.2 ⟨fun place other persisted hp hp' => ?_, fun place persisted hp => ?_⟩
  · rw [persistedAs_move found] at hp hp'
    split_ifs at hp hp' with moved moved'
    · exact moved'.trans moved.symm
    · exact absurd (rows _ _ _ hp hp'.2) hp'.1
    · exact absurd (rows _ _ _ hp' hp.2) hp.1
    · exact rows _ _ _ hp.2 hp'.2
  · rw [persistedAs_move found] at hp
    rw [move_removed]
    split_ifs at hp
    · exact removed _ _ hp
    · exact removed _ _ hp.2

theorem RowEvent.distinct {set' : EntitySet} (event : set.RowEvent False groups set' groups')
    (tracked : set.Tracked) (h : set.Distinct) : set'.Distinct := by
  cases event with
  | place => exact tracked.distinct_insert h
  | take _ found => exact h.take found
  | move _ found => exact h.move found
  | load loads => exact loads.elim
  | refresh idle found stores =>
    obtain ⟨rows, removed⟩ := distinct_iff.1 h
    refine distinct_iff.2 ⟨fun place other persisted hp hp' => ?_, fun place persisted hp => ?_⟩
    · rw [tracked.persistedAs_refresh idle found stores] at hp hp'
      exact rows _ _ _ hp hp'
    · rw [tracked.persistedAs_refresh idle found stores] at hp
      simpa [EntitySet.refresh, found] using removed _ _ hp
  | evict clean found => exact (tracked.evict clean).distinct_of_clean clean
  | markLoaded => exact ⟨h.rows, h.removed⟩
  | accept => exact tracked.acceptChanges.distinct_of_clean acceptChanges_isDirty

/-- A key was vacated by a row with pending edits. -/
theorem Tracked.isDirty_of_vacated (h : set.Tracked) (vacated : set.Vacated key) : set.isDirty = true := by
  obtain ⟨absent, place, slot, found, hp⟩ := vacated
  by_contra clean
  rw [h.persistedKey_of_clean (by simpa using clean) found] at hp
  cases hp
  rw [found] at absent
  cases absent

theorem Tracked.isPending_of_absent (h : set.Tracked) (absent : set.rows[key]? = none) :
    set.isPending key = false ↔ set.removed[key]? = none := by
  rw [isPending_eq_false_iff, h.inserted, h.updated]
  simp [absent]

end EntitySet

namespace Graph
variable {graph next : Graph} {set : EntitySet} {groups : Groups} {rows : List (Key × Row)}
  {entry : Key × Row} {place persisted key : Key}

/-- What a set is after rows under some keys were merged: those were added that are neither in the map
nor removed. -/
structure Merged (set : EntitySet) (returned : List Key) (merged : EntitySet) : Prop where
  pending : ∀ key, merged.isPending key = set.isPending key
  removed : merged.removed = set.removed
  absent : ∀ key : Key, merged.rows[key]? = none ↔
    set.rows[key]? = none ∧ ¬(key ∈ returned ∧ set.isPending key = false)
  persistedAs : ∀ place persisted : Key, merged.PersistedAs place persisted ↔
    set.PersistedAs place persisted ∨
      place = persisted ∧ persisted ∈ returned ∧ set.isPending persisted = false ∧ set.rows[persisted]? = none

theorem Merged.refl : Merged set [] set := by
  constructor <;> simp

theorem Merged.trans {first second : List Key} {middle merged : EntitySet} (h : Merged set first middle)
    (h' : Merged middle second merged) : Merged set (first ++ second) merged where
  pending key := (h'.pending key).trans (h.pending key)
  removed := h'.removed.trans h.removed
  absent key := by
    rw [h'.absent, h.absent, h.pending, List.mem_append]
    tauto
  persistedAs place persisted := by
    rw [h'.persistedAs, h.persistedAs, h.pending, h.absent, List.mem_append]
    tauto

theorem mergeRow_merged (tracked : set.Tracked) (delivered : Delivered set.definition entry) :
    Merged set [entry.1] (mergeRow set.definition (set, groups) entry).1 := by
  obtain ⟨key, row⟩ := entry
  obtain ⟨-, stores⟩ := delivered
  rcases mergeRow_cases set.definition (set, groups) key row with
    ⟨kept, known⟩ | ⟨idle, absent, loaded⟩ | ⟨slot, idle, found, refreshed⟩
  · rw [kept]
    have settled : ∀ {other : Key}, other ∈ [key] → set.isPending other = false → set.rows[other]? ≠ none := by
      intro other same idle
      rw [List.mem_singleton] at same
      subst same
      obtain ⟨slot, found, -⟩ := known idle
      exact Option.ne_none_iff_exists'.2 ⟨slot, found⟩
    constructor
    · exact fun _ => rfl
    · rfl
    · exact fun other => (and_iff_left_of_imp fun absent fresh => settled fresh.1 fresh.2 absent).symm
    · exact fun place persisted =>
        (or_iff_left fun fresh => settled fresh.2.1 fresh.2.2.1 fresh.2.2.2).symm
  · rw [loaded]
    constructor
    · exact fun _ => rfl
    · rfl
    · intro other
      simp only [EntitySet.load, Std.ExtTreeMap.getElem?_insert, Std.compare_eq_iff_eq, List.mem_singleton]
      by_cases same : key = other
      · subst same
        simp [idle]
      · simp [same, Ne.symm same]
    · intro place persisted
      rw [EntitySet.persistedAs_load absent stores, List.mem_singleton]
      refine or_congr_right ⟨?_, ?_⟩
      · rintro ⟨rfl, rfl⟩
        exact ⟨rfl, rfl, idle, absent⟩
      · rintro ⟨rfl, rfl, -, -⟩
        exact ⟨rfl, rfl⟩
  · rw [refreshed]
    constructor
    · exact congrFun refresh_marks.1
    · exact refresh_marks.2.1
    · intro other
      simp only [EntitySet.refresh, found, Std.ExtTreeMap.getElem?_insert, Std.compare_eq_iff_eq,
        List.mem_singleton]
      by_cases same : key = other
      · subst same
        simp [idle]
      · simp [same, Ne.symm same]
    · intro place persisted
      rw [tracked.persistedAs_refresh idle found stores, List.mem_singleton]
      refine (or_iff_left ?_).symm
      rintro ⟨-, rfl, -, absent⟩
      rw [found] at absent
      cases absent

theorem foldl_mergeRow_merged {before : EntitySet × Groups} (tracked : before.1.Tracked)
    (delivered : ∀ entry ∈ rows, Delivered before.1.definition entry) :
    Merged before.1 (rows.map Prod.fst) (rows.foldl (mergeRow before.1.definition) before).1 := by
  induction rows generalizing before with
  | nil => exact .refl
  | cons entry rows ih =>
    have entered := delivered entry (by simp)
    have events : RowEvents True before (mergeRow before.1.definition before entry) := mergeRow_events entered
    have first : Merged before.1 [entry.1] (mergeRow before.1.definition before entry).1 :=
      mergeRow_merged tracked entered
    have rest := ih (events.tracked tracked) fun other member => by
      rw [events.definition]
      exact delivered other (by simp [member])
    rw [events.definition] at rest
    exact first.trans rest

/-- Merged rows stay distinct if and only if none of them stood in the map under another key. -/
theorem Merged.distinct_iff {returned : List Key} {merged : EntitySet} (h : Merged set returned merged)
    (tracked : set.Tracked) (distinct : set.Distinct) :
    merged.Distinct ↔ ∀ key ∈ returned, ¬set.Vacated key := by
  obtain ⟨rows, removed⟩ := EntitySet.distinct_iff.1 distinct
  constructor
  · rintro after key member ⟨absent, place, hp⟩
    have idle := (tracked.isPending_of_absent absent).2 (removed _ _ hp)
    have moved := (h.persistedAs place key).2 (.inl hp)
    have added := (h.persistedAs key key).2 (.inr ⟨rfl, member, idle, absent⟩)
    obtain ⟨slot, found, -⟩ := hp
    cases (EntitySet.distinct_iff.1 after).1 _ _ _ added moved
    rw [found] at absent
    cases absent
  · intro free
    refine EntitySet.distinct_iff.2 ⟨fun place other persisted hp hp' => ?_, fun place persisted hp => ?_⟩
    · rw [h.persistedAs] at hp hp'
      rcases hp with hp | ⟨rfl, member, -, absent⟩ <;> rcases hp' with hp' | ⟨rfl, member', -, absent'⟩
      · exact rows _ _ _ hp hp'
      · exact absurd ⟨absent', _, hp⟩ (free _ member')
      · exact absurd ⟨absent, _, hp'⟩ (free _ member)
      · rfl
    · rw [h.removed]
      rw [h.persistedAs] at hp
      rcases hp with hp | ⟨-, -, idle, -⟩
      · exact removed _ _ hp
      · exact (EntitySet.isPending_eq_false_iff.1 idle).2.2

theorem foldl_evictRow_isDirty {definition : Definition} {keys : List Key} {before : EntitySet × Groups} :
    (keys.foldl (evictRow definition) before).1.isDirty = before.1.isDirty := by
  induction keys generalizing before with
  | nil => rfl
  | cons key keys ih =>
    rw [List.foldl_cons, ih]
    cases found : before.1.get? key with
    | none => simp [evictRow, found]
    | some row =>
      simp only [evictRow, found]
      rfl

theorem mergeRows_isDirty {definition : Definition} {replace : Bool} {before : EntitySet × Groups} :
    (mergeRows definition replace before rows).1.isDirty = before.1.isDirty :=
  foldl_evictRow_isDirty.trans foldl_mergeRow_isDirty

theorem mergeRows_distinct_iff {before : EntitySet × Groups} {replace : Bool} (tracked : before.1.Tracked)
    (delivered : ∀ entry ∈ rows, Delivered before.1.definition entry)
    (clean : replace = true → before.1.isDirty = false) (distinct : before.1.Distinct) :
    (mergeRows before.1.definition replace before rows).1.Distinct ↔
      ∀ key ∈ rows.map Prod.fst, ¬before.1.Vacated key := by
  cases dirty : before.1.isDirty with
  | false =>
    have events : RowEvents True before (mergeRows before.1.definition replace before rows) :=
      mergeRows_events delivered clean
    refine iff_of_true ((events.tracked tracked).distinct_of_clean (mergeRows_isDirty.trans dirty)) ?_
    intro key _ vacated
    rw [tracked.isDirty_of_vacated vacated] at dirty
    cases dirty
  | true =>
    have kept : replace = false := by
      by_contra replaces
      rw [clean (by simpa using replaces)] at dirty
      cases dirty
    have merged := foldl_mergeRow_merged tracked delivered
    simpa [mergeRows, kept] using merged.distinct_iff tracked distinct

/-- No persisted row is in a graph twice. -/
def Distinct (graph : Graph) : Prop :=
  ∀ ⦃name : String⦄ ⦃set : EntitySet⦄, graph.entities[name]? = some set → set.Distinct

/-- A query that returns the former key of a row. -/
inductive Readmits (graph : Graph) : Graph → Prop
  | query {σ : Type} [Backend σ] {backend : σ} {name : String} {parameters : Columns} {identity : Nat}
      {set : EntitySet} {rows : List (Key × Row)} {key : Key}
      (found : graph.entities[name]? = some set)
      (fetched : graph.fetch backend name parameters identity = .ok (set.definition, rows))
      (returned : key ∈ rows.map Prod.fst) (vacated : set.Vacated key) :
      Readmits graph (graph.query backend name parameters identity).2

/-- The graphs that a run goes through, the latest first. -/
inductive Run (catalog : Catalog) (config : GraphConfig) : List Graph → Prop
  | start {graph : Graph} : Graph.ofCatalog catalog config = .ok graph → Run catalog config [graph]
  | step {graph next : Graph} {past : List Graph} :
      Run catalog config (graph :: past) → Step graph next → Run catalog config (next :: graph :: past)

theorem Distinct.put (h : graph.Distinct) {name : String} :
    (graph.put name set groups).Distinct ↔ set.Distinct := by
  constructor
  · intro after
    have put : (graph.put name set groups).entities[name]? = some set := by rw [put_entities, if_pos rfl]
    exact after put
  · intro distinct other other' found
    rw [put_entities] at found
    split_ifs at found
    · cases found
      exact distinct
    · exact h found

theorem Event.distinct (event : Event False graph next) (sound : graph.Sound) (h : graph.Distinct) :
    next.Distinct := by
  cases event with
  | row found event => exact h.put.2 (event.distinct (sound.tracked found) (h found))
  | queue => exact h
  | dropChanges =>
    intro name set found
    rw [dropChanges_entities, Option.map_eq_some_iff] at found
    obtain ⟨set, found, rfl⟩ := found
    exact (sound.tracked found).acceptChanges.distinct_of_clean EntitySet.acceptChanges_isDirty

theorem Events.distinct (events : Events False graph next) (sound : graph.Sound) (h : graph.Distinct) :
    next.Distinct := by
  have kept : next.Sound ∧ next.Distinct := by
    induction events with
    | refl => exact ⟨sound, h⟩
    | tail _ event ih => exact ⟨event.sound ih.1, event.distinct ih.1 ih.2⟩
  exact kept.2

theorem query_distinct_iff {σ : Type} [Backend σ] {backend : σ} {name : String} {parameters : Columns}
    {identity : Nat} (sound : graph.Sound) (h : graph.Distinct) :
    (graph.query backend name parameters identity).2.Distinct ↔
      ∀ {set : EntitySet} {rows : List (Key × Row)}, graph.entities[name]? = some set →
        graph.fetch backend name parameters identity = .ok (set.definition, rows) →
          ∀ key ∈ rows.map Prod.fst, ¬set.Vacated key := by
  unfold query
  cases fetched : graph.fetch backend name parameters identity with
  | error e => simpa using h
  | ok result =>
    obtain ⟨definition, rows⟩ := result
    obtain ⟨set, found, rfl, delivered⟩ := fetch_eq_ok fetched
    simp only [merge, sound.name_eq found, entity_eq_ok_iff.2 found]
    have merged := @mergeRows_distinct_iff rows (set, graph.groups)
      (!set.isDirty && graph.config.evictOnReload && set.loaded) (sound.tracked found) delivered
      (by simp +contextual) (h found)
    have marked : ∀ {set : EntitySet}, set.markLoaded.Distinct ↔ set.Distinct :=
      ⟨fun after => ⟨after.rows, after.removed⟩, fun before => ⟨before.rows, before.removed⟩⟩
    rw [h.put, marked, merged]
    constructor
    · rintro free other others found' same
      cases found.symm.trans found'
      cases same
      exact free
    · exact fun free => free found rfl

/-- A step keeps rows distinct if and only if it is not a query that returns the former key of a row. -/
theorem Step.distinct_iff (step : Step graph next) (sound : graph.Sound) (h : graph.Distinct) :
    next.Distinct ↔ ¬Readmits graph next := by
  constructor
  · rintro after ⟨found, fetched, returned, vacated⟩
    exact (query_distinct_iff sound h).1 after found fetched _ returned vacated
  · intro free
    cases step with
    | query backend name parameters identity =>
      refine (query_distinct_iff sound h).2 fun found fetched key returned vacated => ?_
      exact free (.query found fetched returned vacated)
    | insert generated built => exact (insert_events sound built generated).distinct sound h
    | remove name key => exact (remove_events sound name key).distinct sound h
    | clear name => exact (clear_events sound name).distinct sound h
    | set name key field value => exact (writeField_events sound ..).distinct sound h
    | setReference name key relationship target => exact (setReference_events sound ..).distinct sound h
    | command name parameters => exact (command_events name parameters).distinct sound h
    | dropChanges => exact Event.distinct .dropChanges sound h
    | dropEntityChanges name => exact (dropEntityChanges_events name).distinct sound h
    | save backend => exact (save_events backend).distinct sound h

theorem ofCatalog_distinct {catalog : Catalog} {config : GraphConfig}
    (opened : Graph.ofCatalog catalog config = .ok graph) : graph.Distinct := by
  intro name set found
  obtain ⟨-, opened⟩ := check_eq_ok_iff.1 opened
  cases opened
  rw [Std.ExtTreeMap.getElem?_map, Option.map_eq_some_iff] at found
  obtain ⟨definition, -, rfl⟩ := found
  exact (EntitySet.empty_tracked definition).distinct_of_clean (by simp [EntitySet.empty, EntitySet.isDirty])

theorem Run.reachable {catalog : Catalog} {config : GraphConfig} {graphs : List Graph}
    (run : Run catalog config graphs) : ∀ graph ∈ graphs, Reachable catalog config graph := by
  induction run with
  | start opened => simpa using .start opened
  | step _ step ih =>
    intro visited member
    rcases List.mem_cons.1 member with rfl | member
    · exact .step (ih _ (by simp)) step
    · exact ih visited member

/-- Along a run rows are distinct, by the keys under which they were persisted, if and only if no query
of the run returns a key that a row of the graph had when it was persisted and does not have now. -/
theorem Run.distinct_iff_isChain {catalog : Catalog} {config : GraphConfig} {graphs : List Graph}
    (run : Run catalog config graphs) :
    (∀ graph ∈ graphs, graph.Distinct) ↔ graphs.IsChain fun next graph => ¬Readmits graph next := by
  induction run with
  | start opened => simpa using ofCatalog_distinct opened
  | @step graph next past run step ih =>
    rw [List.isChain_cons_cons, ← ih, List.forall_mem_cons]
    constructor
    · rintro ⟨distinct, before⟩
      have sound := (run.reachable graph (by simp)).sound
      exact ⟨(step.distinct_iff sound (before graph (by simp))).1 distinct, before⟩
    · rintro ⟨free, before⟩
      have sound := (run.reachable graph (by simp)).sound
      exact ⟨(step.distinct_iff sound (before graph (by simp))).2 free, before⟩

end Graph

namespace Forest

/-- A backend with one node. -/
def seeded : MemoryBackend := ((MemoryBackend.empty catalog true).seed "node" [columns 1 .null]).2

def fetched : Graph := (bare.query seeded "node" ∅ 0).2

/-- The node of the backend, to be saved under another key. -/
def shifted : Graph := (fetched.set "node" (.integer 1) "id" (.integer 5)).2

def doubled : Graph := (shifted.query seeded "node" ∅ 1).2

theorem doubled_run : Graph.Run catalog {} [doubled, shifted, fetched, bare] :=
  .step (.step (.step (.start (by decide +kernel)) (.query ..)) (.set ..)) (.query ..)

/-- Both rows of the last graph were persisted under the same key. -/
theorem not_distinct : ¬doubled.Distinct := by
  have first : (doubled.entities["node"]?.bind fun set => set.rows[Key.integer 1]?.bind set.persistedKey?) =
      some (.integer 1) := by decide +kernel
  have second : (doubled.entities["node"]?.bind fun set => set.rows[Key.integer 5]?.bind set.persistedKey?) =
      some (.integer 1) := by decide +kernel
  intro distinct
  obtain ⟨set, found, first⟩ := Option.bind_eq_some_iff.1 first
  obtain ⟨set', found', second⟩ := Option.bind_eq_some_iff.1 second
  cases found.symm.trans found'
  obtain ⟨rows, -⟩ := EntitySet.distinct_iff.1 (distinct found)
  cases rows _ _ _ (Option.bind_eq_some_iff.1 first) (Option.bind_eq_some_iff.1 second)

theorem doubled_run_readmits :
    ¬[doubled, shifted, fetched, bare].IsChain fun next graph => ¬graph.Readmits next := by
  intro chain
  exact not_distinct ((Graph.Run.distinct_iff_isChain doubled_run).2 chain doubled (by simp))

theorem doubled_not_distinct :
    seeded.catalog = catalog ∧ Graph.Reachable catalog {} doubled ∧ ¬doubled.Distinct ∧
      (shifted.query seeded "node" ∅ 1).1 = .ok [(.integer 1, ⟨node, 1, columns 1 .null⟩)] :=
  ⟨rfl, doubled_run.reachable doubled (by simp), not_distinct, by decide +kernel⟩

end Forest
end EntityGraph
