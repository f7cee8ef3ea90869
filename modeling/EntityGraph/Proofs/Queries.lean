import EntityGraph.Proofs.Calls
import EntityGraph.Proofs.Saving

/-! # Queries

A successful query leaves pending work alone. Rows with unsaved edits and the marks stay as they are,
the other returned rows take the values of the last record with their key and keep their identity, and
rows that were not returned leave only where nothing was pending. So the next save is the same. -/
namespace EntityGraph

namespace Definition

/-- The columns of the row that is built from a record, if it has the key. -/
def rowUnder? (definition : Definition) (key : Key) (record : Columns) : Option Columns :=
  (definition.rowColumns record).toOption.filter fun columns => definition.keyOf? columns == some key

/-- The columns of the row that is built from the last record with a key. -/
def lastUnder? (definition : Definition) (records : List Columns) (key : Key) : Option Columns :=
  records.reverse.findSome? (definition.rowUnder? key)

end Definition

namespace Graph
variable {graph : Graph} {set merged : EntitySet} {groups : Groups} {rows : List (Key × Row)}

theorem lookup_singleton {place key : Key} {row : Row} :
    [(place, row)].lookup key = if key = place then some row else none := by
  by_cases same : key = place
  · simp [same]
  · simp [List.lookup_cons, beq_false_of_ne same, same]

/-- The last row of a result under a key holds the columns of the last record with this key. -/
theorem lookup_resultRows {definition : Definition} {identity : Nat} {records : List Columns}
    (built : resultRows definition identity records = .ok rows) (key : Key) :
    (rows.reverse.lookup key).map Row.columns = definition.lastUnder? records key := by
  induction records generalizing identity rows with
  | nil =>
    cases built
    rfl
  | cons record records ih =>
    obtain ⟨row, hrow, built⟩ := bind_eq_ok_iff.1 built
    split at built
    · cases built
    · next place hplace =>
      obtain ⟨rest, hrest, built⟩ := bind_eq_ok_iff.1 built
      cases built
      obtain ⟨columns, hcolumns, rfl⟩ := Row.ofColumns_eq_ok_iff.1 hrow
      have keyed : definition.keyOf? columns = some place := hplace
      have first : ([(place, (⟨definition, identity, columns⟩ : Row))].lookup key).map Row.columns =
          definition.rowUnder? key record := by
        simp only [lookup_singleton, Definition.rowUnder?, hcolumns, Except.toOption, Option.filter_some,
          keyed, Option.some_beq_some, beq_iff_eq, @eq_comm _ place]
        split_ifs <;> rfl
      rw [Definition.lastUnder?, List.reverse_cons, List.reverse_cons, List.lookup_append,
        List.findSome?_append, Option.map_or, ih hrest, first]
      simp [Definition.lastUnder?]

/-- What merging the rows of a result does to an entity. -/
structure Reloaded (set : EntitySet) (rows : List (Key × Row)) (merged : EntitySet) : Prop where
  rest : merged = { set with rows := merged.rows }
  pending : ∀ {key : Key}, set.isPending key = true → merged.rows[key]? = set.rows[key]?
  returned : ∀ {key : Key} {row : Row}, set.isPending key = false → rows.reverse.lookup key = some row →
    ∃ held, merged.rows[key]? = some ⟨held, some row.columns⟩ ∧ held.columns = row.columns ∧
      ∀ {slot : Slot}, set.rows[key]? = some slot →
        held.identity = slot.row.identity ∧ held.definition = slot.row.definition
  unreturned : ∀ {key : Key}, rows.reverse.lookup key = none → merged.rows[key]? = set.rows[key]?

theorem Reloaded.isPending (h : Reloaded set rows merged) (key : Key) :
    merged.isPending key = set.isPending key := by
  rw [h.rest]
  rfl

theorem Reloaded.refl : Reloaded set [] set where
  rest := rfl
  pending _ := rfl
  returned _ found := by simp at found
  unreturned _ := rfl

theorem Reloaded.trans {first second : List (Key × Row)} {middle : EntitySet} (h : Reloaded set first middle)
    (h' : Reloaded middle second merged) : Reloaded set (first ++ second) merged where
  rest := by
    rw [h'.rest, h.rest]
  pending pending := (h'.pending (by rwa [h.isPending])).trans (h.pending pending)
  returned {key row} idle found := by
    rw [List.reverse_append, List.lookup_append, Option.or_eq_some_iff] at found
    rcases found with later | ⟨unreturned, earlier⟩
    · obtain ⟨held, arrived, columns, kept⟩ := h'.returned (by rwa [h.isPending]) later
      refine ⟨held, arrived, columns, fun {slot} stood => ?_⟩
      cases earlier : first.reverse.lookup key with
      | none => exact kept (by rwa [h.unreturned earlier])
      | some row' =>
        obtain ⟨held', arrived', -, kept'⟩ := h.returned idle earlier
        obtain ⟨identity, definition⟩ := kept arrived'
        exact ⟨identity.trans (kept' stood).1, definition.trans (kept' stood).2⟩
    · rw [h'.unreturned unreturned]
      exact h.returned idle earlier
  unreturned {key} absent := by
    rw [List.reverse_append, List.lookup_append, Option.or_eq_none_iff] at absent
    rw [h'.unreturned absent.1, h.unreturned absent.2]

/-- One row arrived under an idle key, or the row under the key took its values. -/
theorem Reloaded.single {place : Key} {row held : Row} (rest : merged = { set with rows := merged.rows })
    (idle : set.isPending place = false)
    (rows : ∀ key : Key, merged.rows[key]? =
      if key = place then some ⟨held, some row.columns⟩ else set.rows[key]?)
    (columns : held.columns = row.columns)
    (kept : ∀ {slot : Slot}, set.rows[place]? = some slot →
      held.identity = slot.row.identity ∧ held.definition = slot.row.definition) :
    Reloaded set [(place, row)] merged where
  rest := rest
  pending {key} pending := by
    have apart : key ≠ place := by
      rintro rfl
      exact Bool.false_ne_true (idle.symm.trans pending)
    rw [rows, if_neg apart]
  returned {key found} _ returned := by
    rw [List.reverse_singleton, lookup_singleton] at returned
    split_ifs at returned with same
    cases returned
    subst same
    exact ⟨held, by rw [rows, if_pos rfl], columns, kept⟩
  unreturned {key} absent := by
    rw [List.reverse_singleton, lookup_singleton] at absent
    split_ifs at absent with apart
    rw [rows, if_neg apart]

theorem mergeRow_reloaded (tracked : set.Tracked) (entry : Key × Row) :
    Reloaded set [entry] (mergeRow set.definition (set, groups) entry).1 := by
  obtain ⟨place, row⟩ := entry
  rcases mergeRow_cases set.definition (set, groups) place row with
    ⟨kept, known⟩ | ⟨idle, absent, loaded⟩ | ⟨slot, idle, stood, refreshed⟩
  · rw [kept]
    cases idle : set.isPending place with
    | true =>
      refine ⟨rfl, fun _ => rfl, fun {key found} idle' returned => ?_, fun _ => rfl⟩
      rw [List.reverse_singleton, lookup_singleton] at returned
      split_ifs at returned with same
      rw [same, idle] at idle'
      cases idle'
    | false =>
      obtain ⟨⟨held, baseline⟩, stood, columns⟩ := known idle
      obtain ⟨unmarked, unmarked', -⟩ := EntitySet.isPending_eq_false_iff.1 idle
      have clean : baseline = some held.columns := tracked.clean unmarked unmarked' stood
      rw [clean, columns] at stood
      refine .single rfl idle (fun key => ?_) columns fun {slot} stood' => ?_
      · split_ifs with same
        · rw [same]
          exact stood
        · rfl
      · cases stood.symm.trans stood'
        exact ⟨rfl, rfl⟩
  · rw [loaded]
    refine .single rfl idle (fun key => ?_) rfl fun {slot} stood => ?_
    · simp only [EntitySet.load]
      grind
    · cases absent.symm.trans stood
  · rw [refreshed]
    refine @Reloaded.single set _ place row { slot.row with columns := row.columns }
      (by simp [EntitySet.refresh, stood]) idle (fun key => ?_) rfl fun {slot'} stood' => ?_
    · simp only [EntitySet.refresh, stood]
      grind
    · cases stood.symm.trans stood'
      exact ⟨rfl, rfl⟩

theorem foldl_mergeRow_reloaded {before : EntitySet × Groups} (tracked : before.1.Tracked)
    (delivered : ∀ entry ∈ rows, Delivered before.1.definition entry) :
    Reloaded before.1 rows (rows.foldl (mergeRow before.1.definition) before).1 := by
  induction rows generalizing before with
  | nil => exact .refl
  | cons entry rows ih =>
    have events : RowEvents True before (mergeRow before.1.definition before entry) :=
      mergeRow_events (delivered entry (by simp))
    have first : Reloaded before.1 [entry] (mergeRow before.1.definition before entry).1 :=
      mergeRow_reloaded tracked entry
    have rest := ih (events.tracked tracked) fun other member => by
      rw [events.definition]
      exact delivered other (by simp [member])
    rw [events.definition] at rest
    exact first.trans rest

theorem foldl_evictRow_rows {keys : List Key} {before : EntitySet × Groups} :
    (keys.foldl (evictRow before.1.definition) before).1 =
        { before.1 with rows := (keys.foldl (evictRow before.1.definition) before).1.rows } ∧
      ∀ key : Key, (keys.foldl (evictRow before.1.definition) before).1.rows[key]? =
        if key ∈ keys then none else before.1.rows[key]? := by
  induction keys generalizing before with
  | nil => simp
  | cons first keys ih =>
    simp only [List.foldl_cons]
    cases stood : before.1.rows[first]? with
    | none =>
      rw [evictRow_of_absent stood]
      refine ⟨ih.1, fun key => ?_⟩
      rw [ih.2]
      grind
    | some slot =>
      rw [evictRow_of_row stood]
      obtain ⟨rest, rows⟩ := @ih (before.1.evict first, before.1.ungroup before.2 first)
      refine ⟨rest, fun key => (rows key).trans ?_⟩
      simp only [EntitySet.evict]
      grind

theorem lookup_eq_none_iff {key : Key} : rows.reverse.lookup key = none ↔ key ∉ rows.map Prod.fst := by
  rw [List.lookup_eq_none_iff, List.mem_map]
  simp only [List.mem_reverse, bne_iff_ne, not_exists, not_and]
  exact forall₂_congr fun entry _ => ne_comm

/-- The rows that were not returned are dropped after the merge, if at all. -/
theorem mergeRows_rows {definition : Definition} {before merged : EntitySet × Groups} {evicts : Bool}
    (folded : rows.foldl (mergeRow definition) before = merged) (same : merged.1.definition = definition) :
    (mergeRows definition evicts before rows).1 =
        { merged.1 with rows := (mergeRows definition evicts before rows).1.rows } ∧
      ∀ key : Key, (mergeRows definition evicts before rows).1.rows[key]? =
        if evicts = true ∧ rows.reverse.lookup key = none then none else merged.1.rows[key]? := by
  unfold mergeRows
  dsimp only
  rw [folded, ← same]
  generalize hstale : (if evicts = true then
    merged.1.keys.filter fun key => !(rows.map Prod.fst).contains key else []) = stale
  have mem_stale : ∀ {key : Key}, key ∈ stale ↔
      evicts = true ∧ key ∈ merged.1.rows ∧ rows.reverse.lookup key = none := by
    intro key
    rw [← hstale]
    split_ifs with replaces
    · rw [List.mem_filter, EntitySet.keys, Std.ExtTreeMap.mem_keys, lookup_eq_none_iff]
      simp [replaces]
    · simp [replaces]
  obtain ⟨rest, left⟩ := @foldl_evictRow_rows stale merged
  refine ⟨rest, fun key => (left key).trans ?_⟩
  by_cases held : key ∈ merged.1.rows
  · have leaves : key ∈ stale ↔ evicts = true ∧ rows.reverse.lookup key = none :=
      mem_stale.trans (and_congr_right fun _ => and_iff_right held)
    rw [if_congr leaves rfl rfl]
  · simp [held]

/-- What a query leaves of an entity, by the records that it has read. -/
structure Requeried (set : EntitySet) (records : List Columns) (evicts : Bool) (after : EntitySet) :
    Prop where
  definition : after.definition = set.definition
  inserted : after.inserted = set.inserted
  updated : after.updated = set.updated
  removed : after.removed = set.removed
  loaded : after.loaded = true
  pending : ∀ {key : Key}, set.isPending key = true → after.rows[key]? = set.rows[key]?
  returned : ∀ {key : Key} {columns : Columns}, set.isPending key = false →
    set.definition.lastUnder? records key = some columns →
      ∃ row, after.rows[key]? = some ⟨row, some columns⟩ ∧ row.columns = columns ∧
        ∀ {slot : Slot}, set.rows[key]? = some slot →
          row.identity = slot.row.identity ∧ row.definition = slot.row.definition
  unreturned : ∀ {key : Key}, set.definition.lastUnder? records key = none →
    after.rows[key]? = if evicts = true then none else set.rows[key]?

theorem isDirty_of_isPending {key : Key} (pending : set.isPending key = true) : set.isDirty = true := by
  by_contra clean
  obtain ⟨inserted, updated, removed⟩ := EntitySet.isDirty_eq_false_iff.1 (Bool.not_eq_true _ ▸ clean)
  simp [EntitySet.isPending, inserted, updated, removed] at pending

theorem mergeRows_requeried {before : EntitySet × Groups} {identity : Nat} {records : List Columns}
    {evicts : Bool} (tracked : before.1.Tracked) (built : resultRows before.1.definition identity records = .ok rows)
    (clean : evicts = true → before.1.isDirty = false) :
    Requeried before.1 records evicts (mergeRows before.1.definition evicts before rows).1.markLoaded := by
  have last := lookup_resultRows built
  have reloaded := foldl_mergeRow_reloaded tracked (resultRows_delivered built)
  obtain ⟨rest, left⟩ := @mergeRows_rows rows before.1.definition before _ evicts rfl (by rw [reloaded.rest])
  rw [reloaded.rest] at rest
  constructor
  · rw [rest]
    rfl
  · rw [rest]
    rfl
  · rw [rest]
    rfl
  · rw [rest]
    rfl
  · rfl
  · intro key pending
    have kept : ¬(evicts = true ∧ rows.reverse.lookup key = none) := by
      rintro ⟨replaces, -⟩
      exact Bool.false_ne_true ((clean replaces).symm.trans (isDirty_of_isPending pending))
    exact (left key).trans ((if_neg kept).trans (reloaded.pending pending))
  · intro key columns idle returned
    rw [← last, Option.map_eq_some_iff] at returned
    obtain ⟨row, found, rfl⟩ := returned
    have kept : ¬(evicts = true ∧ rows.reverse.lookup key = none) := by simp [found]
    obtain ⟨held, arrived, columns, same⟩ := reloaded.returned idle found
    exact ⟨held, (left key).trans ((if_neg kept).trans arrived), columns, same⟩
  · intro key absent
    rw [← last, Option.map_eq_none_iff] at absent
    refine (left key).trans ?_
    rw [reloaded.unreturned absent]
    simp [absent]

theorem Requeried.changes {records : List Columns} {evicts : Bool} {after : EntitySet}
    (h : Requeried set records evicts after) : after.changes = set.changes := by
  have inserts : ∀ key ∈ set.inserted.toList,
      after.rows[key]?.map after.insertChange = set.rows[key]?.map set.insertChange := by
    intro key marked
    have pending : set.isPending key = true := by simp_all [EntitySet.isPending]
    rw [h.pending pending]
    unfold EntitySet.insertChange
    rw [h.definition]
  have updates : ∀ key ∈ set.updated.toList,
      after.rows[key]?.bind after.updateChange? = set.rows[key]?.bind set.updateChange? := by
    intro key marked
    have pending : set.isPending key = true := by simp_all [EntitySet.isPending]
    rw [h.pending pending]
    unfold EntitySet.updateChange?
    rw [h.definition]
  unfold EntitySet.changes
  rw [h.inserted, h.updated, h.removed, List.filterMap_congr inserts, List.filterMap_congr updates]
  unfold EntitySet.deleteChange
  rw [h.definition]

theorem Requeried.isDirty {records : List Columns} {evicts : Bool} {after : EntitySet}
    (h : Requeried set records evicts after) : after.isDirty = set.isDirty := by
  simp only [EntitySet.isDirty, h.inserted, h.updated, h.removed]

/-- What is pending in a graph does not change when it does not change in any entity. -/
theorem pendingChanges_put {name : String} {after : EntitySet}
    (found : graph.entities[name]? = some set) (same : after.changes = set.changes) :
    (graph.put name after groups).pendingChanges = graph.pendingChanges := by
  unfold pendingChanges
  have parts : ∀ definition : Definition,
      ((graph.put name after groups).entities[definition.name.text]?.map
        fun set => (definition, set.changes)) =
          graph.entities[definition.name.text]?.map fun set => (definition, set.changes) := by
    intro definition
    rw [put_entities]
    split_ifs with owner
    · rw [← owner, found, Option.map_some, Option.map_some, same]
    · rfl
  simp only [parts]
  rfl

theorem isDirty_put {name : String} {after : EntitySet} (found : graph.entities[name]? = some set)
    (same : after.isDirty = set.isDirty) : (graph.put name after groups).isDirty = graph.isDirty := by
  have iff : (graph.put name after groups).isDirty = false ↔ graph.isDirty = false := by
    rw [isDirty_eq_false_iff, isDirty_eq_false_iff]
    refine and_congr_right fun _ => ?_
    constructor
    · intro clean other resident held
      by_cases owner : name = other
      · subst owner
        cases found.symm.trans held
        rw [← same]
        exact clean (by rw [put_entities, if_pos rfl])
      · exact clean (by rwa [put_entities, if_neg owner])
    · intro clean other resident held
      rw [put_entities] at held
      split_ifs at held with owner
      · cases held
        rw [same]
        exact clean found
      · exact clean held
  rw [Bool.eq_iff_iff]
  simpa using not_congr iff

theorem mem_result_iff {key : Key} {row : Row} :
    (key, row) ∈ result set rows ↔ rows.reverse.lookup key ≠ none ∧ set.get? key = some row := by
  rw [Ne, lookup_eq_none_iff, not_not]
  simp only [result, List.mem_filterMap, Std.ExtTreeSet.mem_toList, Std.ExtTreeSet.mem_ofList,
    List.contains_iff_mem, Option.map_eq_some_iff, Prod.mk.injEq]
  constructor
  · rintro ⟨key, returned, row, held, rfl, rfl⟩
    exact ⟨returned, held⟩
  · exact fun ⟨returned, held⟩ => ⟨key, returned, row, held, rfl, rfl⟩

theorem result_sorted : (result set rows).Pairwise fun a b => compare a.1 b.1 = .lt := by
  refine List.pairwise_filterMap.2 (Std.ExtTreeSet.ordered_toList.imp ?_)
  intro first second earlier entry hentry other hother
  obtain ⟨row, -, rfl⟩ := Option.map_eq_some_iff.1 hentry
  obtain ⟨row', -, rfl⟩ := Option.map_eq_some_iff.1 hother
  exact earlier

/-- A query that fetches rows merges them into its entity. -/
theorem Reachable.requeried_of_fetched {catalog : Catalog} {config : GraphConfig} {σ : Type} [Backend σ]
    {backend : σ} {name : String} {parameters : Columns} {identity : Nat} {definition : Definition}
    (reachable : Reachable catalog config graph)
    (fetched : graph.fetch backend name parameters identity = .ok (definition, rows)) :
    ∃ set after groups resolved records, graph.entities[name]? = some set ∧
      set.definition.resolveParameters parameters = .ok resolved ∧
      Backend.read backend set.definition resolved = .ok records ∧
      resultRows set.definition identity records = .ok rows ∧
      Requeried set records (!set.isDirty && graph.config.evictOnReload && set.loaded) after ∧
      graph.query backend name parameters identity = (.ok (result after rows), graph.put name after groups) := by
  obtain ⟨set, resolved, records, found, rfl, hresolved, hrecords, built⟩ := fetch_reads fetched
  obtain ⟨set', merged, found', -, rfl, answered⟩ := query_of_fetched reachable.visited.indexed fetched
  cases found.symm.trans found'
  have requeried : Requeried set records (!set.isDirty && graph.config.evictOnReload && set.loaded) _ :=
    @mergeRows_requeried rows (set, graph.groups) identity records _ (reachable.sound.tracked found) built
      (by simp +contextual)
  exact ⟨set, _, _, resolved, records, found, hresolved, hrecords, built, requeried, answered⟩

/-- A successful query changes neither what is pending nor another entity. In its own entity it leaves
rows with unsaved edits and removed keys as they are, gives every other returned row the values of the
last record with its key, as values and as baseline, and evicts rows that were not returned only if
nothing was pending and the graph evicts. It returns what the entity then holds under the returned keys. -/
theorem Reachable.query_requeried {catalog : Catalog} {config : GraphConfig} {σ : Type} [Backend σ]
    {backend : σ} {name : String} {parameters : Columns} {identity : Nat} {answer : List (Key × Row)}
    {next : Graph} (reachable : Reachable catalog config graph)
    (ok : graph.query backend name parameters identity = (.ok answer, next)) :
    next.pendingChanges = graph.pendingChanges ∧ next.isDirty = graph.isDirty ∧
      next.commands = graph.commands ∧
      (∀ other : String, other ≠ name → next.entities[other]? = graph.entities[other]?) ∧
      ∃ set after resolved records, graph.entities[name]? = some set ∧ next.entities[name]? = some after ∧
        set.definition.resolveParameters parameters = .ok resolved ∧
        Backend.read backend set.definition resolved = .ok records ∧
        Requeried set records (!set.isDirty && graph.config.evictOnReload && set.loaded) after ∧
        (answer.Pairwise fun a b => compare a.1 b.1 = .lt) ∧
        ∀ (key : Key) (row : Row), (key, row) ∈ answer ↔
          (set.definition.lastUnder? records key).isSome = true ∧ after.get? key = some row := by
  cases fetched : graph.fetch backend name parameters identity with
  | error e =>
    unfold query at ok
    rw [fetched] at ok
    cases ok
  | ok read =>
    obtain ⟨definition, rows⟩ := read
    obtain ⟨set, after, groups, resolved, records, found, hresolved, hrecords, built, requeried, answered⟩ :=
      reachable.requeried_of_fetched fetched
    cases answered.symm.trans ok
    refine ⟨pendingChanges_put found requeried.changes, isDirty_put found requeried.isDirty, rfl,
      fun other apart => ?_, set, _, resolved, records, found, ?_, hresolved, hrecords, requeried,
      result_sorted, fun key row => ?_⟩
    · rw [put_entities, if_neg apart.symm]
    · rw [put_entities, if_pos rfl]
    · rw [mem_result_iff, ← lookup_resultRows built, Option.isSome_map, Option.isSome_iff_ne_none]

theorem isPending_of_clean (clean : set.isDirty = false) (key : Key) : set.isPending key = false := by
  by_contra pending
  exact Bool.false_ne_true (clean.symm.trans (isDirty_of_isPending (Bool.not_eq_false _ ▸ pending)))

/-- Where nothing is pending a merge adds the returned keys to those of the entity. -/
theorem mem_foldl_mergeRow {definition : Definition} {before : EntitySet × Groups}
    (clean : before.1.isDirty = false) {key : Key} :
    key ∈ (rows.foldl (mergeRow definition) before).1.rows ↔
      key ∈ before.1.rows ∨ key ∈ rows.map Prod.fst := by
  induction rows generalizing before with
  | nil => simp
  | cons entry rows ih =>
    obtain ⟨place, row⟩ := entry
    have merged : key ∈ (mergeRow definition before (place, row)).1.rows ↔
        key ∈ before.1.rows ∨ key = place := by
      rcases mergeRow_cases definition before place row with
        ⟨kept, held⟩ | ⟨-, -, loaded⟩ | ⟨slot, -, held, refreshed⟩
      · obtain ⟨slot, held, -⟩ := held (isPending_of_clean clean place)
        have present : place ∈ before.1.rows := mem_iff_exists_getElem?.2 ⟨slot, held⟩
        rw [kept]
        grind
      · rw [loaded]
        grind [EntitySet.load]
      · rw [refreshed]
        simp only [EntitySet.refresh, held]
        grind
    rw [List.foldl_cons, ih (mergeRow_isDirty.trans clean), merged, List.map_cons, List.mem_cons, or_assoc]

/-- Where nothing is pending the keys that were not returned stay unless they are evicted. -/
theorem mem_mergeRows {before : EntitySet × Groups} (clean : before.1.isDirty = false) (evicts : Bool) {key : Key} :
    key ∈ (mergeRows before.1.definition evicts before rows).1.rows ↔
      key ∈ rows.map Prod.fst ∨ evicts = false ∧ key ∈ before.1.rows := by
  have same : (rows.foldl (mergeRow before.1.definition) before).1.definition = before.1.definition :=
    (follows_mergeRows false before rows).definition
  obtain ⟨-, left⟩ := @mergeRows_rows rows before.1.definition before _ evicts rfl same
  have returned := @lookup_eq_none_iff rows key
  rw [Std.ExtTreeMap.mem_iff_isSome_getElem?, left]
  split_ifs with gone
  · simp [gone.1, returned.1 gone.2]
  · rw [← Std.ExtTreeMap.mem_iff_isSome_getElem?, mem_foldl_mergeRow clean]
    cases evicts <;> grind

/-- The rows of a result have the keys of the records. -/
theorem mem_resultRows {definition : Definition} {identity : Nat} {records : List Columns}
    (built : resultRows definition identity records = .ok rows) {key : Key} :
    key ∈ rows.map Prod.fst ↔ ∃ record ∈ records, (definition.rowUnder? key record).isSome = true := by
  rw [← not_iff_not, ← lookup_eq_none_iff, ← Option.map_eq_none_iff, lookup_resultRows built,
    Definition.lastUnder?, List.findSome?_eq_none_iff]
  simp

/-- A successful query has fetched rows. -/
theorem exists_fetch_of_query {σ : Type} [Backend σ] {backend : σ} {name : String} {parameters : Columns}
    {identity : Nat} {answer : List (Key × Row)} {next : Graph}
    (ok : graph.query backend name parameters identity = (.ok answer, next)) :
    ∃ definition rows, graph.fetch backend name parameters identity = .ok (definition, rows) := by
  unfold query at ok
  split at ok
  · cases ok
  · exact ⟨_, _, ‹_›⟩

/-- Where nothing is pending and rows are evicted, a query of an entity that has been queried before
leaves just the keys of the records that it read. The first query leaves the other keys as well. -/
theorem Visited.query_keys {catalog : Catalog} {config : GraphConfig} {σ : Type} [Backend σ] {backend : σ}
    {name : String} {parameters : Columns} {identity : Nat} {answer : List (Key × Row)} {next : Graph}
    (visited : Visited catalog config graph) (evicts : graph.config.evictOnReload = true)
    (found : graph.entities[name]? = some set) (clean : set.isDirty = false)
    (ok : graph.query backend name parameters identity = (.ok answer, next)) :
    ∃ after resolved records, next.entities[name]? = some after ∧
      set.definition.resolveParameters parameters = .ok resolved ∧
      Backend.read backend set.definition resolved = .ok records ∧
      ∀ key, after.contains key = true ↔
        (∃ record ∈ records, (set.definition.rowUnder? key record).isSome = true) ∨
          set.loaded = false ∧ set.contains key = true := by
  obtain ⟨definition, rows, fetched⟩ := exists_fetch_of_query ok
  obtain ⟨_, resolved, records, found', rfl, hresolved, hrecords, built⟩ := fetch_reads fetched
  cases found.symm.trans found'
  obtain ⟨_, merged, found', -, rfl, answered⟩ := query_of_fetched visited.indexed fetched
  cases found.symm.trans found'
  cases answered.symm.trans ok
  refine ⟨_, resolved, records, by rw [put_entities, if_pos rfl], hresolved, hrecords, fun key => ?_⟩
  have keys := @mem_mergeRows rows (set, graph.groups) clean set.loaded key
  rw [mem_resultRows built] at keys
  simpa [clean, evicts, EntitySet.contains, EntitySet.markLoaded] using keys

end Graph

namespace Forest

/-- Two persisted nodes, one of them under the key of the planted node. -/
def grove : MemoryBackend :=
  { MemoryBackend.empty catalog true with
    tables := (Tables.put ∅ "node" (.integer 1) (columns 1 (.integer 2))).put "node" (.integer 2)
      (columns 2 .null) }

/-- The query brings the second node and leaves the first to be inserted. -/
theorem planted_query_requeried : ∃ answer next, planted.query grove "node" ∅ 1 = (.ok answer, next) ∧
    answer.map Prod.fst = [.integer 1, .integer 2] ∧ next.pendingChanges = planted.pendingChanges ∧
      planted.pendingChanges = [.insert nodeName (columns 1 .null)] := by
  have run : (planted.query grove "node" ∅ 1).1.toOption.map (List.map Prod.fst) =
        some [.integer 1, .integer 2] ∧
      planted.pendingChanges = [.insert nodeName (columns 1 .null)] := by
    decide +kernel
  obtain ⟨read, pending⟩ := run
  cases answered : planted.query grove "node" ∅ 1 with
  | mk outcome next =>
    rw [answered] at read
    cases outcome with
    | error e => cases read
    | ok answer =>
      obtain ⟨same, -⟩ := Graph.Reachable.query_requeried planted_reachable answered
      exact ⟨answer, next, rfl, Option.some.inj read, same, pending⟩

/-- Two nodes that a query found. -/
def forested : Graph := (bare.query grove "node" ∅ 0).2

theorem forested_reachable : Graph.Reachable catalog {} forested := .step bare_reachable (.query ..)

theorem empty_read : node.resolveParameters ∅ = .ok ∅ ∧
    Backend.read (MemoryBackend.empty catalog true) node ∅ = .ok [] := by decide +kernel

/-- When the nodes are gone the next query leaves none. -/
theorem forested_query_keys :
    (∃ set, forested.entities["node"]? = some set ∧ set.keys = [.integer 1, .integer 2]) ∧
      ∃ next after, forested.query (MemoryBackend.empty catalog true) "node" ∅ 2 = (.ok [], next) ∧
        next.entities["node"]? = some after ∧ ∀ key, ¬after.contains key = true := by
  have run : (forested.entities["node"]?.map fun set => (set.isDirty, set.loaded, set.keys)) =
        some (false, true, [.integer 1, .integer 2]) ∧ forested.config.evictOnReload = true ∧
      (forested.query (MemoryBackend.empty catalog true) "node" ∅ 2).1 = .ok [] := by decide +kernel
  obtain ⟨content, evicts, done⟩ := run
  obtain ⟨set, found, content⟩ := Option.map_eq_some_iff.1 content
  simp only [Prod.mk.injEq] at content
  obtain ⟨clean, loaded, keys⟩ := content
  cases answered : forested.query (MemoryBackend.empty catalog true) "node" ∅ 2 with
  | mk outcome next =>
    rw [answered] at done
    cases done
    obtain ⟨after, resolved, records, arrived, hresolved, hrecords, kept⟩ :=
      Graph.Visited.query_keys forested_reachable.visited evicts found clean answered
    rw [(node_of_found forested_reachable found).2] at hresolved hrecords
    cases empty_read.1.symm.trans hresolved
    cases empty_read.2.symm.trans hrecords
    refine ⟨⟨set, found, keys⟩, next, after, rfl, arrived, fun key held => ?_⟩
    simpa [loaded] using (kept key).1 held

/-- The first query of a forest finds no nodes and leaves the node that is there. -/
theorem rooted_first_query : Graph.Reachable catalog {} rooted ∧ rooted.config.evictOnReload = true ∧
    ∃ set, rooted.entities["node"]? = some set ∧ set.isDirty = false ∧
      Backend.read (MemoryBackend.empty catalog true) set.definition ∅ = .ok [] ∧
      ∃ next after, rooted.query (MemoryBackend.empty catalog true) "node" ∅ 1 = (.ok [], next) ∧
        next.entities["node"]? = some after ∧ after.contains (.integer 1) = true := by
  have run : (rooted.entities["node"]?.map EntitySet.isDirty) = some false ∧
      rooted.config.evictOnReload = true ∧
      (rooted.query (MemoryBackend.empty catalog true) "node" ∅ 1).1 = .ok [] ∧
      ((rooted.query (MemoryBackend.empty catalog true) "node" ∅ 1).2.entities["node"]?.map fun after =>
        after.contains (.integer 1)) = some true := by decide +kernel
  obtain ⟨content, evicts, done, kept⟩ := run
  obtain ⟨set, found, clean⟩ := Option.map_eq_some_iff.1 content
  obtain ⟨after, arrived, kept⟩ := Option.map_eq_some_iff.1 kept
  have definition := (node_of_found rooted_reachable found).2
  exact ⟨rooted_reachable, evicts, set, found, clean, by rw [definition]; exact empty_read.2, _, after,
    Prod.ext done rfl, arrived, kept⟩

end Forest
end EntityGraph
