import EntityGraph.Proofs.OwnChanges
import EntityGraph.Proofs.References

/-! # A backend accepts the batch of a save

Principals are written before their dependents and deleted after them, so that every change of a save
finds the rows that it refers to and leaves no reference without its row. -/
namespace EntityGraph

/-- References among the rows of one entity, except those of a row to itself. -/
def Definition.SelfLink (definition : Definition) (rows : Key → Option Columns) (key parent : Key) : Prop :=
  parent ≠ key ∧ (rows parent).isSome ∧
    ∃ columns, rows key = some columns ∧ definition.Points columns definition.name.text parent

namespace Batch
variable {definition : Definition} {rows : List PendingChange}

theorem mem_parents {columns : Columns} {key : Key} : key ∈ parents definition columns ↔
    definition.Points columns definition.name.text key ∧ definition.keyOf? columns ≠ some key := by
  have own : ∀ relationship : Relationship,
      relationship.target = definition.name ↔ relationship.target.text = definition.name.text :=
    fun relationship => ⟨congrArg _, EntityName.ext⟩
  simp only [parents, selfFields, List.mem_filter, List.mem_filterMap, List.mem_map, bne_iff_ne, beq_iff_eq,
    Definition.Points, own, Option.bind_eq_bind]
  grind

/-- Without cycles among rows with different keys, no row refers to a later one. -/
theorem rounds_ordered (rows : List PendingChange) (columnsOf : Key → Option Columns)
    (listed : ∀ row ∈ rows, ∃ key, definition.keyOf? row.columns = some key ∧ columnsOf key = some row.columns)
    (distinct : rows.Pairwise fun row other => definition.keyOf? row.columns ≠ definition.keyOf? other.columns)
    (acyclic : ∀ key, ¬Relation.TransGen (definition.SelfLink columnsOf) key key) :
    (rounds definition rows.length rows).Pairwise fun early late =>
      definition.keyOf? early.columns ≠ definition.keyOf? late.columns ∧
        ∀ key, definition.keyOf? late.columns = some key →
          ¬definition.Points early.columns definition.name.text key := by
  have linked : ∀ row parent, Listed definition rows row parent →
      definition.SelfLink columnsOf (definition.keyIn row.columns) (definition.keyIn parent.columns) := by
    rintro row parent ⟨hr, hp, key, child, isKey⟩
    obtain ⟨own, isOwn, held⟩ := listed row hr
    obtain ⟨key', isKey', held'⟩ := listed parent hp
    cases isKey.symm.trans isKey'
    obtain ⟨points, differs⟩ := mem_parents.1 child
    rw [isOwn, ne_eq, Option.some.injEq] at differs
    simp only [Definition.keyIn, isOwn, isKey, Option.getD_some]
    exact ⟨Ne.symm differs, by simp [held'], row.columns, held, points⟩
  have ordered : (rounds definition rows.length rows).Pairwise fun early late => ¬Child definition early late :=
    rounds_pairwise le_rfl fun row cycle =>
    acyclic _ (cycle.lift _ linked)
  have perm : (rounds definition rows.length rows).Perm rows := rounds_perm rows.length rows
  have apart := perm.symm.pairwise distinct fun differ => differ.symm
  refine (apart.and ordered).imp fun {early late} h => ⟨h.1, fun key isKey points => ?_⟩
  exact h.2 ⟨key, mem_parents.2 ⟨points, isKey ▸ h.1⟩, isKey⟩

/-- References of a row that lead to greater keys only. -/
def Ascends (definition : Definition) (columns : Columns) : Prop :=
  ∀ key ∈ definition.keyOf? columns, ∀ parent ∈ parents definition columns, compare key parent = .lt

instance {columns : Columns} : Decidable (Ascends definition columns) :=
  inferInstanceAs (Decidable (∀ key ∈ definition.keyOf? columns, ∀ parent ∈ parents definition columns,
    compare key parent = .lt))

theorem not_cycle_of_ascends {columnsOf : Key → Option Columns}
    (ascends : ∀ {key : Key} {columns : Columns}, columnsOf key = some columns →
      definition.keyOf? columns = some key ∧ Ascends definition columns) (key : Key) :
    ¬Relation.TransGen (definition.SelfLink columnsOf) key key := by
  have step : ∀ {key parent : Key}, definition.SelfLink columnsOf key parent → compare key parent = .lt := by
    rintro key parent ⟨differs, -, columns, held, points⟩
    obtain ⟨keyed, ascends⟩ := ascends held
    refine ascends key keyed parent (mem_parents.2 ⟨points, fun same => differs ?_⟩)
    exact Option.some.inj (same.symm.trans keyed)
  have rises : ∀ {last : Key}, Relation.TransGen (definition.SelfLink columnsOf) key last →
      compare key last = .lt := by
    intro last chain
    induction chain with
    | single link => exact step link
    | tail _ link ih => exact Std.TransCmp.lt_trans ih (step link)
  intro cycle
  have same : compare key key = .eq := Std.ReflCmp.compare_self
  cases same.symm.trans (rises cycle)

end Batch

namespace Transfer

/-- Of the rows that two transfers carry, the first does not refer to the second. -/
def Ordered (row : Transfer → Option (Key × Columns)) (early late : Transfer) : Prop :=
  ∀ {key other : Key} {columns others : Columns}, row early = some (key, columns) →
    row late = some (other, others) →
      (early.entity = late.entity → key ≠ other) ∧ ¬early.definition.Points columns late.entity other

/-- An insert comes after the rows to which it may not refer, and a delete only before deletes of rows
that do not refer to its row. -/
def InOrder (early late : Transfer) : Prop :=
  (late.source = none → early.Ordered target late) ∧
    (early.target = none → late.target = none ∧ late.Ordered source early)

end Transfer

/-- Transfers that carry rows with different keys, without cycles among these, are ordered by rounds. -/
theorem Batch.map_rounds_ordered {definition : Definition} {rows : List PendingChange}
    {row : Transfer → Option (Key × Columns)} {transferOf : PendingChange → Transfer}
    (columnsOf : Key → Option Columns)
    (carries : ∀ pending, (transferOf pending).definition = definition ∧
      row (transferOf pending) = some (definition.keyIn pending.columns, pending.columns))
    (listed : ∀ row ∈ rows, ∃ key, definition.keyOf? row.columns = some key ∧ columnsOf key = some row.columns)
    (distinct : rows.Pairwise fun row other => definition.keyOf? row.columns ≠ definition.keyOf? other.columns)
    (acyclic : ∀ key, ¬Relation.TransGen (definition.SelfLink columnsOf) key key) :
    ((rounds definition rows.length rows).map transferOf).Pairwise (Transfer.Ordered row) := by
  have ordered := rounds_ordered rows columnsOf listed distinct acyclic
  refine List.pairwise_map.2 (ordered.imp_of_mem fun {early late} he hl later => ?_)
  obtain ⟨key, isKey, -⟩ := listed early ((rounds_perm _ _).mem_iff.1 he)
  obtain ⟨key', isKey', -⟩ := listed late ((rounds_perm _ _).mem_iff.1 hl)
  intro place other columns others ht ht'
  simp only [carries, Definition.keyIn, isKey, isKey', Option.getD_some, Option.some.injEq, Prod.mk.injEq] at ht ht'
  obtain ⟨rfl, rfl⟩ := ht
  obtain ⟨rfl, rfl⟩ := ht'
  rw [isKey, isKey', ne_eq, Option.some.injEq] at later
  rw [Transfer.entity, Transfer.entity, (carries early).1, (carries late).1]
  exact ⟨fun _ => later.1, later.2 key' rfl⟩

namespace EntitySet
variable {set : EntitySet}

/-- The columns of the rows that were never persisted. -/
def insertedColumns (set : EntitySet) (key : Key) : Option Columns :=
  set.rows[key]?.bind fun slot => if slot.baseline.isNone then some slot.row.columns else none

theorem Tracked.insertTransfers_ordered (h : set.Tracked)
    (acyclic : ∀ key, ¬Relation.TransGen (set.definition.SelfLink set.insertedColumns) key key) :
    set.insertTransfers.Pairwise (Transfer.Ordered Transfer.target) := by
  refine Batch.map_rounds_ordered set.insertedColumns (fun _ => ⟨rfl, rfl⟩) (fun pending member => ?_) ?_ acyclic
  · obtain ⟨key, slot, marked, found, rfl⟩ := mem_inserts.1 member
    obtain ⟨_, found', fresh⟩ := h.inserted.1 marked
    cases found.symm.trans found'
    exact ⟨key, (h.row found).2, by simp [insertedColumns, found, fresh, insertChange]⟩
  · refine List.pairwise_filterMap.2 ((toList_nodup set.inserted).imp fun {key other} differ => ?_)
    intro pending hp pending' hp' same
    obtain ⟨slot, found, rfl⟩ := Option.map_eq_some_iff.1 hp
    obtain ⟨slot', found', rfl⟩ := Option.map_eq_some_iff.1 hp'
    simp only [insertChange, (h.row found).2, (h.row found').2, Option.some.injEq] at same
    exact differ same

theorem Tracked.deleteTransfers_ordered (h : set.Tracked)
    (acyclic : ∀ key, ¬Relation.TransGen (set.definition.SelfLink fun key => set.removed[key]?) key key) :
    set.deleteTransfers.Pairwise (Transfer.Ordered Transfer.source) := by
  refine Batch.map_rounds_ordered (fun key => set.removed[key]?) (fun _ => ⟨rfl, rfl⟩) (fun pending member => ?_) ?_
    acyclic
  · obtain ⟨key, columns, found, rfl⟩ := mem_deletes.1 member
    exact ⟨key, (h.removed found).2, found⟩
  · have apart := Std.ExtTreeMap.distinct_keys_toList (t := set.removed)
    refine List.pairwise_map.2 (apart.imp_of_mem fun {entry entry'} he he' differ => ?_)
    rw [Std.ExtTreeMap.mem_toList_iff_getElem?_eq_some] at he he'
    simp only [deleteChange, (h.removed he).2, (h.removed he').2, ne_eq, Option.some.injEq]
    exact fun same => differ (Std.compare_eq_iff_eq.2 same)

end EntitySet

namespace Graph
variable {graph : Graph}

/-- The references between rows of different entities have no cycle, nor have those among the new rows
or among the removed rows of one entity, except from a row to itself. -/
structure Acyclic (graph : Graph) : Prop where
  entities : ∀ name, ¬Relation.TransGen (SaveOrder.Refers graph.catalog.definitions) name name
  inserted : ∀ {name : String} {set : EntitySet}, graph.entities[name]? = some set →
    ∀ key, ¬Relation.TransGen (set.definition.SelfLink set.insertedColumns) key key
  removed : ∀ {name : String} {set : EntitySet}, graph.entities[name]? = some set →
    ∀ key, ¬Relation.TransGen (set.definition.SelfLink fun key => set.removed[key]?) key key

theorem Sound.sets_ordered (h : graph.Sound)
    (acyclic : ∀ name, ¬Relation.TransGen (SaveOrder.Refers graph.catalog.definitions) name name) :
    graph.sets.Pairwise fun early late => early.definition.name.text ≠ late.definition.name.text ∧
      ∀ columns key, ¬early.definition.Points columns late.definition.name.text key := by
  have ordered := SaveOrder.saveOrder_pairwise (Catalog.definitions_distinct graph.catalog) acyclic
  rw [← h.order, ← h.map_sets, List.pairwise_map] at ordered
  refine (h.sets_distinct.and ordered).imp fun {early late} later => ⟨later.1, ?_⟩
  rintro columns key ⟨relationship, declared, target, -⟩
  exact later.2 relationship declared target

/-- If the transfers of each entity are ordered, those of all entities in save order are. -/
theorem Sound.flatMap_ordered (h : graph.Sound) (row : Transfer → Option (Key × Columns))
    (part : EntitySet → List Transfer)
    (acyclic : ∀ name, ¬Relation.TransGen (SaveOrder.Refers graph.catalog.definitions) name name)
    (owned : ∀ set ∈ graph.sets, ∀ transfer ∈ part set, transfer.definition = set.definition)
    (ordered : ∀ set ∈ graph.sets, (part set).Pairwise (Transfer.Ordered row)) :
    (graph.sets.flatMap part).Pairwise (Transfer.Ordered row) := by
  refine List.pairwise_flatMap.2 ⟨ordered, ?_⟩
  refine (h.sets_ordered acyclic).imp_of_mem fun {set other} hs ho later => ?_
  intro early he late hl key key' columns columns' _ _
  rw [Transfer.entity, Transfer.entity, owned set hs early he, owned other ho late hl]
  exact ⟨fun same => absurd same later.1, later.2 columns key'⟩

theorem Sound.transfers_inOrder (h : graph.Sound) (acyclic : graph.Acyclic) :
    graph.transfers.Pairwise Transfer.InOrder := by
  have tracked : ∀ set ∈ graph.sets, set.Tracked := fun set member => h.tracked (h.mem_sets.1 member)
  have inserts := h.flatMap_ordered Transfer.target EntitySet.insertTransfers acyclic.entities
    (fun set member transfer listed => by
      obtain ⟨_, _, _, _, rfl⟩ := (tracked set member).mem_insertTransfers.1 listed
      rfl)
    fun set member => (tracked set member).insertTransfers_ordered (acyclic.inserted (h.mem_sets.1 member))
  have deletes := h.flatMap_ordered Transfer.source EntitySet.deleteTransfers acyclic.entities
    (fun set member transfer listed => by
      obtain ⟨_, _, _, rfl⟩ := (tracked set member).mem_deleteTransfers.1 listed
      rfl)
    fun set member => (tracked set member).deleteTransfers_ordered (acyclic.removed (h.mem_sets.1 member))
  have inserting : ∀ transfer ∈ graph.sets.flatMap EntitySet.insertTransfers, transfer.target ≠ none := by
    intro transfer member
    obtain ⟨set, member, listed⟩ := List.mem_flatMap.1 member
    obtain ⟨_, _, _, _, rfl⟩ := (tracked set member).mem_insertTransfers.1 listed
    simp [Transfer.target]
  have updating : ∀ transfer ∈ graph.sets.flatMap EntitySet.updateTransfers,
      transfer.source ≠ none ∧ transfer.target ≠ none := by
    intro transfer member
    obtain ⟨set, member, listed⟩ := List.mem_flatMap.1 member
    obtain ⟨_, _, _, _, _, _, _, _, rfl⟩ := (tracked set member).mem_updateTransfers.1 listed
    simp [Transfer.source, Transfer.target]
  have deleting : ∀ transfer ∈ (graph.sets.flatMap EntitySet.deleteTransfers).reverse,
      transfer.source ≠ none ∧ transfer.target = none := by
    intro transfer member
    obtain ⟨set, member, listed⟩ := List.mem_flatMap.1 (List.mem_reverse.1 member)
    obtain ⟨_, _, _, rfl⟩ := (tracked set member).mem_deleteTransfers.1 listed
    simp [Transfer.source, Transfer.target]
  unfold transfers
  rw [List.append_assoc, List.pairwise_append, List.pairwise_append]
  refine ⟨?_, ⟨?_, ?_, ?_⟩, ?_⟩
  · exact inserts.imp_of_mem fun {early late} he _ ordered =>
      ⟨fun _ => ordered, fun none => absurd none (inserting early he)⟩
  · exact List.pairwise_of_forall_mem_list fun early he late hl =>
      ⟨fun none => absurd none (updating late hl).1, fun none => absurd none (updating early he).2⟩
  · refine (List.pairwise_reverse.2 deletes).imp_of_mem fun {early late} _ hl ordered => ?_
    exact ⟨fun none => absurd none (deleting late hl).1, fun _ => ⟨(deleting late hl).2, ordered⟩⟩
  · exact fun early he late hl =>
      ⟨fun none => absurd none (deleting late hl).1, fun none => absurd none (updating early he).2⟩
  · intro early he late hl
    refine ⟨fun none => ?_, fun none => absurd none (inserting early he)⟩
    rcases List.mem_append.1 hl with hl | hl
    · exact absurd none (updating late hl).1
    · exact absurd none (deleting late hl).1

theorem Sound.inOrder_of_split (h : graph.Sound) (acyclic : graph.Acyclic) {before after : List Transfer}
    {transfer : Transfer} (split : graph.transfers = before ++ transfer :: after) :
    (∀ other ∈ before, other.InOrder transfer) ∧ ∀ other ∈ after, transfer.InOrder other := by
  have order := h.transfers_inOrder acyclic
  rw [split, List.pairwise_append, List.pairwise_cons] at order
  exact ⟨fun other member => order.2.2 other member transfer (by simp), order.2.1.1⟩

end Graph

namespace Graph
variable {graph : Graph} {backend : MemoryBackend}

/-- The tables hold what was persisted, no row changed its key since, the rows are complete, every
reference leads to a row of the graph, and references have no cycles. -/
structure Submittable (graph : Graph) (backend : MemoryBackend) : Prop where
  table : ∀ {name : String} {set : EntitySet}, graph.entities[name]? = some set →
    ∀ {key : Key} {columns : Columns}, backend.row? name key = some columns ↔ set.Persisted key columns
  settled : ∀ {name : String} {set : EntitySet}, graph.entities[name]? = some set →
    ∀ {key persisted : Key} {slot : Slot}, set.rows[key]? = some slot →
      set.persistedKey? slot = some persisted → persisted = key
  apart : ∀ {name : String} {set : EntitySet}, graph.entities[name]? = some set →
    ∀ {key : Key} {slot : Slot}, set.rows[key]? = some slot → set.removed[key]? = none
  required : ∀ {name : String} {set : EntitySet}, graph.entities[name]? = some set →
    ∀ {key : Key} {slot : Slot}, set.rows[key]? = some slot → slot.row.checkRequired = .ok ()
  resolved : ∀ {name : String} {set : EntitySet}, graph.entities[name]? = some set →
    ∀ {key principal : Key} {slot : Slot} {entity : String}, set.rows[key]? = some slot →
      set.definition.Points slot.row.columns entity principal →
        ∃ target row, graph.entities[entity]? = some target ∧ target.get? principal = some row
  acyclic : graph.Acyclic

theorem Submittable.inStep (h : graph.Submittable backend) : graph.InStep backend where
  distinct {name set} found :=
    { rows := fun {key other persisted slot slot'} hs hs' hp hp' =>
        (h.settled found hs' hp').symm.trans (h.settled found hs hp)
      removed := fun {key persisted slot} hs hp => by
        rw [h.settled found hs hp]
        exact h.apart found hs }
  table := h.table

/-- No transfer moves a row to another key. -/
theorem Submittable.stays (h : graph.Submittable backend) (sound : graph.Sound) {transfer : Transfer}
    (member : transfer ∈ graph.transfers) {name : String} {key : Key} (reaches : transfer.Reaches name key) :
    transfer.source = none ∨ transfer.Leaves name key := by
  obtain ⟨set, found, tracked, listed⟩ := sound.transfers_cases member
  obtain ⟨named, reached⟩ := reaches
  rcases listed with ⟨_, _, _, _, rfl⟩ | ⟨place, slot, source, baseline, hs, hb, -, stores, rfl⟩ | ⟨_, _, _, rfl⟩
  · exact .inl rfl
  · cases reached
    have same := h.settled found hs (EntitySet.persistedKey?_eq_some_iff.2 ⟨baseline, hb, stores.2⟩)
    exact .inr ⟨named, by rw [same]; rfl⟩
  · cases reached

section Middle
variable {before after : List Transfer} {transfer : Transfer} {tables : Tables}

/-- In the middle of a batch a row of the graph is in the tables, unless its insert is yet to come. -/
theorem Submittable.held (h : graph.Submittable backend) (sound : graph.Sound)
    (split : graph.transfers = before ++ transfer :: after)
    (carried : Transfer.Carried (graph.Resting backend.tables) before (transfer :: after) tables)
    {name : String} {set : EntitySet} {key : Key} {row : Row} (found : graph.entities[name]? = some set)
    (held : set.get? key = some row)
    (written : ∀ other ∈ transfer :: after, other.source = none → ¬other.Reaches name key) :
    ∃ columns, tables.row? name key = some columns := by
  obtain ⟨slot, hs, rfl⟩ := EntitySet.get?_eq_some_iff.1 held
  have kept : (set.get? key).map Row.columns = some slot.row.columns := by
    rw [EntitySet.get?_eq_some_iff.2 ⟨slot, hs, rfl⟩]
    rfl
  rcases (sound.row_iff found).1 kept with ⟨other, member, puts⟩ | ⟨slot', hs', hb, same⟩
  · rw [split, List.mem_append] at member
    rcases member with member | member
    · exact ⟨_, carried.row.2 (.inl ⟨other, member, puts⟩)⟩
    · -- an update that is yet to come finds the persisted row under the same key
      have listed : other ∈ graph.transfers := by
        rw [split, List.mem_append]
        exact .inr member
      rcases h.stays sound listed puts.reaches with fresh | leaves
      · exact absurd puts.reaches (written other member fresh)
      · obtain ⟨columns, takes⟩ := leaves.takes
        exact ⟨columns, carried.row.2 (.inr (.inl ⟨other, member, takes⟩))⟩
  · exact ⟨_, carried.row.2 (.inr (.inr (by simpa [Resting, found] using ⟨slot', hs', hb, same⟩)))⟩

/-- The references of a row that a transfer leaves behind lead to rows in the tables after it. -/
theorem Submittable.resolvedAfter (h : graph.Submittable backend) (sound : graph.Sound)
    (split : graph.transfers = before ++ transfer :: after)
    (carried : Transfer.Carried (graph.Resting backend.tables) before (transfer :: after) tables)
    {name : String} {set : EntitySet} {key : Key} {slot : Slot} (found : graph.entities[name]? = some set)
    (hs : set.rows[key]? = some slot) (puts : transfer.Puts name key slot.row.columns)
    (owned : transfer.definition = set.definition) {entity : String} {principal : Key}
    (points : set.definition.Points slot.row.columns entity principal) :
    ∃ others, (transfer.run tables).row? entity principal = some others := by
  obtain ⟨target, row, found', held⟩ := h.resolved found hs points
  by_cases own : transfer.Reaches entity principal
  · obtain ⟨named, reached⟩ := own
    obtain ⟨⟨place, others⟩, target, rfl⟩ := Option.map_eq_some_iff.1 reached
    exact ⟨others, Transfer.row?_run.2 (.inl ⟨named, target⟩)⟩
  · have member : transfer ∈ graph.transfers := by simp [split]
    have order := (sound.inOrder_of_split h.acyclic split).2
    obtain ⟨others, present⟩ := h.held sound split carried found' held fun other later fresh reaches => by
      rcases List.mem_cons.1 later with rfl | later
      · exact own reaches
      · obtain ⟨named, reached⟩ := reaches
        obtain ⟨⟨place, others⟩, target, rfl⟩ := Option.map_eq_some_iff.1 reached
        have unrelated := ((order other later).1 fresh puts.2 target).2
        rw [owned, named] at unrelated
        exact unrelated points
    refine ⟨others, Transfer.row?_run.2 (.inr ⟨own, fun leaves => own ?_, present⟩)⟩
    rcases h.stays sound member puts.reaches with fresh | leaves'
    · rw [Transfer.Leaves, fresh] at leaves
      cases leaves.2
    · cases leaves.1.symm.trans leaves'.1
      cases leaves.2.symm.trans leaves'.2
      exact puts.reaches

/-- A row of the graph refers only to rows of the graph, among which a removed one is not. -/
theorem Submittable.not_points_of_removed (h : graph.Submittable backend) {name other : String}
    {set owner : EntitySet}
    {key place : Key} {columns others : Columns} (found : graph.entities[name]? = some set)
    (removed : set.removed[key]? = some columns) (found' : graph.entities[other]? = some owner)
    (row : (owner.get? place).map Row.columns = some others) : ¬owner.definition.Points others name key := by
  intro points
  obtain ⟨_, held, rfl⟩ := Option.map_eq_some_iff.1 row
  obtain ⟨slot, hs, rfl⟩ := EntitySet.get?_eq_some_iff.1 held
  obtain ⟨target, row, found'', held'⟩ := h.resolved found' hs points
  cases found.symm.trans found''
  obtain ⟨slot', hs', -⟩ := EntitySet.get?_eq_some_iff.1 held'
  rw [h.apart found hs'] at removed
  cases removed

/-- No row in the tables refers to a row that is about to be deleted. -/
theorem Submittable.unreferenced (h : graph.Submittable backend) (sound : graph.Sound)
    (split : graph.transfers = before ++ transfer :: after)
    (carried : Transfer.Carried (graph.Resting backend.tables) before (transfer :: after) tables)
    {name : String} {set : EntitySet} {key : Key} {columns : Columns} (found : graph.entities[name]? = some set)
    (removed : set.removed[key]? = some columns) (deletes : transfer = .delete set.definition key columns)
    {dependent : Definition} {place : Key} {others : Columns}
    (registered : dependent ∈ graph.catalog.definitions)
    (present : tables.row? dependent.name.text place = some others)
    (points : dependent.Points others name key) :
    dependent.name.text = name ∧ place = key := by
  obtain ⟨owner, found', rfl⟩ : ∃ set, graph.entities[dependent.name.text]? = some set ∧
      set.definition = dependent := by
    rw [Catalog.mem_definitions, ← sound.definitions, Option.map_eq_some_iff] at registered
    exact registered
  have kept : (owner.get? place).map Row.columns ≠ some others := fun row =>
    h.not_points_of_removed found removed found' row points
  have order := (sound.inOrder_of_split h.acyclic split).2
  rcases carried.row.1 present with ⟨other, member, puts⟩ | ⟨other, member, takes⟩ | rests
  · refine absurd ((sound.row_iff found').2 (.inl ⟨other, ?_, puts⟩)) kept
    simp [split, member]
  · rcases List.mem_cons.1 member with rfl | later
    · subst deletes
      obtain ⟨named, taken⟩ := takes
      cases taken
      exact ⟨named.symm.trans (sound.name_eq found), rfl⟩
    · obtain ⟨named, taken⟩ := takes
      have last : transfer.target = none := by rw [deletes]; rfl
      have source : transfer.source = some (key, columns) := by rw [deletes]; rfl
      have unrelated := (((order other later).2 last).2 taken source).2
      have listed : other ∈ graph.transfers := by simp [split, later]
      have legal := sound.transfers_legal listed
      have same : other.definition = owner.definition := by
        have registered := legal.registered
        rw [named, ← sound.definitions, found'] at registered
        exact (Option.some.inj registered).symm
      have entity : transfer.entity = name := by
        rw [deletes]
        exact sound.name_eq found
      rw [same, entity] at unrelated
      exact absurd points unrelated
  · refine absurd ((sound.row_iff found').2 (.inr ?_)) kept
    simpa [Resting, found'] using rests

/-- The place of a new row is free. -/
theorem Submittable.vacant (h : graph.Submittable backend) (sound : graph.Sound)
    (split : graph.transfers = before ++ transfer :: after)
    (carried : Transfer.Carried (graph.Resting backend.tables) before (transfer :: after) tables)
    {name : String} {set : EntitySet} {key : Key} {slot : Slot} (found : graph.entities[name]? = some set)
    (hs : set.rows[key]? = some slot) (fresh : slot.baseline = none)
    (inserts : transfer = .insert set.definition key slot.row.columns) : tables.row? name key = none := by
  have unsaved : ∀ {columns : Columns}, ¬set.Persisted key columns := by
    rintro columns (⟨place, slot', hs', hb, isKey⟩ | removed)
    · cases h.settled found hs' (EntitySet.persistedKey?_eq_some_iff.2 ⟨columns, hb, isKey⟩)
      cases hs.symm.trans hs'
      rw [fresh] at hb
      cases hb
    · rw [h.apart found hs] at removed
      cases removed
  have order := (sound.inOrder_of_split h.acyclic split).1
  refine Option.eq_none_iff_forall_ne_some.2 fun columns present => ?_
  rcases carried.row.1 present with ⟨other, member, named, target⟩ | ⟨other, member, takes⟩ | rests
  · have earlier := (order other member).1 (by rw [inserts]; rfl) target
      (by rw [inserts]; rfl)
    have entity : transfer.entity = name := by
      rw [inserts]
      exact sound.name_eq found
    exact earlier.1 (named.trans entity.symm) rfl
  · have member : other ∈ graph.transfers := by
      rw [split, List.mem_append]
      exact .inr member
    exact unsaved ((sound.persisted_iff found).2 (.inl ⟨other, member, takes⟩))
  · refine unsaved (show set.Persisted key columns from (sound.persisted_iff found).2 (.inr ?_))
    simpa [Resting, found] using rests

/-- Every transfer of a save is accepted when its turn comes. -/
theorem Submittable.accepted (h : graph.Submittable backend) (sound : graph.Sound)
    (registered : backend.catalog = graph.catalog)
    (split : graph.transfers = before ++ transfer :: after)
    (carried : Transfer.Carried (graph.Resting backend.tables) before (transfer :: after) tables) :
    transfer.Accepted backend tables := by
  have member : transfer ∈ graph.transfers := by simp [split]
  obtain ⟨set, found, tracked, listed⟩ := sound.transfers_cases member
  rcases listed with ⟨key, slot, hs, fresh, rfl⟩ | ⟨key, slot, source, baseline, hs, hb, changed, stores, rfl⟩ |
    ⟨key, columns, removed, rfl⟩
  · refine ⟨?_, h.vacant sound split carried found hs fresh rfl, ?_⟩
    · rw [← tracked.definition hs]
      exact h.required found hs
    · exact MemoryBackend.checkReferences_eq_ok_iff.2 fun _ _ _ points =>
        h.resolvedAfter sound split carried found hs ⟨rfl, rfl⟩ rfl points
  · have same : key = source :=
      (h.settled found hs (EntitySet.persistedKey?_eq_some_iff.2 ⟨baseline, hb, stores.2⟩)).symm
    refine ⟨fun {name value} written refused => ?_, ?_, ?_⟩
    · have present := Row.filled_of_checkRequired (h.required found hs) _ _ (mem_changedColumns.1 written).1
        (by rw [tracked.definition hs]; exact refused.2)
      rw [refused.1] at present
      cases present
    · simp [MemoryBackend.checkMove, same]
    · exact MemoryBackend.checkReferences_eq_ok_iff.2 fun _ _ _ points =>
        h.resolvedAfter sound split carried found hs ⟨rfl, rfl⟩ rfl points
  · refine MemoryBackend.checkUnreferenced_eq_ok_iff.2 fun _ dependent place others hd present points => ?_
    rw [registered] at hd
    exact h.unreferenced sound split carried found removed rfl hd present points

end Middle

/-- The batch of a save runs through. -/
theorem Submittable.applied (h : graph.Submittable backend) (sound : graph.Sound)
    (registered : backend.catalog = graph.catalog) :
    ∃ tables, backend.applyAll backend.tables (graph.transfers.map Transfer.change) =
      (.ok graph.transfers.length, tables) := by
  refine (sound.carried h.inStep).applyAll_of_accepted (fun transfer member => ?_) ?_
  · rw [registered]
    exact sound.transfers_legal member
  · exact fun before after transfer tables split carried =>
      h.accepted sound registered split (by simpa using carried)

theorem save_of_empty (none : graph.pendingChanges = []) : graph.save backend = (.ok 0, graph, backend) := by
  simp [save, none]

/-- A save of a valid batch answers what the backend answers to the batch. -/
theorem save_of_valid (some : graph.pendingChanges ≠ [])
    (valid : Change.validateAll graph.catalog graph.pendingChanges = .ok ()) {backend' : MemoryBackend}
    {outcome : Except BackendError Nat}
    (submitted : backend.submit graph.pendingChanges = (outcome, backend')) :
    (graph.save backend).1 = outcome.mapError .ofSubmit ∧ (graph.save backend).2.2 = backend' ∧
      (graph.save backend).2.1 = if outcome.isOk then graph.dropChanges else graph := by
  have nonempty : graph.pendingChanges.isEmpty = false := by simpa using some
  change Backend.submit backend graph.pendingChanges = (outcome, backend') at submitted
  simp only [save, nonempty, valid, ite_self, Bool.false_eq_true, if_false, submitted]
  cases outcome <;> exact ⟨rfl, rfl, rfl⟩

/-- A save of a submittable graph succeeds with the number of its changes. Only a backend that is
offline refuses it, and then nothing changes. -/
theorem Reachable.save_accepted {catalog : Catalog} {config : GraphConfig}
    (reachable : Reachable catalog config graph) (registered : backend.catalog = catalog)
    (submittable : graph.Submittable backend) (idle : graph.commands = []) :
    (backend.available = true ∨ graph.pendingChanges = [] →
      ∃ after backend', graph.save backend = (.ok graph.pendingChanges.length, after, backend')) ∧
    (backend.available = false → graph.pendingChanges ≠ [] →
      graph.save backend = (.error (.backend (.unavailable "memory backend is offline")), graph, backend)) := by
  have sound := reachable.sound
  have changes := sound.pendingChanges_eq
  rw [idle, List.append_nil] at changes
  have valid := sound.transfers_valid
  rw [← changes] at valid
  by_cases none : graph.pendingChanges = []
  · refine ⟨fun _ => ⟨graph, backend, ?_⟩, fun _ some => absurd none some⟩
    rw [save_of_empty none, none]
    rfl
  · constructor
    · intro online
      obtain ⟨tables, applied⟩ := submittable.applied sound (registered.trans reachable.catalog_eq.symm)
      have counted : graph.pendingChanges.length = graph.transfers.length := by
        rw [changes, List.length_map]
      rw [← changes, ← counted] at applied
      have submitted : backend.submit graph.pendingChanges =
          (.ok graph.pendingChanges.length,
            { backend with tables, batches := backend.batches ++ [graph.pendingChanges] }) := by
        simp [MemoryBackend.submit, MemoryBackend.checkAvailable, online.resolve_right none, applied]
      obtain ⟨outcome, -, -⟩ := save_of_valid none valid submitted
      exact ⟨_, _, Prod.ext outcome rfl⟩
    · intro offline _
      have submitted : backend.submit graph.pendingChanges =
          (.error (.unavailable "memory backend is offline"), backend) := by
        simp [MemoryBackend.submit, MemoryBackend.checkAvailable, offline]
      obtain ⟨outcome, same, kept⟩ := save_of_valid none valid submitted
      exact Prod.ext outcome (Prod.ext kept same)

/-- What a save asks of a row: it stands under the key that was persisted, no removal of this key is pending, it is
complete, and its references lead to rows of the graph. -/
def Ready (graph : Graph) (set : EntitySet) (key : Key) (slot : Slot) : Prop :=
  (∀ persisted ∈ set.persistedKey? slot, persisted = key) ∧ set.removed[key]? = none ∧
    slot.row.checkRequired = .ok () ∧ ∀ relationship ∈ set.definition.relationships,
      ∀ principal ∈ slot.row.columns[relationship.field]?.bind Key.ofValue?,
        (graph.entities[relationship.target.text]?.bind fun target => target.get? principal).isSome = true

instance {set : EntitySet} {key : Key} {slot : Slot} : Decidable (graph.Ready set key slot) := instDecidableAnd

/-- What can be checked of a graph row by row before a save. That references lead to greater keys is more than
a save asks, which is only that they have no cycle. -/
def Prepared (graph : Graph) (backend : MemoryBackend) : Prop :=
  graph.InStep backend ∧ ∀ owner ∈ graph.entities.toList,
    (∀ entry ∈ owner.2.rows.toList, graph.Ready owner.2 entry.1 entry.2 ∧
      Batch.Ascends owner.2.definition entry.2.row.columns) ∧
    ∀ entry ∈ owner.2.removed.toList, Batch.Ascends owner.2.definition entry.2

instance : Decidable (graph.Prepared backend) := instDecidableAnd

theorem Prepared.submittable (h : graph.Prepared backend) (sound : graph.Sound)
    (acyclic : ∀ name, ¬Relation.TransGen (SaveOrder.Refers graph.catalog.definitions) name name) :
    graph.Submittable backend := by
  obtain ⟨inStep, each⟩ := h
  simp only [Prod.forall, Std.ExtTreeMap.mem_toList_iff_getElem?_eq_some] at each
  have ready : ∀ {name : String} {set : EntitySet}, graph.entities[name]? = some set →
      ∀ {key : Key} {slot : Slot}, set.rows[key]? = some slot → graph.Ready set key slot :=
    fun found _ _ hs => ((each _ _ found).1 _ _ hs).1
  refine ⟨inStep.table, fun found _ _ _ hs hp => (ready found hs).1 _ hp, fun found _ _ hs => (ready found hs).2.1,
    fun found _ _ hs => (ready found hs).2.2.1, fun found _ _ _ _ hs points => ?_, acyclic, ?_, ?_⟩
  · obtain ⟨relationship, declared, rfl, leads⟩ := points
    obtain ⟨row, held⟩ := Option.isSome_iff_exists.1 ((ready found hs).2.2.2 relationship declared _ leads)
    obtain ⟨target, found', held⟩ := Option.bind_eq_some_iff.1 held
    exact ⟨target, row, found', held⟩
  · intro name set found
    refine Batch.not_cycle_of_ascends fun {key columns} held => ?_
    obtain ⟨slot, hs, fresh⟩ := Option.bind_eq_some_iff.1 held
    split_ifs at fresh
    cases fresh
    exact ⟨((sound.tracked found).row hs).2, ((each name set found).1 key slot hs).2⟩
  · intro name set found
    exact Batch.not_cycle_of_ascends fun {key columns} removed =>
      ⟨((sound.tracked found).removed removed).2, (each name set found).2 key columns removed⟩

end Graph

namespace Forest

/-- Nodes refer to nodes only. -/
theorem refers_irrefl {name other : String} : ¬SaveOrder.Refers catalog.definitions name other := by
  rintro ⟨definition, registered, rfl, differs, relationship, declared, rfl⟩
  have member := mem_of_getElem?_ofList (Catalog.mem_definitions.1 registered)
  simp only [List.mem_singleton, Prod.mk.injEq] at member
  obtain ⟨-, rfl⟩ := member
  simp only [node, List.mem_singleton] at declared
  subst declared
  exact differs rfl

theorem submittable_of_prepared {graph : Graph} {backend : MemoryBackend}
    (reachable : Graph.Reachable catalog {} graph) (prepared : graph.Prepared backend) : graph.Submittable backend := by
  refine prepared.submittable reachable.sound fun name cycle => ?_
  rw [reachable.catalog_eq] at cycle
  obtain ⟨other, refers, -⟩ := Relation.TransGen.head'_iff.1 cycle
  exact refers_irrefl refers

/-- What a save of the thinned nodes submits: the parent of the new nodes first, the child of the removed ones
first. -/
def thinnedBatch : List Change :=
  [.insert nodeName (columns 6 .null), .insert nodeName (columns 5 (.integer 6)),
    .update nodeName (.ofList [("id", Value.integer 2)]) (.ofList [("parent", Value.integer 5)]),
    .delete nodeName (.ofList [("id", Value.integer 3)]), .delete nodeName (.ofList [("id", Value.integer 4)])]

theorem prepared_run : planted.Prepared ((MemoryBackend.empty catalog true).setAvailable false) ∧
    planted.commands = [] ∧
    (planted.save ((MemoryBackend.empty catalog true).setAvailable false)).1 =
      .error (.backend (.unavailable "memory backend is offline")) ∧
    thinned.Prepared copse ∧ thinned.commands = [] ∧ thinned.pendingChanges = thinnedBatch := by
  decide +kernel

theorem thinned_save_accepted : thinned.pendingChanges = thinnedBatch ∧
    ∃ after backend, thinned.save copse = (.ok thinnedBatch.length, after, backend) := by
  obtain ⟨-, -, -, prepared, idle, batch⟩ := prepared_run
  have accepted := (Graph.Reachable.save_accepted thinned_reachable rfl
    (submittable_of_prepared thinned_reachable prepared) idle).1 (.inl rfl)
  rw [batch] at accepted
  exact ⟨batch, accepted⟩

/-- A planted node is not saved while the backend is offline. -/
theorem planted_save_refused : ∃ backend : MemoryBackend,
    Graph.Reachable catalog {} planted ∧ backend.catalog = catalog ∧ backend.enforcing = true ∧
      planted.Submittable backend ∧ planted.commands = [] ∧
        (¬∃ affected after backend', planted.save backend = (.ok affected, after, backend')) ∧
          (planted.save backend).1 = .error (.backend (.unavailable "memory backend is offline")) := by
  obtain ⟨prepared, idle, refused, -⟩ := prepared_run
  refine ⟨_, planted_reachable, rfl, rfl, submittable_of_prepared planted_reachable prepared, idle, ?_, refused⟩
  rintro ⟨affected, after, backend, ok⟩
  rw [ok] at refused
  cases refused

end Forest
end EntityGraph
