import EntityGraph.Proofs.Atomicity

/-! # Insert and remove cancel

A row that is put under a free key and taken out again leaves its entity as it was, whether the key was
never used or belongs to a removed row. And a row that takes the place of another one leaves what it
would leave had the other one been removed first: whether it inherits the baseline from the row that it
replaces or from the removed row, the marks and the groups come out the same. -/
namespace EntityGraph

namespace EntitySet
variable {set set' : EntitySet} {key other : Key} {slot : Slot} {row : Row}

/-- Entities with the same rows, marks and removed rows are the same. -/
theorem eq_of_lookups (definition : set.definition = set'.definition) (loaded : set.loaded = set'.loaded)
    (rows : ∀ key : Key, set.rows[key]? = set'.rows[key]?)
    (inserted : ∀ key, key ∈ set.inserted ↔ key ∈ set'.inserted)
    (updated : ∀ key, key ∈ set.updated ↔ key ∈ set'.updated)
    (removed : ∀ key : Key, set.removed[key]? = set'.removed[key]?) : set = set' := by
  have rows := Std.ExtTreeMap.ext_getElem? rows
  have inserted := Std.ExtTreeSet.ext_mem inserted
  have updated := Std.ExtTreeSet.ext_mem updated
  have removed := Std.ExtTreeMap.ext_getElem? removed
  cases set
  cases set'
  simp_all

theorem insert_loaded : (set.insert key row).loaded = set.loaded := by
  rw [insert_eq]
  unfold markUpdated
  split_ifs <;> rfl

/-- A removed row takes its baseline back to its own key. -/
theorem Tracked.persistedKey?_removed (h : set.Tracked) :
    set.persistedKey? ⟨row, set.removed[key]?⟩ = if set.removed[key]? = none then none else some key := by
  cases pending : set.removed[key]? with
  | none => rfl
  | some columns => simpa [persistedKey?] using (h.removed pending).2

/-- Taking a row out erases what putting it under a free key wrote. -/
theorem Tracked.take_insert (h : set.Tracked) (absent : set.rows[key]? = none) :
    (set.insert key row).take key ⟨row, set.removed[key]?⟩ = set := by
  obtain ⟨inserted, updated, loaded⟩ := @take_rest (set.insert key row) key ⟨row, set.removed[key]?⟩
  have unmarked : key ∉ set.inserted ∧ key ∉ set.updated := by
    simp [h.inserted, h.updated, absent]
  refine eq_of_lookups (take_definition.trans insert_definition) (loaded.trans insert_loaded)
    (fun other => ?_) (fun other => ?_) (fun other => ?_) fun other => ?_
  · rw [take_rows, insert_rows]
    grind
  · rw [inserted, Std.ExtTreeSet.mem_erase, mem_insert_inserted]
    grind
  · rw [updated, Std.ExtTreeSet.mem_erase, mem_insert_updated h.notMem_inserted]
    grind
  · have owner : (set.insert key row).persistedKey? ⟨row, set.removed[key]?⟩ =
        set.persistedKey? ⟨row, set.removed[key]?⟩ := by
      unfold persistedKey?
      rw [insert_definition]
    rw [take_removed, insert_removed, owner, h.persistedKey?_removed]
    grind

/-- A row takes over the same baseline from a row that it replaces and from the removed row, as long as
the row was persisted under this key, if at all. -/
theorem inherited_take (found : set.rows[key]? = some slot)
    (own : slot.baseline = none ∨ set.persistedKey? slot = some key) (unremoved : set.removed[key]? = none) :
    (set.take key slot).inherited key = set.inherited key := by
  have absent : (set.take key slot).rows[key]? = none := by simp [take_rows]
  rw [inherited_of_absent absent, inherited_of_row found, take_removed, unremoved]
  grind

/-- Replacing a row is removing it first. -/
theorem Tracked.insert_take (h : set.Tracked) (writable : set.definition.readOnly = false)
    (found : set.rows[key]? = some slot) (own : slot.baseline = none ∨ set.persistedKey? slot = some key)
    (unremoved : set.removed[key]? = none) :
    (set.take key slot).insert key row = set.insert key row := by
  obtain ⟨inserted, updated, loaded⟩ := @take_rest set key slot
  have inherits := inherited_take found own unremoved
  have absent : (set.take key slot).rows[key]? = none := by simp [take_rows]
  refine eq_of_lookups ?_ ?_ (fun other => ?_) (fun other => ?_) (fun other => ?_) fun other => ?_
  · rw [insert_definition, insert_definition, take_definition]
  · rw [insert_loaded, insert_loaded, loaded]
  · rw [insert_rows, insert_rows, take_rows, inherits]
    grind
  · rw [mem_insert_inserted, mem_insert_inserted, inherits, inserted]
    have marked := @h.inserted key
    grind [inherited_of_row]
  · rw [mem_insert_updated (h.take writable found).notMem_inserted, mem_insert_updated h.notMem_inserted,
      inherits, updated]
    grind
  · rw [insert_removed, insert_removed, take_removed, found]
    grind [persistedKey?_eq_some_iff]

end EntitySet

namespace Graph
variable {graph : Graph} {name : String} {set : EntitySet} {key : Key} {row : Row}

/-- A row that has a key is put under it. -/
theorem insert_of_key (h : graph.Indexed) (found : graph.entities[name]? = some set)
    (writable : set.definition.readOnly = false) (definition : row.definition = set.definition)
    (hkey : row.key? = some key) (generated : Int64) :
    graph.insert row generated = (.ok key, graph.put name (set.insert key row)
      ((set.ungroup graph.groups key).indexRow set.definition key row.columns)) := by
  have owner : row.entity = name := by rw [Row.entity, definition, h.filed found]
  have own : keyed set.definition row generated = .ok (key, row) := by
    simp [keyed, fillKey, wantsKey, hkey, bind, Except.bind]
  unfold Graph.insert
  simp only [owner, writable_eq_ok_iff.2 ⟨set, found, writable, rfl⟩, own]
  unfold place
  simp only [h.filed found, entity_eq_ok_iff.2 found]
  rfl

theorem put_groups (found : graph.entities[name]? = some set) (groups : Groups) :
    graph.put name set groups = { graph with groups } :=
  congrArg (fun same : Graph => { same with groups }) (put_self found)

/-- An insert under a free key and the removal of the row leave only the groups to be compared. -/
theorem remove_after_insert (h : graph.Indexed) (tracked : set.Tracked) (found : graph.entities[name]? = some set)
    (writable : set.definition.readOnly = false) (definition : row.definition = set.definition)
    (hkey : row.key? = some key) (generated : Int64) (absent : set.rows[key]? = none) :
    ∃ placed, graph.insert row generated = (.ok key, placed) ∧
      placed.remove name key = (.ok row, { graph with
        groups := (graph.groups.indexRow set.definition key row.columns).unindexRow set.definition key
          row.columns }) := by
  have inserted := insert_of_key h found writable definition hkey generated
  rw [EntitySet.ungroup_of_absent absent] at inserted
  refine ⟨_, inserted, ?_⟩
  have indexed := h.insert row generated
  rw [inserted] at indexed
  have held : (set.insert key row).rows[key]? = some ⟨row, set.removed[key]?⟩ := by
    rw [EntitySet.insert_rows, EntitySet.inherited_of_absent absent, Std.ExtTreeMap.getElem?_insert_self]
  rw [remove_of_row indexed (by rw [put_entities, if_pos rfl]) (by rwa [EntitySet.insert_definition]) held,
    tracked.take_insert absent, put_put, EntitySet.ungroup_of_row held, EntitySet.insert_definition,
    put_groups found]
  rfl

/-- A removal and the insert of another row under the key leave what the insert alone does. -/
theorem insert_after_removal (h : graph.Indexed) (tracked : set.Tracked) (found : graph.entities[name]? = some set)
    (writable : set.definition.readOnly = false) (definition : row.definition = set.definition)
    (hkey : row.key? = some key) (generated : Int64) {slot : Slot} (held : set.rows[key]? = some slot)
    (own : slot.baseline = none ∨ set.persistedKey? slot = some key) (unremoved : set.removed[key]? = none) :
    ∃ taken, graph.remove name key = (.ok slot.row, taken) ∧
      taken.insert row generated = graph.insert row generated := by
  have removed := remove_of_row h found writable held
  refine ⟨_, removed, ?_⟩
  have indexed := h.remove name key
  rw [removed] at indexed
  have absent : (set.take key slot).rows[key]? = none := by simp [EntitySet.take_rows]
  rw [insert_of_key indexed (by rw [put_entities, if_pos rfl]) (by rwa [EntitySet.take_definition])
      (by rwa [EntitySet.take_definition]) hkey,
    insert_of_key h found writable definition hkey, EntitySet.ungroup_of_absent absent,
    tracked.insert_take writable held own unremoved, put_put, EntitySet.take_definition]
  rfl

/-- A row in no group that joins its groups and leaves them leaves the groups as they were. -/
theorem Coherent.member_restored (h : graph.Coherent) (sound : graph.Sound)
    (found : graph.entities[name]? = some set) (absent : set.rows[key]? = none) {columns : Columns}
    {link : Link} {principal member : Key} :
    ((graph.groups.indexRow set.definition key columns).unindexRow set.definition key columns).Member
        link principal member ↔ graph.groups.Member link principal member := by
  have free : (link, principal) ∈ Groups.principals set.definition columns →
      ¬graph.groups.Member link principal key := by
    intro selected grouped
    obtain ⟨relationship, -, rfl, -⟩ := Groups.mem_principals_iff.1 selected
    obtain ⟨row, hrow, -⟩ := (h.grouped sound found rfl).1 grouped
    rw [EntitySet.get?_eq_none_iff.2 absent] at hrow
    cases hrow
  rw [Groups.member_unindexRow, Groups.member_indexRow]
  grind

/-- Inserting a row under a key without a row and removing it again gives the row back and restores the
graph, also where the removal of the key is pending. Inserting a row under the key of another one that was
persisted under this key, or never, leaves the graph that it leaves after the other one was removed. -/
theorem Reachable.insert_remove {catalog : Catalog} {config : GraphConfig}
    (reachable : Reachable catalog config graph) (found : graph.entities[name]? = some set)
    (writable : set.definition.readOnly = false) (definition : row.definition = set.definition)
    (hkey : row.key? = some key) (generated : Int64) :
    (set.get? key = none → ∃ placed groups, graph.insert row generated = (.ok key, placed) ∧
      placed.remove name key = (.ok row, { graph with groups }) ∧
      ∀ (entity relationship : String) (principal : Key),
        groups.members entity relationship principal = graph.groups.members entity relationship principal) ∧
    ∀ slot : Slot, set.rows[key]? = some slot →
      (slot.baseline = none ∨ set.persistedKey? slot = some key) → set.removed[key]? = none →
      ∃ taken replaced, graph.remove name key = (.ok slot.row, taken) ∧
        taken.insert row generated = (.ok key, replaced) ∧ graph.insert row generated = (.ok key, replaced) := by
  have sound := reachable.sound
  have indexed := reachable.visited.indexed
  have tracked := sound.tracked found
  constructor
  · intro absent
    rw [EntitySet.get?_eq_none_iff] at absent
    obtain ⟨placed, inserted, removed⟩ :=
      remove_after_insert indexed tracked found writable definition hkey generated absent
    exact ⟨placed, _, inserted, removed,
      Groups.members_eq_of_member (reachable.coherent.member_restored sound found absent)⟩
  · intro slot held own unremoved
    obtain ⟨taken, removed, same⟩ :=
      insert_after_removal indexed tracked found writable definition hkey generated held own unremoved
    have inserted := insert_of_key indexed found writable definition hkey generated
    exact ⟨taken, _, removed, same.trans inserted, inserted⟩

end Graph

namespace Forest

/-- A forest whose only node waits to be deleted. -/
def felled : Graph := (rooted.remove "node" (.integer 1)).2

theorem felled_reachable : Graph.Reachable catalog {} felled := .step rooted_reachable (.remove ..)

/-- A node that is its own parent, under the key of the deleted node and in place of the persisted one. -/
theorem felled_insert_remove :
    (∃ set, felled.entities["node"]? = some set ∧ set.get? (.integer 1) = none ∧
      set.removed[Key.integer 1]? = some (columns 1 .null)) ∧
    (∃ placed groups, felled.insert ⟨node, 1, columns 1 (.integer 1)⟩ 0 = (.ok (.integer 1), placed) ∧
      placed.remove "node" (.integer 1) = (.ok ⟨node, 1, columns 1 (.integer 1)⟩, { felled with groups }) ∧
      ∀ (entity relationship : String) (principal : Key),
        groups.members entity relationship principal = felled.groups.members entity relationship principal) ∧
    ∃ taken replaced, rooted.remove "node" (.integer 1) = (.ok ⟨node, 0, columns 1 .null⟩, taken) ∧
      taken.insert ⟨node, 1, columns 1 (.integer 1)⟩ 0 = (.ok (.integer 1), replaced) ∧
      rooted.insert ⟨node, 1, columns 1 (.integer 1)⟩ 0 = (.ok (.integer 1), replaced) := by
  have content : (felled.entities["node"]?.map fun set => (set.get? (.integer 1), set.removed[Key.integer 1]?)) =
        some (none, some (columns 1 .null)) ∧
      (rooted.entities["node"]?.map fun set => (set.rows[Key.integer 1]?, set.removed[Key.integer 1]?)) =
        some (some ⟨⟨node, 0, columns 1 .null⟩, some (columns 1 .null)⟩, none) ∧
      node.keyOf? (columns 1 .null) = some (.integer 1) ∧
      (⟨node, 1, columns 1 (.integer 1)⟩ : Row).key? = some (.integer 1) := by decide +kernel
  obtain ⟨away, standing, persisted, hkey⟩ := content
  obtain ⟨set, found, away⟩ := Option.map_eq_some_iff.1 away
  obtain ⟨set', found', standing⟩ := Option.map_eq_some_iff.1 standing
  obtain ⟨absent, pending⟩ := Prod.mk.inj away
  obtain ⟨held, unremoved⟩ := Prod.mk.inj standing
  obtain ⟨-, definition⟩ := node_of_found felled_reachable found
  obtain ⟨-, definition'⟩ := node_of_found rooted_reachable found'
  refine ⟨⟨set, found, absent, pending⟩, ?_, ?_⟩
  · exact (Graph.Reachable.insert_remove felled_reachable found (by rw [definition]; rfl) definition.symm hkey
      0).1 absent
  · refine (Graph.Reachable.insert_remove rooted_reachable found' (by rw [definition']; rfl) definition'.symm hkey
      0).2 _ held (.inr ?_) unremoved
    rw [EntitySet.persistedKey?, definition', Option.bind_some, persisted]

end Forest
end EntityGraph
