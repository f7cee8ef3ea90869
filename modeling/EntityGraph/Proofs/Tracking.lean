import EntityGraph.EntitySet
import EntityGraph.Groups
import EntityGraph.Proofs.Typing

/-! # Tracking of pending changes

The events that rows of an entity can go through, and the invariant that all of them keep: rows are
stored under their keys, and the marks say exactly which rows were never persisted and which differ
from what was persisted. -/
namespace EntityGraph

/-- Complete, typed columns that hold a key. -/
def Definition.Stores (definition : Definition) (key : Key) (columns : Columns) : Prop :=
  definition.Fits columns ∧ definition.keyOf? columns = some key

namespace Definition.Stores
variable {definition : Definition} {key : Key} {columns : Columns}

/-- The key field of a row holds its key. -/
theorem keyField (stores : definition.Stores key columns) : columns[definition.key]? = some key.toValue := by
  obtain ⟨value, held, isKey⟩ := Option.bind_eq_some_iff.1 stores.2
  rw [held, Key.ofValue?_eq_some_iff.1 isKey]

theorem holds_key (stores : definition.Stores key columns) : definition.Holds definition.key key.toValue :=
  stores.1.typed stores.keyField

end Definition.Stores

/-- A row whose current values count as persisted. -/
def Slot.accepted (slot : Slot) : Slot := ⟨slot.row, some slot.row.columns⟩

/-- A row one of whose fields took a value. -/
def Slot.written (slot : Slot) (field : String) (value : Value) : Slot :=
  { slot with row := { slot.row with columns := slot.row.columns.insert field value } }

namespace EntitySet
variable {set : EntitySet} {key : Key} {slot : Slot}

@[simp] theorem get?_eq_some_iff {row : Row} :
    set.get? key = some row ↔ ∃ slot, set.rows[key]? = some slot ∧ slot.row = row := by
  simp [get?]

@[simp] theorem get?_eq_none_iff : set.get? key = none ↔ set.rows[key]? = none := by simp [get?]

theorem contains_iff : set.contains key = true ↔ ∃ row, set.get? key = some row := by
  simp [contains, get?, mem_iff_exists_getElem?]

@[simp] theorem markUpdated_rows : (set.markUpdated key).rows = set.rows := by
  unfold markUpdated; split_ifs <;> rfl

@[simp] theorem markUpdated_definition : (set.markUpdated key).definition = set.definition := by
  unfold markUpdated; split_ifs <;> rfl

@[simp] theorem markUpdated_inserted : (set.markUpdated key).inserted = set.inserted := by
  unfold markUpdated; split_ifs <;> rfl

@[simp] theorem markUpdated_removed : (set.markUpdated key).removed = set.removed := by
  unfold markUpdated; split_ifs <;> rfl

theorem isUnchanged_iff :
    set.isUnchanged key = true ↔ ∃ slot, set.rows[key]? = some slot ∧ slot.baseline = some slot.row.columns := by
  cases h : set.rows[key]? <;> simp [isUnchanged, h]

theorem mem_markUpdated_updated {other : Key} :
    other ∈ (set.markUpdated key).updated ↔
      if other = key ∧ key ∉ set.inserted then ¬set.isUnchanged key = true else other ∈ set.updated := by
  unfold markUpdated
  grind

/-- The bookkeeping of an entity whose rows come from its own definition. -/
structure Tracked (set : EntitySet) : Prop where
  definition : ∀ {key : Key} {slot : Slot}, set.rows[key]? = some slot → slot.row.definition = set.definition
  row : ∀ {key : Key} {slot : Slot}, set.rows[key]? = some slot → set.definition.Stores key slot.row.columns
  baseline : ∀ {key : Key} {slot : Slot} {columns : Columns}, set.rows[key]? = some slot →
    slot.baseline = some columns → ∃ persisted, set.definition.Stores persisted columns
  removed : ∀ {key : Key} {columns : Columns}, set.removed[key]? = some columns → set.definition.Stores key columns
  inserted : ∀ {key : Key}, key ∈ set.inserted ↔
    ∃ slot, set.rows[key]? = some slot ∧ slot.baseline = none
  updated : ∀ {key : Key}, key ∈ set.updated ↔
    ∃ slot columns, set.rows[key]? = some slot ∧ slot.baseline = some columns ∧ columns ≠ slot.row.columns
  readOnly : set.definition.readOnly = true → set.isDirty = false

theorem isDirty_eq_false_iff :
    set.isDirty = false ↔ set.inserted = ∅ ∧ set.updated = ∅ ∧ set.removed = ∅ := by
  simp [isDirty, and_assoc]

theorem empty_tracked (definition : Definition) : (empty definition).Tracked := by
  constructor <;> simp [empty, isDirty]

/-- A row without a mark is as persisted. -/
theorem Tracked.clean (h : set.Tracked) (hi : key ∉ set.inserted) (hu : key ∉ set.updated)
    (hs : set.rows[key]? = some slot) : slot.baseline = some slot.row.columns := by
  rw [h.inserted] at hi
  rw [h.updated] at hu
  cases hb : slot.baseline with
  | none => exact absurd ⟨slot, hs, hb⟩ hi
  | some columns =>
    by_contra changed
    exact hu ⟨slot, columns, hs, hb, fun same => changed (by rw [same])⟩

theorem isPending_eq_false_iff :
    set.isPending key = false ↔ key ∉ set.inserted ∧ key ∉ set.updated ∧ set.removed[key]? = none := by
  simp [isPending, and_assoc, ← Std.ExtTreeSet.contains_iff_mem, ← Std.ExtTreeMap.contains_iff_mem]

/-- The groups after the row under a key has left them. -/
def ungroup (set : EntitySet) (groups : Groups) (key : Key) : Groups :=
  match set.get? key with
  | some row => groups.unindexRow set.definition key row.columns
  | none => groups

theorem ungroup_of_row {groups : Groups} (found : set.rows[key]? = some slot) :
    set.ungroup groups key = groups.unindexRow set.definition key slot.row.columns := by
  simp [ungroup, get?, found]

theorem ungroup_of_absent {groups : Groups} (absent : set.rows[key]? = none) :
    set.ungroup groups key = groups := by
  simp [ungroup, get?, absent]

/-- The set after the row under a key was replaced by a row under a free key. -/
def move (set : EntitySet) (key target : Key) (slot : Slot) : EntitySet :=
  ({ set with rows := (set.rows.erase key).insert target slot }.moveMarks key target).markUpdated target

/-- The set after the row under a key was taken out. -/
def take (set : EntitySet) (key : Key) (slot : Slot) : EntitySet :=
  { set with rows := set.rows.erase key }.markRemoved key slot.baseline

/-- What can happen to a row of an entity and to the groups that it is in. Every operation of a graph
is made of such events; rows of the backend are added only while loading. -/
inductive RowEvent (loading : Prop) (set : EntitySet) (groups : Groups) : EntitySet → Groups → Prop
  | place {key : Key} {row : Row} (writable : set.definition.readOnly = false)
      (definition : row.definition = set.definition) (stores : set.definition.Stores key row.columns) :
      RowEvent loading set groups (set.insert key row)
        ((set.ungroup groups key).indexRow set.definition key row.columns)
  | take {key : Key} {slot : Slot} (writable : set.definition.readOnly = false)
      (found : set.rows[key]? = some slot) :
      RowEvent loading set groups (set.take key slot) (set.ungroup groups key)
  | move {key target : Key} {slot : Slot} {row : Row} (writable : set.definition.readOnly = false)
      (found : set.rows[key]? = some slot) (definition : row.definition = set.definition)
      (stores : set.definition.Stores target row.columns)
      (free : target ≠ key → set.rows[target]? = none ∧ set.removed[target]? = none) :
      RowEvent loading set groups (set.move key target ⟨row, slot.baseline⟩)
        ((set.ungroup groups key).indexRow set.definition target row.columns)
  | load {key : Key} {row : Row} (loads : loading) (idle : set.isPending key = false)
      (absent : set.rows[key]? = none) (definition : row.definition = set.definition)
      (stores : set.definition.Stores key row.columns) :
      RowEvent loading set groups (set.load key row)
        ((set.ungroup groups key).indexRow set.definition key row.columns)
  | refresh {key : Key} {slot : Slot} {columns : Columns} (idle : set.isPending key = false)
      (found : set.rows[key]? = some slot) (stores : set.definition.Stores key columns) :
      RowEvent loading set groups (set.refresh key columns)
        ((set.ungroup groups key).indexRow set.definition key columns)
  | evict {key : Key} {slot : Slot} (clean : set.isDirty = false) (found : set.rows[key]? = some slot) :
      RowEvent loading set groups (set.evict key) (set.ungroup groups key)
  | markLoaded : RowEvent loading set groups set.markLoaded groups
  | accept : RowEvent loading set groups set.acceptChanges groups

theorem getElem?_foldl_acceptRow (keys : List Key) (rows : Std.ExtTreeMap Key Slot) (key : Key) :
    (keys.foldl acceptRow rows)[key]? =
      if key ∈ keys then rows[key]?.map Slot.accepted else rows[key]? := by
  induction keys generalizing rows with
  | nil => simp
  | cons first keys ih =>
    rw [List.foldl_cons, ih]
    have step : (acceptRow rows first)[key]? =
        if first = key then rows[key]?.map Slot.accepted else rows[key]? := by
      unfold acceptRow Slot.accepted
      grind
    rw [step]
    cases rows[key]? <;> grind [Slot.accepted]

theorem Tracked.acceptChanges_rows (h : set.Tracked) :
    set.acceptChanges.rows[key]? = set.rows[key]?.map Slot.accepted := by
  simp only [acceptChanges, getElem?_foldl_acceptRow, List.mem_append, Std.ExtTreeSet.mem_toList]
  split_ifs with marked
  · rfl
  · cases hs : set.rows[key]? with
    | none => rfl
    | some slot =>
      rw [not_or] at marked
      simp [Slot.accepted, ← h.clean marked.1 marked.2 hs]

theorem get?_acceptChanges : set.acceptChanges.get? key = set.get? key := by
  simp only [get?, acceptChanges, getElem?_foldl_acceptRow]
  split_ifs
  · rw [Option.map_map]
    rfl
  · rfl

/-- The baseline that a row takes over when it is put under a key. -/
def inherited (set : EntitySet) (key : Key) : Option Columns :=
  match set.rows[key]? with
  | some slot => slot.baseline
  | none => set.removed[key]?

theorem inherited_of_row (found : set.rows[key]? = some slot) : set.inherited key = slot.baseline := by
  simp [inherited, found]

theorem inherited_of_absent (absent : set.rows[key]? = none) : set.inherited key = set.removed[key]? := by
  simp [inherited, absent]

/-- The set after a row was put under a key, before it is marked. -/
def seat (set : EntitySet) (key : Key) (row : Row) : EntitySet :=
  { set with
    rows := set.rows.insert key ⟨row, set.inherited key⟩
    removed := if set.rows.contains key then set.removed else set.removed.erase key }

theorem insert_eq {row : Row} :
    set.insert key row =
      if (set.inherited key).isSome then (set.seat key row).markUpdated key
      else (set.seat key row).markInserted key := rfl

theorem insert_definition {row : Row} : (set.insert key row).definition = set.definition := by
  rw [insert_eq]
  split_ifs <;> simp [markInserted, seat]

theorem insert_rows {row : Row} :
    (set.insert key row).rows = set.rows.insert key ⟨row, set.inherited key⟩ := by
  rw [insert_eq]
  split_ifs <;> simp [markInserted, seat]

theorem insert_removed {row : Row} {other : Key} :
    (set.insert key row).removed[other]? =
      if other = key ∧ set.rows[key]? = none then none else set.removed[other]? := by
  have seated : (set.insert key row).removed = (set.seat key row).removed := by
    rw [insert_eq]
    split_ifs <;> simp [markInserted]
  rw [seated, seat]
  grind

theorem mem_insert_inserted {row : Row} {other : Key} :
    other ∈ (set.insert key row).inserted ↔
      other = key ∧ set.inherited key = none ∨ other ∈ set.inserted := by
  rw [insert_eq]
  split_ifs with persisted
  · have inherits : set.inherited key ≠ none := Option.isSome_iff_ne_none.1 persisted
    simp [inherits, seat]
  · have fresh : set.inherited key = none := by simpa using persisted
    simp only [markInserted, seat, Std.ExtTreeSet.mem_insert, Std.compare_eq_iff_eq, fresh, and_true]
    rw [eq_comm]

theorem mem_insert_updated {row : Row} {other : Key}
    (fresh : set.inherited key ≠ none → key ∉ set.inserted) :
    other ∈ (set.insert key row).updated ↔
      if other = key then ∃ columns, set.inherited key = some columns ∧ columns ≠ row.columns
      else other ∈ set.updated := by
  rw [insert_eq]
  cases inherits : set.inherited key with
  | none =>
    by_cases same : other = key
    · simp [markInserted, seat, same]
    · simp [markInserted, seat, same, Ne.symm same]
  | some columns =>
    have unmarked : key ∉ set.inserted := fresh (by simp [inherits])
    simp [mem_markUpdated_updated, isUnchanged_iff, seat, inherits, unmarked]

/-- A key that bears the mark of an insert inherits no baseline. -/
theorem Tracked.notMem_inserted (h : set.Tracked) (inherits : set.inherited key ≠ none) : key ∉ set.inserted := by
  rw [h.inserted]
  rintro ⟨slot, found, fresh⟩
  exact inherits (by rw [inherited_of_row found, fresh])

theorem Tracked.insert (h : set.Tracked) {row : Row} (writable : set.definition.readOnly = false)
    (definition : row.definition = set.definition) (stores : set.definition.Stores key row.columns) :
    (set.insert key row).Tracked := by
  have inherits : ∀ {columns}, set.inherited key = some columns →
      ∃ persisted, set.definition.Stores persisted columns := by
    intro columns hc
    cases hs : set.rows[key]? with
    | some slot => exact h.baseline hs (by rw [← hc, inherited_of_row hs])
    | none => exact ⟨key, h.removed (by rw [← hc, inherited_of_absent hs])⟩
  constructor
  · rw [insert_rows, insert_definition]
    grind [h.definition]
  · rw [insert_rows, insert_definition]
    grind [h.row]
  · rw [insert_rows, insert_definition]
    grind [h.baseline]
  · intro other columns
    rw [insert_removed, insert_definition]
    grind [h.removed]
  · intro other
    rw [mem_insert_inserted, insert_rows, h.inserted]
    by_cases same : other = key
    · subst same
      simp only [true_and, Std.ExtTreeMap.getElem?_insert_self, Option.some.injEq, exists_eq_left']
      refine or_iff_left_of_imp ?_
      rintro ⟨slot, hs, hb⟩
      rw [inherited_of_row hs, hb]
    · simp [same, Std.ExtTreeMap.getElem?_insert, Ne.symm same]
  · intro other
    rw [mem_insert_updated h.notMem_inserted, insert_rows, h.updated]
    by_cases same : other = key
    · simp [same]
    · simp [same, Std.ExtTreeMap.getElem?_insert, Ne.symm same]
  · rw [insert_definition, writable]
    simp

theorem take_of_fresh (fresh : slot.baseline = none) :
    set.take key slot =
      { set with
        rows := set.rows.erase key
        inserted := set.inserted.erase key
        updated := set.updated.erase key } := by
  simp [take, markRemoved, fresh]

theorem take_of_persisted {columns : Columns} {persisted : Key} (hb : slot.baseline = some columns)
    (hk : set.definition.keyOf? columns = some persisted) :
    set.take key slot =
      { set with
        rows := set.rows.erase key
        inserted := set.inserted.erase key
        updated := set.updated.erase key
        removed := set.removed.insert persisted columns } := by
  simp [take, markRemoved, hb, hk]

theorem take_definition : (set.take key slot).definition = set.definition := by
  simp only [take, markRemoved]
  split
  · rfl
  · split <;> rfl

theorem take_rows : (set.take key slot).rows = set.rows.erase key := by
  simp only [take, markRemoved]
  split
  · rfl
  · split <;> rfl

theorem take_rest : (set.take key slot).inserted = set.inserted.erase key ∧
    (set.take key slot).updated = set.updated.erase key ∧ (set.take key slot).loaded = set.loaded := by
  simp only [take, markRemoved]
  split
  · exact ⟨rfl, rfl, rfl⟩
  · split <;> exact ⟨rfl, rfl, rfl⟩

theorem Tracked.take (h : set.Tracked) (writable : set.definition.readOnly = false)
    (found : set.rows[key]? = some slot) : (set.take key slot).Tracked := by
  cases hb : slot.baseline with
  | none =>
    rw [take_of_fresh hb]
    constructor
    · grind [h.definition]
    · grind [h.row]
    · grind [h.baseline]
    · exact h.removed
    · grind [h.inserted]
    · grind [h.updated]
    · simp [writable]
  | some columns =>
    obtain ⟨persisted, stores⟩ := h.baseline found hb
    rw [take_of_persisted hb stores.2]
    constructor
    · grind [h.definition]
    · grind [h.row]
    · grind [h.baseline]
    · grind [h.removed]
    · grind [h.inserted]
    · grind [h.updated]
    · simp [writable]

theorem move_definition {target : Key} : (set.move key target slot).definition = set.definition := by
  unfold move moveMarks
  split_ifs <;> simp

theorem move_rows {target : Key} :
    (set.move key target slot).rows = (set.rows.erase key).insert target slot := by
  unfold move moveMarks
  split_ifs <;> simp

theorem move_removed {target : Key} : (set.move key target slot).removed = set.removed := by
  unfold move moveMarks
  split_ifs <;> simp

theorem mem_move_inserted {target other : Key} (vacant : target ≠ key → target ∉ set.inserted) :
    other ∈ (set.move key target slot).inserted ↔
      if other = target then key ∈ set.inserted else other ≠ key ∧ other ∈ set.inserted := by
  unfold move moveMarks
  rw [markUpdated_inserted]
  by_cases same : target = key
  · grind
  · have hv := vacant same
    by_cases marked : set.inserted.contains key = true
    · grind
    · grind

theorem mem_move_updated {target other : Key} (vacant : target ≠ key → target ∉ set.inserted)
    (unmarked : key ∈ set.inserted → target ∉ set.updated) :
    other ∈ (set.move key target slot).updated ↔
      if other = target then key ∉ set.inserted ∧ slot.baseline ≠ some slot.row.columns
      else other ≠ key ∧ other ∈ set.updated := by
  have hi : target ∈ (set.move key target slot).inserted ↔ _ := mem_move_inserted vacant
  unfold move at hi ⊢
  rw [markUpdated_inserted] at hi
  rw [mem_markUpdated_updated, isUnchanged_iff]
  unfold moveMarks at hi ⊢
  by_cases same : target = key
  · simp only [same, if_true] at hi ⊢
    grind
  · simp only [same, if_false] at hi ⊢
    grind

/-- A key that a row moves to bears no mark that the row would take over. -/
theorem Tracked.unmarked (h : set.Tracked) {target : Key} (free : target ≠ key → set.rows[target]? = none) :
    (target ≠ key → target ∉ set.inserted) ∧ (key ∈ set.inserted → target ∉ set.updated) := by
  simp only [h.inserted, h.updated]
  grind

theorem Tracked.move (h : set.Tracked) {target : Key} {row : Row}
    (writable : set.definition.readOnly = false) (found : set.rows[key]? = some slot)
    (definition : row.definition = set.definition) (stores : set.definition.Stores target row.columns)
    (free : target ≠ key → set.rows[target]? = none ∧ set.removed[target]? = none) :
    (set.move key target ⟨row, slot.baseline⟩).Tracked := by
  obtain ⟨vacant, unmarked⟩ := h.unmarked fun moves => (free moves).1
  constructor
  · rw [move_rows, move_definition]
    grind [h.definition]
  · rw [move_rows, move_definition]
    grind [h.row]
  · rw [move_rows, move_definition]
    grind [h.baseline]
  · rw [move_removed, move_definition]
    exact h.removed
  · intro other
    rw [mem_move_inserted vacant, move_rows, h.inserted, h.inserted]
    by_cases same : other = target
    · simp [same, found]
    · simp only [same, if_false, Std.ExtTreeMap.getElem?_insert, Std.compare_eq_iff_eq,
        Ne.symm same, Std.ExtTreeMap.getElem?_erase]
      grind
  · intro other
    rw [mem_move_updated vacant unmarked, move_rows, h.inserted, h.updated]
    by_cases same : other = target
    · simp only [same, if_true, Std.ExtTreeMap.getElem?_insert_self, found]
      cases hb : slot.baseline <;> simp [hb]
    · simp only [same, if_false, Std.ExtTreeMap.getElem?_insert, Std.compare_eq_iff_eq,
        Ne.symm same, Std.ExtTreeMap.getElem?_erase]
      grind
  · rw [move_definition, writable]
    simp

theorem Tracked.load (h : set.Tracked) {row : Row} (idle : set.isPending key = false)
    (definition : row.definition = set.definition) (stores : set.definition.Stores key row.columns) :
    (set.load key row).Tracked := by
  obtain ⟨hi, hu, -⟩ := isPending_eq_false_iff.1 idle
  unfold EntitySet.load
  constructor
  · grind [h.definition]
  · grind [h.row]
  · grind [h.baseline]
  · exact h.removed
  · grind [h.inserted]
  · grind [h.updated]
  · exact h.readOnly

theorem Tracked.refresh (h : set.Tracked) {columns : Columns} (idle : set.isPending key = false)
    (found : set.rows[key]? = some slot) (stores : set.definition.Stores key columns) :
    (set.refresh key columns).Tracked := by
  obtain ⟨hi, hu, -⟩ := isPending_eq_false_iff.1 idle
  simp only [EntitySet.refresh, found]
  constructor
  · grind [h.definition]
  · grind [h.row]
  · grind [h.baseline]
  · exact h.removed
  · grind [h.inserted]
  · grind [h.updated]
  · exact h.readOnly

theorem Tracked.evict (h : set.Tracked) (clean : set.isDirty = false) : (set.evict key).Tracked := by
  obtain ⟨hi, hu, hm⟩ := isDirty_eq_false_iff.1 clean
  unfold EntitySet.evict
  constructor
  · grind [h.definition]
  · grind [h.row]
  · grind [h.baseline]
  · exact h.removed
  · grind [h.inserted]
  · grind [h.updated]
  · exact h.readOnly

theorem Tracked.acceptChanges (h : set.Tracked) : set.acceptChanges.Tracked := by
  have accepted : ∀ {key : Key} {slot : Slot}, set.acceptChanges.rows[key]? = some slot →
      ∃ old : Slot, set.rows[key]? = some old ∧ slot = old.accepted := by
    intro key slot hs
    rw [h.acceptChanges_rows, Option.map_eq_some_iff] at hs
    obtain ⟨old, found, rfl⟩ := hs
    exact ⟨old, found, rfl⟩
  constructor
  · intro key slot hs
    obtain ⟨old, found, rfl⟩ := accepted hs
    have held := h.definition found
    exact held
  · intro key slot hs
    obtain ⟨old, found, rfl⟩ := accepted hs
    have held := h.row found
    exact held
  · intro key slot columns hs hb
    obtain ⟨old, found, rfl⟩ := accepted hs
    cases hb
    have held := h.row found
    exact ⟨key, held⟩
  · simp [EntitySet.acceptChanges]
  · intro key
    simp only [h.acceptChanges_rows]
    simp [EntitySet.acceptChanges, Slot.accepted]
  · intro key
    simp only [h.acceptChanges_rows]
    simp [EntitySet.acceptChanges, Slot.accepted]
  · intro _
    simp [EntitySet.acceptChanges, isDirty]

theorem RowEvent.definition {loading : Prop} {groups groups' : Groups} {set' : EntitySet}
    (event : RowEvent loading set groups set' groups') : set'.definition = set.definition := by
  cases event with
  | place => exact insert_definition
  | take => exact take_definition
  | move => exact move_definition
  | refresh idle found => simp [EntitySet.refresh, found]
  | load | evict | markLoaded | accept => rfl

theorem RowEvent.tracked {loading : Prop} {groups groups' : Groups} {set' : EntitySet}
    (event : RowEvent loading set groups set' groups') (h : set.Tracked) : set'.Tracked := by
  cases event with
  | place writable definition stores => exact h.insert writable definition stores
  | take writable found => exact h.take writable found
  | move writable found definition stores free => exact h.move writable found definition stores free
  | load _ idle absent definition stores => exact h.load idle definition stores
  | refresh idle found stores => exact h.refresh idle found stores
  | evict clean found => exact h.evict clean
  | markLoaded => exact ⟨h.definition, h.row, h.baseline, h.removed, h.inserted, h.updated, h.readOnly⟩
  | accept => exact h.acceptChanges

/-- The key under which a row was persisted. -/
def persistedKey? (set : EntitySet) (slot : Slot) : Option Key := slot.baseline.bind set.definition.keyOf?

/-- What was persisted under a key: the baseline of a row or of a removed row. -/
def Persisted (set : EntitySet) (key : Key) (columns : Columns) : Prop :=
  (∃ (place : Key) (slot : Slot), set.rows[place]? = some slot ∧ slot.baseline = some columns ∧
    set.definition.keyOf? columns = some key) ∨ set.removed[key]? = some columns

/-- No two rows, and no row and removed row, were persisted under one key. -/
structure Distinct (set : EntitySet) : Prop where
  rows : ∀ {key other persisted : Key} {slot slot' : Slot}, set.rows[key]? = some slot →
    set.rows[other]? = some slot' → set.persistedKey? slot = some persisted →
      set.persistedKey? slot' = some persisted → other = key
  removed : ∀ {key persisted : Key} {slot : Slot}, set.rows[key]? = some slot →
    set.persistedKey? slot = some persisted → set.removed[persisted]? = none

theorem persistedKey?_eq_some_iff {persisted : Key} : set.persistedKey? slot = some persisted ↔
    ∃ columns, slot.baseline = some columns ∧ set.definition.keyOf? columns = some persisted := by
  simp [persistedKey?, Option.bind_eq_some_iff]

/-- A removal keeps the baseline under the key that it holds. -/
theorem take_removed {other : Key} : (set.take key slot).removed[other]? =
    if set.persistedKey? slot = some other then slot.baseline else set.removed[other]? := by
  unfold take markRemoved persistedKey?
  cases slot.baseline with
  | none => simp
  | some columns =>
    cases hk : set.definition.keyOf? columns with
    | none => simp [hk]
    | some persisted => simp [hk, Std.ExtTreeMap.getElem?_insert]

/-- A set without changes. -/
theorem Tracked.slot_of_clean (h : set.Tracked) (clean : set.isDirty = false)
    (found : set.rows[key]? = some slot) :
    slot.baseline = some slot.row.columns := by
  obtain ⟨inserted, updated, -⟩ := isDirty_eq_false_iff.1 clean
  exact h.clean (by simp [inserted]) (by simp [updated]) found

theorem acceptChanges_isDirty : set.acceptChanges.isDirty = false := by
  simp [isDirty, EntitySet.acceptChanges]

theorem acceptChanges_of_clean (clean : set.isDirty = false) : set.acceptChanges = set := by
  obtain ⟨inserted, updated, removed⟩ := isDirty_eq_false_iff.1 clean
  have unmarked : (∅ : Std.ExtTreeSet Key).toList = [] := Std.ExtTreeSet.toList_eq_nil_iff.2 rfl
  unfold EntitySet.acceptChanges
  rw [inserted, updated, unmarked]
  cases set
  simp_all

theorem Tracked.persistedKey_of_clean (h : set.Tracked) (clean : set.isDirty = false)
    (found : set.rows[key]? = some slot) : set.persistedKey? slot = some key :=
  persistedKey?_eq_some_iff.2 ⟨_, h.slot_of_clean clean found, (h.row found).2⟩

theorem Tracked.distinct_of_clean (h : set.Tracked) (clean : set.isDirty = false) : set.Distinct where
  rows {key other persisted slot slot'} found found' hp hp' := by
    rw [h.persistedKey_of_clean clean found] at hp
    rw [h.persistedKey_of_clean clean found'] at hp'
    exact Option.some.inj (hp'.trans hp.symm)
  removed := by simp [(isDirty_eq_false_iff.1 clean).2.2]

theorem Tracked.persisted_iff_of_clean (h : set.Tracked) (clean : set.isDirty = false) {columns : Columns} :
    set.Persisted key columns ↔ (set.get? key).map Row.columns = some columns := by
  simp only [Persisted, (isDirty_eq_false_iff.1 clean).2.2, Std.ExtTreeMap.getElem?_empty, reduceCtorEq,
    or_false, Option.map_eq_some_iff, get?_eq_some_iff]
  constructor
  · rintro ⟨place, slot, found, hb, isKey⟩
    rw [h.slot_of_clean clean found, Option.some.injEq] at hb
    subst hb
    cases isKey.symm.trans (h.row found).2
    exact ⟨slot.row, ⟨slot, found, rfl⟩, rfl⟩
  · rintro ⟨row, ⟨slot, found, rfl⟩, rfl⟩
    exact ⟨key, slot, found, h.slot_of_clean clean found, (h.row found).2⟩

end EntitySet
end EntityGraph
