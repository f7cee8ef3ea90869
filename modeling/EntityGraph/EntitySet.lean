import EntityGraph.Batch

/-! # Identity maps

The rows of one entity by key, with what a save has to do about them. A persisted row keeps the values
last read from or written to the backend as its baseline. The keys of rows to insert and to update are
kept as sets; rows to delete are kept by the key in their baseline. -/
namespace EntityGraph

structure Slot where
  row : Row
  /-- The persisted values, `none` for a row that was never persisted. -/
  baseline : Option Columns
  deriving DecidableEq

structure EntitySet where
  definition : Definition
  rows : Std.ExtTreeMap Key Slot
  inserted : Std.ExtTreeSet Key
  updated : Std.ExtTreeSet Key
  /-- The baselines of removed rows. -/
  removed : Std.ExtTreeMap Key Columns
  /-- Whether the entity has been queried. -/
  loaded : Bool
  deriving DecidableEq

namespace EntitySet

def empty (definition : Definition) : EntitySet := ⟨definition, ∅, ∅, ∅, ∅, false⟩

def get? (set : EntitySet) (key : Key) : Option Row := set.rows[key]?.map Slot.row

def contains (set : EntitySet) (key : Key) : Bool := set.rows.contains key

def keys (set : EntitySet) : List Key := set.rows.keys

/-- The rows with their keys, in key order. -/
def entries (set : EntitySet) : List (Key × Row) := set.rows.toList.map fun entry => (entry.1, entry.2.row)

def isDirty (set : EntitySet) : Bool := !(set.inserted.isEmpty && set.updated.isEmpty && set.removed.isEmpty)

/-- Whether the row under a key has unsaved edits, or a removal of the key is pending. -/
def isPending (set : EntitySet) (key : Key) : Bool :=
  set.inserted.contains key || set.updated.contains key || set.removed.contains key

def isRemoved (set : EntitySet) (key : Key) : Bool := set.removed.contains key

def markInserted (set : EntitySet) (key : Key) : EntitySet :=
  { set with updated := set.updated.erase key, inserted := set.inserted.insert key }

/-- Whether the row under a key is as persisted. -/
def isUnchanged (set : EntitySet) (key : Key) : Bool :=
  set.rows[key]?.any fun slot => slot.baseline == some slot.row.columns

/-- Records an edit. A row to insert stays one, and a row that is back at its baseline is clean. -/
def markUpdated (set : EntitySet) (key : Key) : EntitySet :=
  if set.inserted.contains key then set
  else if set.isUnchanged key then { set with updated := set.updated.erase key }
  else { set with updated := set.updated.insert key }

/-- Records that the row under a key was taken out. A persisted row is to be deleted. -/
def markRemoved (set : EntitySet) (key : Key) (baseline : Option Columns) : EntitySet :=
  let set := { set with inserted := set.inserted.erase key, updated := set.updated.erase key }
  match baseline with
  | none => set
  | some columns =>
    match set.definition.keyOf? columns with
    | none => set
    | some persisted => { set with removed := set.removed.insert persisted columns }

def markLoaded (set : EntitySet) : EntitySet := { set with loaded := true }

/-- Puts a row under a key. It takes over the baseline of the row that it replaces, or of the removed
row with this key, so that the save is an update. -/
def insert (set : EntitySet) (key : Key) (row : Row) : EntitySet :=
  let baseline :=
    match set.rows[key]? with
    | some slot => slot.baseline
    | none => set.removed[key]?
  let removed := if set.rows.contains key then set.removed else set.removed.erase key
  let set := { set with rows := set.rows.insert key ⟨row, baseline⟩, removed }
  if baseline.isSome then set.markUpdated key else set.markInserted key

/-- Takes out the row under a key and records its removal. -/
def remove (set : EntitySet) (key : Key) : Option Row × EntitySet :=
  match set.rows[key]? with
  | none => (none, set)
  | some slot => (some slot.row, { set with rows := set.rows.erase key }.markRemoved key slot.baseline)

/-- Moves the mark of a row to insert or update to its new key. -/
def moveMarks (set : EntitySet) (key target : Key) : EntitySet :=
  if target = key then set
  else
    { set with
      inserted :=
        if set.inserted.contains key then (set.inserted.erase key).insert target else set.inserted
      updated := set.updated.erase key }

/-- Writes a field of the row under a key and tells the key under which the row is afterwards. The row is
taken out for the write, and put back if it refuses the value. -/
def write (set : EntitySet) (key : Key) (field : String) (value : Value) : Option Key × EntitySet :=
  match set.rows[key]? with
  | none => (none, set)
  | some slot =>
    let others := set.rows.erase key
    match slot.row.set field value with
    | (.error _, row) => (none, { set with rows := others.insert key ⟨row, slot.baseline⟩ })
    | (.ok _, row) =>
      let target := row.key?.getD key
      let set := { set with rows := others.insert target ⟨row, slot.baseline⟩ }
      (some target, (set.moveMarks key target).markUpdated target)

/-- Adds a row as the backend has it. -/
def load (set : EntitySet) (key : Key) (row : Row) : EntitySet :=
  { set with rows := set.rows.insert key ⟨row, some row.columns⟩ }

/-- Overwrites the row under a key with persisted values. -/
def refresh (set : EntitySet) (key : Key) (columns : Columns) : EntitySet :=
  match set.rows[key]? with
  | none => set
  | some slot => { set with rows := set.rows.insert key ⟨{ slot.row with columns }, some columns⟩ }

/-- Drops the row under a key without deleting it. -/
def evict (set : EntitySet) (key : Key) : EntitySet := { set with rows := set.rows.erase key }

def insertChange (set : EntitySet) (slot : Slot) : PendingChange :=
  ⟨.insert set.definition.name slot.row.columns, slot.row.columns⟩

/-- The columns whose values differ from the baseline. -/
def changedColumns (columns baseline : Columns) : Columns :=
  columns.filter fun field value => baseline[field]? != some value

/-- The update of a row, unless its values are as persisted. -/
def updateChange? (set : EntitySet) (slot : Slot) : Option Change :=
  match slot.baseline with
  | none => none
  | some baseline =>
    let data := changedColumns slot.row.columns baseline
    if data.isEmpty then none
    else
      let key := set.definition.key
      some (.update set.definition.name (Std.ExtTreeMap.ofList [(key, baseline[key]?.getD .null)]) data)

def deleteChange (set : EntitySet) (key : Key) (baseline : Columns) : PendingChange :=
  ⟨.delete set.definition.name (Std.ExtTreeMap.ofList [(set.definition.key, key.toValue)]), baseline⟩

/-- What a save has to do, each kind in key order. -/
def changes (set : EntitySet) : EntityChanges where
  inserts := set.inserted.toList.filterMap fun key => set.rows[key]?.map set.insertChange
  updates := set.updated.toList.filterMap fun key => set.rows[key]?.bind set.updateChange?
  deletes := set.removed.toList.map fun entry => set.deleteChange entry.1 entry.2

/-- Makes the current values of a row its baseline. -/
def acceptRow (rows : Std.ExtTreeMap Key Slot) (key : Key) : Std.ExtTreeMap Key Slot :=
  match rows[key]? with
  | none => rows
  | some slot => rows.insert key ⟨slot.row, some slot.row.columns⟩

/-- Makes the current values the baseline and forgets every pending change. -/
def acceptChanges (set : EntitySet) : EntitySet :=
  { set with
    rows := (set.inserted.toList ++ set.updated.toList).foldl acceptRow set.rows
    inserted := ∅
    updated := ∅
    removed := ∅ }

end EntitySet
end EntityGraph
