import EntityGraph.MemoryBackend
import EntityGraph.Proofs.Tracking
import EntityGraph.Proofs.Validity

/-! # Transfers

A change of a save carries one row from where it was persisted to where it is now. A batch of transfers
that tables accept moves every row as intended, because no transfer lands on a row that another one has
yet to take away. -/
namespace EntityGraph

namespace Tables
variable {tables : Tables} {entity other : String} {key : Key} {columns : Columns}

theorem row?_put {place : Key} : (tables.put entity key columns).row? other place =
    if other = entity ∧ place = key then some columns else tables.row? other place := by
  simp only [row?, of, put, Std.ExtTreeMap.getElem?_insert, Std.compare_eq_iff_eq]
  by_cases same : entity = other
  · subst same
    simp only [if_true, Option.getD_some, Std.ExtTreeMap.getElem?_insert, Std.compare_eq_iff_eq, true_and,
      eq_comm (a := place)]
  · simp [same, Ne.symm same]

theorem row?_drop {place : Key} : (tables.drop entity key).row? other place =
    if other = entity ∧ place = key then none else tables.row? other place := by
  simp only [row?, of, drop, Std.ExtTreeMap.getElem?_insert, Std.compare_eq_iff_eq]
  by_cases same : entity = other
  · subst same
    simp only [if_true, Option.getD_some, Std.ExtTreeMap.getElem?_erase, Std.compare_eq_iff_eq, true_and,
      eq_comm (a := place)]
  · simp [same, Ne.symm same]

theorem holds_iff : tables.holds entity key = true ↔ ∃ columns, tables.row? entity key = some columns := by
  rw [holds, row?, Std.ExtTreeMap.contains_iff_mem, mem_iff_exists_getElem?]

theorem holds_eq_false_iff : tables.holds entity key = false ↔ tables.row? entity key = none := by
  rw [← not_iff_not, Bool.not_eq_false, holds_iff, ← Option.ne_none_iff_exists']

end Tables

section Overwrite
variable {definition : Definition} {columns baseline result : Columns}

/-- Overwriting the columns in which two rows differ turns one into the other. -/
theorem overwrite_eq_ok_iff {entries : List (String × Value)}
    (typed : ∀ {name : String} {value : Value}, columns[name]? = some value → definition.Holds name value)
    (agree : ∀ entry ∈ entries, columns[entry.1]? = some entry.2)
    (cover : ∀ name : String, baseline[name]? = columns[name]? ∨ ∃ value, (name, value) ∈ entries) :
    MemoryBackend.overwrite definition baseline entries = .ok result ↔
      (∀ entry ∈ entries, ¬(entry.2.isNull = true ∧ definition.requires entry.1 = true)) ∧ result = columns := by
  induction entries generalizing baseline with
  | nil =>
    have same : baseline = columns := Std.ExtTreeMap.ext_getElem? fun name => by simpa using cover name
    subst same
    simp only [MemoryBackend.overwrite, Except.ok.injEq, List.not_mem_nil, false_implies, implies_true, true_and]
    exact eq_comm
  | cons entry entries ih =>
    obtain ⟨name, value⟩ := entry
    have held := agree (name, value) (by simp)
    have rest := @ih (baseline.insert name value)
      (fun entry member => agree entry (by simp [member])) fun other => by
        rw [Std.ExtTreeMap.getElem?_insert]
        have := cover other
        grind
    simp only [MemoryBackend.overwrite, (typed held).coerceField, Except.mapError, bind, Except.bind]
    by_cases refused : value.isNull = true ∧ definition.requires name = true
    · simp [refused]
    · have passes : (value.isNull && definition.requires name) = false := by simpa using refused
      rw [passes, if_neg (by simp), rest, List.forall_mem_cons]
      simp only [refused, not_false_eq_true, true_and]

theorem mem_changedColumns {name : String} {value : Value} :
    (EntitySet.changedColumns columns baseline)[name]? = some value ↔
      columns[name]? = some value ∧ baseline[name]? ≠ some value := by
  simp [EntitySet.changedColumns]

/-- Columns of one definition differ only in values. -/
theorem Definition.Fits.absent (fits : definition.Fits columns) (fits' : definition.Fits baseline) {name : String}
    (absent : columns[name]? = none) : baseline[name]? = none := by
  cases hb : baseline[name]? with
  | none => rfl
  | some value =>
    obtain ⟨field, hf, -⟩ := fits'.typed hb
    obtain ⟨held, present⟩ := fits.value_of_field? hf
    rw [absent] at present
    cases present

theorem overwrite_changedColumns (fits : definition.Fits columns) (fits' : definition.Fits baseline) :
    MemoryBackend.overwrite definition baseline (EntitySet.changedColumns columns baseline).toList = .ok result ↔
      (∀ {name : String} {value : Value}, (EntitySet.changedColumns columns baseline)[name]? = some value →
        ¬(value.isNull = true ∧ definition.requires name = true)) ∧ result = columns := by
  rw [overwrite_eq_ok_iff fits.typed]
  · simp only [Prod.forall, Std.ExtTreeMap.mem_toList_iff_getElem?_eq_some]
  · simp only [Prod.forall, Std.ExtTreeMap.mem_toList_iff_getElem?_eq_some, mem_changedColumns]
    exact fun name value changed => changed.1
  · intro name
    simp only [Std.ExtTreeMap.mem_toList_iff_getElem?_eq_some, mem_changedColumns]
    cases hc : columns[name]? with
    | none => exact .inl (fits.absent fits' hc)
    | some value =>
      by_cases same : baseline[name]? = some value
      · exact .inl same
      · exact .inr ⟨value, rfl, same⟩

end Overwrite

/-- A change names its row by the key field alone. -/
theorem Definition.keyOf?_singleton {definition : Definition} {field : String} {key named : Key} :
    definition.keyOf? (.ofList [(field, key.toValue)]) = some named ↔ field = definition.key ∧ key = named := by
  by_cases same : field = definition.key <;> simp [keyOf?, Std.ExtTreeMap.ofList_singleton, same]

namespace MemoryBackend
variable {backend : MemoryBackend} {definition : Definition} {entity : String} {key : Key} {columns : Columns}

theorem definition_eq_ok_iff : backend.definition entity = .ok definition ↔
    backend.catalog.entities[entity]? = some definition := by
  unfold MemoryBackend.definition Catalog.get
  cases backend.catalog.entities[entity]? <;> simp [Except.mapError]

/-- The definition that a backend has of an entity is registered under its own name. -/
theorem definition_registered (known : backend.definition entity = .ok definition) :
    backend.catalog.entities[definition.name.text]? = some definition := by
  rw [definition_eq_ok_iff] at known
  rwa [Catalog.name_of_entities known]

theorem keyOf_eq_ok_iff : keyOf definition columns = .ok key ↔ definition.keyOf? columns = some key := by
  unfold keyOf
  cases definition.keyOf? columns <;> simp

theorem keyOf_singleton : keyOf definition (.ofList [(definition.key, key.toValue)]) = .ok key :=
  keyOf_eq_ok_iff.2 (Definition.keyOf?_singleton.2 ⟨rfl, rfl⟩)

variable {tables after : Tables} {change : Change} {changes others : List Change} {affected : Nat}

theorem applyAll_cons_eq_ok_iff : backend.applyAll tables (change :: changes) = (.ok affected, after) ↔
    ∃ one rest middle, affected = one + rest ∧ backend.apply tables change = (.ok one, middle) ∧
      backend.applyAll middle changes = (.ok rest, after) := by
  rw [applyAll]
  obtain ⟨outcome, next⟩ := backend.apply tables change
  cases outcome with
  | error e => simp
  | ok one =>
    simp only [Prod.mk.injEq, Except.ok.injEq, map_eq_ok_iff]
    constructor
    · rintro ⟨⟨rest, applied, rfl⟩, rfl⟩
      exact ⟨one, rest, next, rfl, ⟨rfl, rfl⟩, Prod.ext applied rfl⟩
    · rintro ⟨_, rest, _, rfl, ⟨rfl, rfl⟩, applied⟩
      rw [applied]
      exact ⟨⟨rest, rfl, rfl⟩, rfl⟩

/-- A batch in two parts. -/
theorem applyAll_append_eq_ok_iff : backend.applyAll tables (changes ++ others) = (.ok affected, after) ↔
    ∃ first second middle, affected = first + second ∧ backend.applyAll tables changes = (.ok first, middle) ∧
      backend.applyAll middle others = (.ok second, after) := by
  induction changes generalizing tables affected with
  | nil => simp [applyAll]
  | cons change changes ih =>
    simp only [List.cons_append, applyAll_cons_eq_ok_iff, ih]
    constructor
    · rintro ⟨one, _, next, rfl, applied, first, second, middle, rfl, part, part'⟩
      exact ⟨one + first, second, middle, by omega, ⟨one, first, next, rfl, applied, part⟩, part'⟩
    · rintro ⟨_, second, middle, rfl, ⟨one, first, next, rfl, applied, part⟩, part'⟩
      exact ⟨one, first + second, next, by omega, applied, first, second, middle, rfl, part, part'⟩

/-- A batch is refused with the error of its first change that fails. -/
theorem applyAll_eq_error {error : BackendError} (refused : (backend.applyAll tables changes).1 = .error error) :
    ∃ before failing later affected middle, changes = before ++ failing :: later ∧
      backend.applyAll tables before = (.ok affected, middle) ∧
        (backend.apply middle failing).1 = .error error := by
  induction changes generalizing tables with
  | nil => cases refused
  | cons change changes ih =>
    rw [applyAll] at refused
    cases first : backend.apply tables change with
    | mk outcome next =>
      rw [first] at refused
      cases outcome with
      | error e => exact ⟨[], change, changes, 0, tables, rfl, rfl, by rw [first]; exact refused⟩
      | ok one =>
        obtain ⟨before, failing, later, rest, middle, rfl, applied, fails⟩ := ih (map_eq_error_iff.1 refused)
        exact ⟨change :: before, failing, later, one + rest, middle, rfl,
          applyAll_cons_eq_ok_iff.2 ⟨one, rest, next, rfl, first, applied⟩, fails⟩

/-- What every change of a batch keeps of the tables the batch keeps. -/
theorem applyAll_keeps {P : Tables → Prop}
    (keeps : ∀ {tables : Tables} {change : Change}, change ∈ changes → P tables → P (backend.apply tables change).2)
    (h : P tables) : P (backend.applyAll tables changes).2 := by
  induction changes generalizing tables with
  | nil => exact h
  | cons change changes ih =>
    have first := @keeps tables change (by simp) h
    rw [applyAll]
    split
    · next failed => rwa [failed] at first
    · next applied =>
      rw [applied] at first
      exact ih (fun member => keeps (by simp [member])) first

/-- A batch that is refused was not run, or one of its changes failed. -/
theorem submit_eq_error {error : BackendError} (refused : (backend.submit changes).1 = .error error) :
    backend.checkAvailable = .error error ∨ (backend.applyAll backend.tables changes).1 = .error error := by
  unfold submit at refused
  split at refused
  · next offline =>
    cases refused
    exact .inl offline
  · split at refused
    · next failed =>
      rw [failed]
      exact .inr refused
    · cases refused

/-- A batch leaves the settings of a backend as they are. -/
theorem submit_rest (backend : MemoryBackend) (changes : List Change) :
    ∃ tables batches, (backend.submit changes).2 = { backend with tables, batches } := by
  unfold submit
  split
  · exact ⟨backend.tables, backend.batches, rfl⟩
  · split
    · exact ⟨backend.tables, backend.batches, rfl⟩
    · exact ⟨_, _, rfl⟩

end MemoryBackend

/-- The way of one row in a save. -/
inductive Transfer where
  | insert (definition : Definition) (key : Key) (columns : Columns)
  | update (definition : Definition) (source : Key) (baseline : Columns) (key : Key) (columns : Columns)
  | delete (definition : Definition) (key : Key) (baseline : Columns)
  deriving DecidableEq

namespace Transfer

def definition : Transfer → Definition
  | insert definition _ _ => definition
  | update definition _ _ _ _ => definition
  | delete definition _ _ => definition

def entity (transfer : Transfer) : String := transfer.definition.name.text

/-- The persisted row that the transfer takes away or changes. -/
def source : Transfer → Option (Key × Columns)
  | insert _ _ _ => none
  | update _ source baseline _ _ => some (source, baseline)
  | delete _ key baseline => some (key, baseline)

/-- The row that the transfer leaves behind. -/
def target : Transfer → Option (Key × Columns)
  | insert _ key columns => some (key, columns)
  | update _ _ _ key columns => some (key, columns)
  | delete _ _ _ => none

def change : Transfer → Change
  | insert definition _ columns => .insert definition.name columns
  | update definition _ baseline _ columns =>
    .update definition.name (.ofList [(definition.key, baseline[definition.key]?.getD .null)])
      (EntitySet.changedColumns columns baseline)
  | delete definition key _ => .delete definition.name (.ofList [(definition.key, key.toValue)])

def run (transfer : Transfer) (tables : Tables) : Tables :=
  match transfer with
  | insert definition key columns => tables.put definition.name.text key columns
  | update definition source _ key columns =>
    (tables.drop definition.name.text source).put definition.name.text key columns
  | delete definition key _ => tables.drop definition.name.text key

/-- The checks of a backend before and after the transfer. -/
def Accepted (transfer : Transfer) (backend : MemoryBackend) (tables : Tables) : Prop :=
  match transfer with
  | insert definition key columns =>
    (⟨definition, 0, columns⟩ : Row).checkRequired = .ok () ∧
      tables.row? definition.name.text key = none ∧
      backend.checkReferences (tables.put definition.name.text key columns) definition key columns = .ok ()
  | update definition source baseline key columns =>
    (∀ {name : String} {value : Value}, (EntitySet.changedColumns columns baseline)[name]? = some value →
      ¬(value.isNull = true ∧ definition.requires name = true)) ∧
      backend.checkMove tables definition source key = .ok () ∧
      backend.checkReferences
        ((tables.drop definition.name.text source).put definition.name.text key columns)
        definition key columns = .ok ()
  | delete definition key _ => backend.checkUnreferenced tables definition key = .ok ()

/-- The rows of a transfer are rows of a registered definition. -/
structure Legal (catalog : Catalog) (transfer : Transfer) : Prop where
  registered : catalog.entities[transfer.entity]? = some transfer.definition
  source : ∀ {key : Key} {columns : Columns}, transfer.source = some (key, columns) →
    transfer.definition.Stores key columns
  target : ∀ {key : Key} {columns : Columns}, transfer.target = some (key, columns) →
    transfer.definition.Stores key columns

/-- The transfer takes a row away from a place. -/
def Takes (transfer : Transfer) (entity : String) (key : Key) (columns : Columns) : Prop :=
  transfer.entity = entity ∧ transfer.source = some (key, columns)

/-- The transfer leaves a row at a place. -/
def Puts (transfer : Transfer) (entity : String) (key : Key) (columns : Columns) : Prop :=
  transfer.entity = entity ∧ transfer.target = some (key, columns)

/-- The key under which a row leaves a table. -/
def Leaves (transfer : Transfer) (entity : String) (key : Key) : Prop :=
  transfer.entity = entity ∧ transfer.source.map Prod.fst = some key

/-- The key under which a row arrives in a table. -/
def Reaches (transfer : Transfer) (entity : String) (key : Key) : Prop :=
  transfer.entity = entity ∧ transfer.target.map Prod.fst = some key

variable {transfer : Transfer} {backend : MemoryBackend} {tables after : Tables} {affected : Nat}
  {entity : String} {key : Key} {columns : Columns}

theorem Takes.leaves (h : transfer.Takes entity key columns) : transfer.Leaves entity key :=
  ⟨h.1, by simp [h.2]⟩

theorem Puts.reaches (h : transfer.Puts entity key columns) : transfer.Reaches entity key :=
  ⟨h.1, by simp [h.2]⟩

theorem Leaves.takes (h : transfer.Leaves entity key) : ∃ columns, transfer.Takes entity key columns := by
  obtain ⟨rfl, h⟩ := h
  obtain ⟨⟨place, columns⟩, hs, rfl⟩ := Option.map_eq_some_iff.1 h
  exact ⟨columns, rfl, hs⟩

theorem row?_run : (transfer.run tables).row? entity key = some columns ↔
    transfer.Puts entity key columns ∨
      ¬transfer.Reaches entity key ∧ ¬transfer.Leaves entity key ∧ tables.row? entity key = some columns := by
  cases transfer <;>
    simp only [run, Tables.row?_put, Tables.row?_drop, Puts, Reaches, Leaves, Transfer.entity, definition,
      source, target, Option.map_some, Option.map_none] <;>
    grind

/-- A transfer lands on a free place or where it came from. -/
theorem Accepted.free (accepted : transfer.Accepted backend tables) (reaches : transfer.Reaches entity key) :
    tables.row? entity key = none ∨ transfer.Leaves entity key := by
  obtain ⟨rfl, reached⟩ := reaches
  cases transfer with
  | insert definition place columns =>
    cases reached
    exact .inl accepted.2.1
  | update definition place baseline target columns =>
    cases reached
    obtain ⟨-, moved, -⟩ := accepted
    unfold MemoryBackend.checkMove at moved
    split_ifs at moved with stays taken
    · subst stays
      exact .inr ⟨rfl, rfl⟩
    · rw [Bool.not_eq_true] at taken
      exact .inl (Tables.holds_eq_false_iff.1 taken)
  | delete definition place baseline => cases reached

/-- A check on the state after a step that affects one row. -/
theorem counted_eq_ok_iff {ε σ : Type} {check : Except ε Unit} {state next : σ} :
    (check.map fun () => 1, state) = (.ok affected, next) ↔ affected = 1 ∧ next = state ∧ check = .ok () := by
  cases check with
  | error e => simp [Except.map]
  | ok =>
    simp only [Except.map, Prod.mk.injEq, Except.ok.injEq, and_true]
    rw [eq_comm, eq_comm (a := state)]

theorem newRow_eq {definition : Definition} (stores : definition.Stores key columns) :
    MemoryBackend.newRow definition columns =
      ((⟨definition, 0, columns⟩ : Row).checkRequired.mapError BackendError.ofRow).map fun () => (key, columns) := by
  have typed : (⟨definition, 0, columns⟩ : Row).Typed := stores.1
  have built := typed.ofColumns
  have keyed := MemoryBackend.keyOf_eq_ok_iff.2 stores.2
  simp only [MemoryBackend.newRow, built, Except.mapError, bind, Except.bind, keyed]
  cases (⟨definition, 0, columns⟩ : Row).checkRequired <;> rfl

theorem insertRow_eq_ok_iff {definition : Definition} (stores : definition.Stores key columns) :
    backend.insertRow tables definition columns = (.ok affected, after) ↔
      affected = 1 ∧ after = (insert definition key columns).run tables ∧
        (insert definition key columns).Accepted backend tables := by
  simp only [MemoryBackend.insertRow, newRow_eq stores, Accepted, run]
  cases hr : (⟨definition, 0, columns⟩ : Row).checkRequired with
  | error e => simp [Except.mapError, Except.map]
  | ok =>
    simp only [Except.mapError, Except.map, true_and, ← Tables.holds_eq_false_iff]
    cases tables.holds definition.name.text key with
    | true => simp
    | false =>
      simp only [Bool.false_eq_true, if_false, true_and]
      exact counted_eq_ok_iff

theorem updatedRow_eq_ok_iff {definition : Definition} {source : Key} {baseline : Columns}
    {result : Key × Columns}
    (persisted : definition.Stores source baseline) (stores : definition.Stores key columns) :
    backend.updatedRow tables definition source baseline (EntitySet.changedColumns columns baseline) = .ok result ↔
      (∀ {name : String} {value : Value}, (EntitySet.changedColumns columns baseline)[name]? = some value →
        ¬(value.isNull = true ∧ definition.requires name = true)) ∧
        backend.checkMove tables definition source key = .ok () ∧ result = (key, columns) := by
  unfold MemoryBackend.updatedRow
  simp only [bind_eq_ok_iff, overwrite_changedColumns stores.1 persisted.1]
  constructor
  · rintro ⟨_, ⟨filled, rfl⟩, target, ht, _, moved, h⟩
    cases (MemoryBackend.keyOf_eq_ok_iff.2 stores.2).symm.trans ht
    exact ⟨filled, moved, (Except.ok.inj h).symm⟩
  · rintro ⟨filled, moved, rfl⟩
    exact ⟨columns, ⟨filled, rfl⟩, key, MemoryBackend.keyOf_eq_ok_iff.2 stores.2, (), moved, rfl⟩

theorem updateRow_eq_ok_iff {definition : Definition} {source : Key} {baseline : Columns}
    (persisted : definition.Stores source baseline) (stores : definition.Stores key columns)
    (present : tables.row? definition.name.text source = some baseline) :
    backend.updateRow tables definition (.ofList [(definition.key, baseline[definition.key]?.getD .null)])
        (EntitySet.changedColumns columns baseline) = (.ok affected, after) ↔
      affected = 1 ∧ after = (update definition source baseline key columns).run tables ∧
        (update definition source baseline key columns).Accepted backend tables := by
  have identified : MemoryBackend.keyOf definition
      (.ofList [(definition.key, baseline[definition.key]?.getD .null)]) = .ok source := by
    rw [persisted.keyField, Option.getD_some, MemoryBackend.keyOf_singleton]
  have updated : ∀ result, backend.updatedRow tables definition source baseline
      (EntitySet.changedColumns columns baseline) = .ok result ↔ _ := fun _ => updatedRow_eq_ok_iff persisted stores
  simp only [MemoryBackend.updateRow, identified, present, Accepted, run]
  cases hu : backend.updatedRow tables definition source baseline
      (EntitySet.changedColumns columns baseline) with
  | error e =>
    have refused := updated (key, columns)
    simp only [hu, reduceCtorEq, and_true, false_iff] at refused
    simp only [reduceCtorEq, Prod.mk.injEq, false_and, false_iff]
    tauto
  | ok result =>
    obtain ⟨filled, moved, rfl⟩ := (updated result).1 hu
    simp only [moved, true_and]
    rw [counted_eq_ok_iff]
    exact and_congr_right fun _ => and_congr_right fun _ => ⟨fun held => ⟨filled, held⟩, fun h => h.2⟩

theorem deleteRow_eq_ok_iff {definition : Definition} {baseline : Columns}
    (present : tables.row? definition.name.text key = some baseline) :
    backend.deleteRow tables definition (.ofList [(definition.key, key.toValue)]) = (.ok affected, after) ↔
      affected = 1 ∧ after = (delete definition key baseline).run tables ∧
        (delete definition key baseline).Accepted backend tables := by
  simp only [MemoryBackend.deleteRow, MemoryBackend.keyOf_singleton, Tables.holds_iff.2 ⟨baseline, present⟩,
    if_true, Accepted, run]
  cases backend.checkUnreferenced tables definition key with
  | error e => simp
  | ok => simp [eq_comm]

/-- The change of a transfer does just what the transfer says, or it is refused. -/
theorem apply_eq_ok_iff (legal : transfer.Legal backend.catalog)
    (present : ∀ {key : Key} {columns : Columns}, transfer.source = some (key, columns) →
      tables.row? transfer.entity key = some columns) :
    backend.apply tables transfer.change = (.ok affected, after) ↔
      affected = 1 ∧ after = transfer.run tables ∧ transfer.Accepted backend tables := by
  have registered := MemoryBackend.definition_eq_ok_iff.2 legal.registered
  cases transfer with
  | insert definition key columns =>
    change backend.definition definition.name.text = .ok definition at registered
    simp only [MemoryBackend.apply, Transfer.change, registered]
    exact insertRow_eq_ok_iff (legal.target rfl)
  | update definition source baseline key columns =>
    change backend.definition definition.name.text = .ok definition at registered
    simp only [MemoryBackend.apply, Transfer.change, registered]
    exact updateRow_eq_ok_iff (legal.source rfl) (legal.target rfl) (present rfl)
  | delete definition key baseline =>
    change backend.definition definition.name.text = .ok definition at registered
    simp only [MemoryBackend.apply, Transfer.change, registered]
    exact deleteRow_eq_ok_iff (present rfl)

/-- Two transfers take away different rows. -/
def Apart (transfer other : Transfer) : Prop :=
  ∀ {entity : String} {key : Key}, transfer.Leaves entity key → ¬other.Leaves entity key

theorem Apart.symm {other : Transfer} (h : transfer.Apart other) : other.Apart transfer :=
  fun leaves leaves' => h leaves' leaves

/-- The tables in the middle of a batch: applied transfers have left their rows, those to come find the
rows that they take away, and the rows at rest are where they were. -/
structure Carried (rest : String → Key → Columns → Prop) (applied pending : List Transfer) (tables : Tables) :
    Prop where
  row : ∀ {entity : String} {key : Key} {columns : Columns}, tables.row? entity key = some columns ↔
    (∃ transfer ∈ applied, transfer.Puts entity key columns) ∨
      (∃ transfer ∈ pending, transfer.Takes entity key columns) ∨ rest entity key columns
  landed : ∀ {entity : String} {key : Key}, ∀ transfer ∈ applied, ∀ other ∈ pending,
    transfer.Reaches entity key → ¬other.Leaves entity key
  rested : ∀ {entity : String} {key : Key} {columns : Columns}, ∀ transfer ∈ pending,
    rest entity key columns → ¬transfer.Leaves entity key
  apart : pending.Pairwise Apart

variable {rest : String → Key → Columns → Prop} {applied pending : List Transfer}

theorem Carried.present (h : Carried rest applied pending tables) (member : transfer ∈ pending)
    (source : transfer.source = some (key, columns)) : tables.row? transfer.entity key = some columns :=
  h.row.2 (.inr (.inl ⟨transfer, member, rfl, source⟩))

theorem Carried.run (h : Carried rest applied (transfer :: pending) tables)
    (accepted : transfer.Accepted backend tables) :
    Carried rest (applied ++ [transfer]) pending (transfer.run tables) := by
  obtain ⟨later, apart⟩ := List.pairwise_cons.1 h.apart
  -- what a transfer to come takes away, or what rests, is not where this one lands
  have clear : ∀ {entity key columns}, tables.row? entity key = some columns →
      ¬transfer.Leaves entity key → ¬transfer.Reaches entity key := by
    intro entity key columns found stays reaches
    rcases accepted.free reaches with free | leaves
    · simp [free] at found
    · exact stays leaves
  constructor
  · intro entity key columns
    rw [row?_run]
    constructor
    · rintro (puts | ⟨-, stays, found⟩)
      · exact .inl ⟨transfer, by simp, puts⟩
      · rcases h.row.1 found with ⟨other, member, puts⟩ | ⟨other, member, takes⟩ | rests
        · exact .inl ⟨other, by simp [member], puts⟩
        · rcases List.mem_cons.1 member with rfl | member
          · exact absurd takes.leaves stays
          · exact .inr (.inl ⟨other, member, takes⟩)
        · exact .inr (.inr rests)
    · rintro (⟨other, member, puts⟩ | ⟨other, member, takes⟩ | rests)
      · rcases List.mem_append.1 member with member | member
        · have found := h.row.2 (.inl ⟨other, member, puts⟩)
          have stays := h.landed other member transfer (by simp) puts.reaches
          exact .inr ⟨clear found stays, stays, found⟩
        · rw [List.mem_singleton.1 member] at puts
          exact .inl puts
      · have found := h.row.2 (.inr (.inl ⟨other, by simp [member], takes⟩))
        have stays : ¬transfer.Leaves entity key := fun leaves => later other member leaves takes.leaves
        exact .inr ⟨clear found stays, stays, found⟩
      · have found := h.row.2 (.inr (.inr rests))
        have stays := h.rested transfer (by simp) rests
        exact .inr ⟨clear found stays, stays, found⟩
  · intro entity key other member waits waiting reaches leaves
    rcases List.mem_append.1 member with member | member
    · exact h.landed other member waits (by simp [waiting]) reaches leaves
    · rw [List.mem_singleton.1 member] at reaches
      obtain ⟨columns, takes⟩ := leaves.takes
      have found := h.row.2 (.inr (.inl ⟨waits, by simp [waiting], takes⟩))
      exact clear found (fun leaves' => later waits waiting leaves' leaves) reaches
  · exact fun other member => h.rested other (by simp [member])
  · exact apart

/-- The part of a batch that the tables have accepted has carried its rows. -/
theorem Carried.applyPrefix {later : List Transfer} (h : Carried rest applied (pending ++ later) tables)
    (legal : ∀ transfer ∈ pending, transfer.Legal backend.catalog)
    (ok : backend.applyAll tables (pending.map change) = (.ok affected, after)) :
    affected = pending.length ∧ Carried rest (applied ++ pending) later after := by
  induction pending generalizing applied tables affected with
  | nil =>
    cases ok
    simpa using h
  | cons transfer pending ih =>
    have spec : ∀ affected after, backend.apply tables transfer.change = (.ok affected, after) ↔ _ :=
      fun _ _ => apply_eq_ok_iff (legal transfer (by simp)) (h.present (by simp))
    obtain ⟨one, others, next, rfl, first, ok⟩ := MemoryBackend.applyAll_cons_eq_ok_iff.1 ok
    obtain ⟨rfl, rfl, accepted⟩ := (spec one next).1 first
    obtain ⟨rfl, carried⟩ := ih (h.run accepted) (fun other member => legal other (by simp [member])) ok
    refine ⟨by rw [List.length_cons, Nat.add_comm], ?_⟩
    simpa using carried

/-- A batch that the tables accept carries every row. -/
theorem Carried.applyAll (h : Carried rest applied pending tables)
    (legal : ∀ transfer ∈ pending, transfer.Legal backend.catalog)
    (ok : backend.applyAll tables (pending.map change) = (.ok affected, after)) :
    affected = pending.length ∧ Carried rest (applied ++ pending) [] after :=
  Carried.applyPrefix (by rwa [List.append_nil]) legal ok

/-- A batch runs through when each of its transfers is accepted in the middle of it. -/
theorem Carried.applyAll_of_accepted (h : Carried rest applied pending tables)
    (legal : ∀ transfer ∈ pending, transfer.Legal backend.catalog)
    (accepted : ∀ (before after : List Transfer) (transfer : Transfer) (tables : Tables),
      pending = before ++ transfer :: after → Carried rest (applied ++ before) (transfer :: after) tables →
        transfer.Accepted backend tables) :
    ∃ after, backend.applyAll tables (pending.map change) = (.ok pending.length, after) := by
  induction pending generalizing applied tables with
  | nil => exact ⟨tables, rfl⟩
  | cons transfer pending ih =>
    have ready := accepted [] pending transfer tables rfl (by simpa using h)
    have first : backend.apply tables transfer.change = (.ok 1, transfer.run tables) :=
      (apply_eq_ok_iff (legal transfer (by simp)) (h.present (by simp))).2 ⟨rfl, rfl, ready⟩
    obtain ⟨final, others⟩ := ih (h.run ready) (fun other member => legal other (by simp [member]))
      fun before after other middle split carried =>
        accepted (transfer :: before) after other middle (by simp [split]) (by simpa using carried)
    refine ⟨final, ?_⟩
    rw [List.map_cons, MemoryBackend.applyAll, first]
    simp only [others, Except.map, List.length_cons, Nat.add_comm]

end Transfer
end EntityGraph
