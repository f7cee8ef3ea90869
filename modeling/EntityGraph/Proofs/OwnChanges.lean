import EntityGraph.Change.Validation
import EntityGraph.Proofs.Parameters
import EntityGraph.Proofs.Pending

/-! # A graph's own changes are valid

The check of outgoing changes never refuses what a graph itself wants to save, so a save comes out the
same with the check as without it. -/
namespace EntityGraph

theorem Key.toValue_isNull (key : Key) : key.toValue.isNull = false := by cases key <;> rfl

namespace Change
variable {definition : Definition} {change : Change}

theorem mem_checkedColumns {name : String} {value : Value} :
    (name, value) ∈ change.checkedColumns ↔
      (∃ data, change.data? = some data ∧ data[name]? = some value) ∨
        ∃ keys, change.keys? = some keys ∧ keys[name]? = some value := by
  unfold checkedColumns
  cases change.data? <;> cases change.keys? <;> simp [Std.ExtTreeMap.mem_toList_iff_getElem?_eq_some]

/-- Where all columns are typed, only a read-only entity and a missing key are left to refuse. -/
theorem validateData_of_holds (typed : ∀ {name : String} {value : Value},
    (name, value) ∈ change.checkedColumns → definition.Holds name value) :
    validateData definition change =
      if definition.readOnly then .error (.readOnly definition.name.text)
      else if (change.identifying[definition.key]?.getD .null).isNull then
        .error (.row (.missingKey definition.name.text))
      else .ok () := by
  have coerced := Definition.coerceAll_of_holds fun ⟨_, _⟩ member => typed member
  simp only [validateData, coerced, Except.mapError, bind, Except.bind]

/-- A change is valid when its columns have the right types and it names a key. -/
theorem validateData_eq_ok (writable : definition.readOnly = false)
    (typed : ∀ {name : String} {value : Value}, (name, value) ∈ change.checkedColumns →
      definition.Holds name value)
    {key : Key} (keyed : change.identifying[definition.key]? = some key.toValue) :
    validateData definition change = .ok () := by
  simp [validateData_of_holds typed, writable, keyed, Key.toValue_isNull]

theorem validateData_eq_error {e : GraphError} (failed : validateData definition change = .error e) :
    e = .readOnly definition.name.text ∨ ∃ cause, e = .row cause := by
  unfold validateData at failed
  split at failed
  · exact .inl (Except.error.inj failed).symm
  · rcases bind_eq_error_iff.1 failed with mistyped | ⟨entries, -, keyless⟩
    · obtain ⟨cause, -, rfl⟩ := mapError_eq_error_iff.1 mistyped
      exact .inr ⟨cause, rfl⟩
    · split_ifs at keyless
      exact .inr ⟨_, (Except.error.inj keyless).symm⟩

theorem validate_of_data {catalog : Catalog} (registered : catalog.entities[change.entity.text]? = some definition)
    (isData : change.isDataChange = true) : change.validate catalog = validateData definition change := by
  have known : catalog.get change.entity.text = .ok definition := by simp [Catalog.get, registered]
  cases change with
  | insert | update | delete => simp only [validate, known]
  | command => cases isData

/-- A command with declared parameters is valid. -/
theorem validate_command {catalog : Catalog} {entity : EntityName} {parameters : Columns} {filter : Option String}
    (registered : catalog.entities[entity.text]? = some definition)
    (declared : ∀ name ∈ parameters, (definition.parameter? name).isSome = true) :
    (command entity parameters filter).validate catalog = .ok () := by
  have known : catalog.get entity.text = .ok definition := by simp [Catalog.get, registered]
  have unknown : (parameters.keys.find? fun name => (definition.parameter? name).isNone) = none := by
    refine List.find?_eq_none.2 fun name member => ?_
    rw [Option.isNone_iff_eq_none, ← Option.not_isSome_iff_eq_none, not_not]
    exact declared name (Std.ExtTreeMap.mem_keys.1 member)
  simp only [validate, Change.entity, known, unknown]

end Change

namespace Transfer
variable {transfer : Transfer} {catalog : Catalog}

theorem holds_of_singleton {definition : Definition} {key : Key} {columns : Columns} {name : String}
    {value : Value}
    (stores : definition.Stores key columns)
    (held : (Std.ExtTreeMap.ofList [(definition.key, key.toValue)] : Columns)[name]? = some value) :
    definition.Holds name value := by
  have member := mem_of_getElem?_ofList held
  simp only [List.mem_singleton, Prod.mk.injEq] at member
  obtain ⟨rfl, rfl⟩ := member
  exact stores.holds_key

/-- Every column that a transfer writes or names has a value of its type. -/
theorem Legal.holds (legal : transfer.Legal catalog) {name : String} {value : Value}
    (member : (name, value) ∈ transfer.change.checkedColumns) : transfer.definition.Holds name value := by
  rw [Change.mem_checkedColumns] at member
  cases transfer with
  | insert definition key columns =>
    have stores : definition.Stores key columns := legal.target rfl
    rcases member with ⟨data, written, held⟩ | ⟨keys, named, -⟩
    · cases written
      exact stores.1.typed held
    · cases named
  | update definition source baseline key columns =>
    have persisted : definition.Stores source baseline := legal.source rfl
    have stores : definition.Stores key columns := legal.target rfl
    rcases member with ⟨data, written, held⟩ | ⟨keys, named, held⟩
    · cases written
      exact stores.1.typed (mem_changedColumns.1 held).1
    · cases named
      rw [persisted.keyField] at held
      exact holds_of_singleton persisted held
  | delete definition key baseline =>
    have persisted : definition.Stores key baseline := legal.source rfl
    rcases member with ⟨data, written, -⟩ | ⟨keys, named, held⟩
    · cases written
    · cases named
      exact holds_of_singleton persisted held

/-- Every transfer names the key of its row. -/
theorem Legal.keyed (legal : transfer.Legal catalog) :
    ∃ key : Key, transfer.change.identifying[transfer.definition.key]? = some key.toValue := by
  cases transfer with
  | insert definition key columns =>
    have stores : definition.Stores key columns := legal.target rfl
    exact ⟨key, stores.keyField⟩
  | update definition source baseline key columns =>
    have persisted : definition.Stores source baseline := legal.source rfl
    refine ⟨source, ?_⟩
    simp [Transfer.change, Change.identifying, Change.keys?, persisted.keyField, Std.ExtTreeMap.ofList_singleton,
      Transfer.definition]
  | delete definition key baseline =>
    refine ⟨key, ?_⟩
    simp [Transfer.change, Change.identifying, Change.keys?, Std.ExtTreeMap.ofList_singleton, Transfer.definition]

/-- The change of a transfer of a writable entity is valid. -/
theorem Legal.validate (legal : transfer.Legal catalog) (writable : transfer.definition.readOnly = false) :
    transfer.change.validate catalog = .ok () := by
  obtain ⟨key, keyed⟩ := legal.keyed
  have registered : catalog.entities[transfer.change.entity.text]? = some transfer.definition := by
    have registered := legal.registered
    cases transfer <;> exact registered
  rw [Change.validate_of_data registered (by cases transfer <;> rfl)]
  exact Change.validateData_eq_ok writable legal.holds keyed

end Transfer

namespace Graph
variable {graph : Graph}

theorem validateAll_eq_ok_iff {catalog : Catalog} {changes : List Change} :
    Change.validateAll catalog changes = .ok () ↔ ∀ change ∈ changes, change.validate catalog = .ok () := by
  induction changes with
  | nil => simp [Change.validateAll]
  | cons change changes ih => simp [Change.validateAll, check_eq_ok_iff, ih]

/-- Only writable entities have transfers. -/
theorem Sound.transfers_writable (h : graph.Sound) {transfer : Transfer} (member : transfer ∈ graph.transfers) :
    transfer.definition.readOnly = false := by
  obtain ⟨set, found, tracked, listed⟩ := h.transfers_cases member
  have same : transfer.definition = set.definition := by
    rcases listed with ⟨_, _, _, _, rfl⟩ | ⟨_, _, _, _, _, _, _, _, rfl⟩ | ⟨_, _, _, rfl⟩ <;> rfl
  by_contra readOnly
  rw [same, Bool.not_eq_false] at readOnly
  obtain ⟨inserted, updated, removed⟩ := EntitySet.isDirty_eq_false_iff.1 (tracked.readOnly readOnly)
  rcases listed with ⟨key, slot, hs, hb, -⟩ | ⟨key, slot, _, baseline, hs, hb, changed, -, -⟩ |
    ⟨key, columns, hr, -⟩
  · have marked := tracked.inserted.2 ⟨slot, hs, hb⟩
    simp [inserted] at marked
  · have marked := tracked.updated.2 ⟨slot, baseline, hs, hb, changed⟩
    simp [updated] at marked
  · simp [removed] at hr

/-- The transfers of a graph pass the check of outgoing changes. -/
theorem Sound.transfers_valid (h : graph.Sound) :
    Change.validateAll graph.catalog (graph.transfers.map Transfer.change) = .ok () := by
  refine validateAll_eq_ok_iff.2 fun change listed => ?_
  obtain ⟨transfer, member, rfl⟩ := List.mem_map.1 listed
  exact (h.transfers_legal member).validate (h.transfers_writable member)

section Commands
variable {catalog : Catalog} {config : GraphConfig}

/-- A command with resolved parameters is valid. -/
theorem Commanded.validate {change : Change} (commanded : graph.Commanded change) (h : graph.Sound) :
    change.validate graph.catalog = .ok () := by
  obtain ⟨name, set, supplied, resolved, found, hresolved, rfl⟩ := commanded
  have registered : graph.catalog.entities[set.definition.name.text]? = some set.definition := by
    rw [h.name_eq found, h.definition found]
  exact Change.validate_command registered fun name member => Definition.parameter?_of_resolved hresolved member

/-- The commands that wait in a reachable graph are valid. -/
theorem Reachable.commands_valid (reachable : Reachable catalog config graph) :
    ∀ change ∈ graph.commands, change.validate graph.catalog = .ok () := by
  refine reachable.invariant (fun graph => ∀ change ∈ graph.commands, change.validate graph.catalog = .ok ())
    (fun opened => ?_) fun event sound valid => ?_
  · obtain ⟨-, opened⟩ := check_eq_ok_iff.1 opened
    cases opened
    simp
  · cases event with
    | row => exact valid
    | queue listed =>
      exact fun change member => (listed change member).elim (valid change) fun commanded => commanded.validate sound
    | dropChanges => simp [dropChanges]

end Commands
end Graph

/-- Entities may be registered later, but none changes or leaves. -/
def Catalog.Extends (current catalog : Catalog) : Prop :=
  ∀ (name : String) (definition : Definition), catalog.entities[name]? = some definition →
    current.entities[name]? = some definition

/-- A change that is valid stays so when entities are registered. -/
theorem Change.validate_of_extends {change : Change} {catalog current : Catalog} (grown : current.Extends catalog)
    (valid : change.validate catalog = .ok ()) : change.validate current = .ok () := by
  unfold Change.validate at valid ⊢
  cases found : catalog.entities[change.entity.text]? with
  | none => simp [Catalog.get, found] at valid
  | some definition =>
    have kept : current.get change.entity.text = catalog.get change.entity.text := by
      simp [Catalog.get, found, grown _ _ found]
    rw [kept]
    exact valid

theorem Catalog.extends_of_register {catalog current : Catalog} {definition : Definition}
    (h : catalog.register definition = .ok current) : current.Extends catalog := by
  unfold Catalog.register at h
  split at h
  · cases h
  · split_ifs at h with taken
    cases h
    intro name other found
    have differs : definition.name.text ≠ name := by
      rintro rfl
      exact taken (Std.ExtTreeMap.contains_iff_mem.2 (mem_iff_exists_getElem?.2 ⟨_, found⟩))
    simp [Std.ExtTreeMap.getElem?_insert, differs, found]

namespace Graph
variable {graph : Graph} {catalog current : Catalog} {config : GraphConfig}

/-- The graph with the check of outgoing changes on or off. -/
def validating (graph : Graph) (on : Bool) : Graph :=
  { graph with config := { graph.config with validateChanges := on } }

/-- Where every pending change is valid the check makes no difference. -/
theorem save_validating (valid : Change.validateAll graph.catalog graph.pendingChanges = .ok ()) {σ : Type}
    [Backend σ] (backend : σ) :
    ((graph.validating true).save backend).1 = ((graph.validating false).save backend).1 ∧
      ((graph.validating true).save backend).2.1 = ((graph.validating false).save backend).2.1.validating true ∧
      ((graph.validating true).save backend).2.2 = ((graph.validating false).save backend).2.2 := by
  have batch : ∀ on, (graph.validating on).pendingChanges = graph.pendingChanges := fun _ => rfl
  have checked : Change.validateAll (graph.validating true).catalog graph.pendingChanges = .ok () := valid
  have on : (graph.validating true).config.validateChanges = true := rfl
  have off : (graph.validating false).config.validateChanges = false := rfl
  simp only [save, batch, checked, on, off, if_true, Bool.false_eq_true, if_false]
  split_ifs
  · exact ⟨rfl, rfl, rfl⟩
  · rcases Backend.submit backend graph.pendingChanges with ⟨error | affected, after⟩
    · exact ⟨rfl, rfl, rfl⟩
    · exact ⟨rfl, rfl, rfl⟩

/-- In every reachable graph each pending change is valid, also after entities were registered, so every
save to any backend has the same outcome and leaves the same graph and backend with the check of outgoing
changes as without it. -/
theorem Reachable.pendingChanges_valid (reachable : Reachable catalog config graph)
    (grown : current.Extends catalog) :
    (∀ change ∈ graph.pendingChanges, change.validate current = .ok ()) ∧
    ∀ {σ : Type} [Backend σ] (backend : σ),
      let later := { graph with catalog := current }
      ((later.validating true).save backend).1 = ((later.validating false).save backend).1 ∧
      ((later.validating true).save backend).2.1 = ((later.validating false).save backend).2.1.validating true ∧
      ((later.validating true).save backend).2.2 = ((later.validating false).save backend).2.2 := by
  have valid : ∀ change ∈ graph.pendingChanges, change.validate current = .ok () := by
    intro change member
    refine Change.validate_of_extends grown ?_
    rw [← reachable.catalog_eq]
    rw [reachable.sound.pendingChanges_eq, List.mem_append] at member
    rcases member with moved | waiting
    · exact validateAll_eq_ok_iff.1 reachable.sound.transfers_valid change moved
    · exact reachable.commands_valid change waiting
  exact ⟨valid, fun backend => save_validating (validateAll_eq_ok_iff.2 valid) backend⟩

end Graph

namespace Forest

/-- An entity without relationships. -/
def stone : Definition where
  name := ⟨"stone", by decide +kernel⟩
  key := "id"
  fields := [⟨"id", .integer, true, none, none⟩]
  relationships := []
  parameters := []
  readOnly := false
  description := none

theorem stone_registers : ∃ current, catalog.register stone = .ok current := by
  have accepted : (catalog.register stone).toOption.isSome = true := by decide +kernel
  cases h : catalog.register stone with
  | ok current => exact ⟨current, rfl⟩
  | error e => simp [h, Except.toOption] at accepted

/-- The changes of the tended nodes stay valid after stones were registered. -/
theorem tended_pendingChanges_valid : ∃ current, catalog.register stone = .ok current ∧
    (∀ change ∈ tended.pendingChanges, change.validate current = .ok ()) ∧
    (({ tended with catalog := current }.validating true).save orchard).1 =
      (({ tended with catalog := current }.validating false).save orchard).1 := by
  obtain ⟨current, registered⟩ := stone_registers
  obtain ⟨valid, alike⟩ :=
    Graph.Reachable.pendingChanges_valid tended_reachable (Catalog.extends_of_register registered)
  exact ⟨current, registered, valid, (alike orchard).1⟩

end Forest
end EntityGraph
