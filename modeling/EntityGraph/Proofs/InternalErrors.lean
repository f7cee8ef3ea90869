import EntityGraph.Proofs.Atomicity
import EntityGraph.Proofs.Growth
import EntityGraph.Proofs.Navigation
import EntityGraph.Proofs.RoundTrips

/-! # Errors that a caller need not expect

A write that passed its checks is accepted by the row, and every name that the graph itself looks up is
that of one of its entities: the names in its definitions and inverses are covered by the check of the
catalog at the start. So a graph never finds itself corrupted, and an entity is missing only if the call
named it, also while the catalog grows. -/
namespace EntityGraph

namespace Graph
variable {graph : Graph} {catalog current : Catalog} {config : GraphConfig} {names : List String}
  {name : String} {key : Key} {e : GraphError}

/-- Errors that the caller of an operation has to expect. Nothing is corrupted, and an entity is missing
only if the call named it and the graph lacks it. -/
def Expects (graph : Graph) (names : List String) : GraphError → Prop
  | .corrupted _ => False
  | .entityNotFound missing => missing ∈ names ∧ graph.entities[missing]? = none
  | _ => True

theorem entity_expected (failed : graph.entity name = .error e) : graph.Expects [name] e := by
  unfold entity at failed
  split at failed
  · cases failed
  · next absent =>
    cases failed
    exact ⟨List.mem_singleton_self name, absent⟩

theorem writable_expected (failed : graph.writable name = .error e) : graph.Expects [name] e := by
  rcases bind_eq_error_iff.1 failed with missing | ⟨set, -, refused⟩
  · exact entity_expected missing
  · split_ifs at refused
    cases refused
    trivial

theorem row_expected (failed : graph.row name key = .error e) : graph.Expects [name] e := by
  rcases bind_eq_error_iff.1 failed with missing | ⟨set, -, absent⟩
  · exact entity_expected missing
  · split at absent
    · cases absent
    · cases absent
      trivial

theorem relationship_expected {definition : Definition} {relationship : String}
    (failed : Graph.relationship definition relationship = .error e) : graph.Expects names e := by
  unfold Graph.relationship at failed
  split at failed
  · cases failed
  · cases failed
    trivial

theorem Sound.checkResolvable_expected (h : graph.Sound) {set : EntitySet}
    (found : graph.entities[name]? = some set) {relationship : Relationship}
    (declared : relationship ∈ set.definition.relationships) {value : Value}
    (failed : graph.checkResolvable set.definition key relationship value = .error e) :
    graph.Expects names e := by
  obtain ⟨target, there⟩ := h.target_found found declared
  unfold checkResolvable at failed
  split at failed
  · cases failed
  · simp only [entity_eq_ok_iff.2 there, bind, Except.bind] at failed
    split_ifs at failed
    cases failed
    trivial

theorem Sound.checkRequired_expected (h : graph.Sound) {set : EntitySet}
    (found : graph.entities[name]? = some set) {value : Value} {relationships : List Relationship}
    (declared : ∀ relationship ∈ relationships, relationship ∈ set.definition.relationships)
    (failed : graph.checkRequired set.definition key value relationships = .error e) :
    graph.Expects names e := by
  induction relationships with
  | nil => cases failed
  | cons relationship relationships ih =>
    unfold checkRequired at failed
    have rest := ih fun other member => declared other (List.mem_cons_of_mem _ member)
    split_ifs at failed
    · rcases bind_eq_error_iff.1 failed with unresolved | ⟨_, -, failed⟩
      · exact h.checkResolvable_expected found (declared relationship List.mem_cons_self) unresolved
      · exact rest failed
    · exact rest failed

theorem checkKeyFree_expected {set : EntitySet} {field : String} {value : Value}
    (failed : checkKeyFree set name key field value = .error e) : graph.Expects names e := by
  unfold checkKeyFree at failed
  split_ifs at failed
  · split at failed
    · cases failed
    · split_ifs at failed
      cases failed
      trivial

theorem Sound.checkWrite_expected (h : graph.Sound) {field : String} {value : Value} {references : Bool}
    (failed : graph.checkWrite name key field value references = .error e) : graph.Expects [name] e := by
  unfold checkWrite at failed
  rcases bind_eq_error_iff.1 failed with refused | ⟨definition, writable, failed⟩
  · exact writable_expected refused
  rcases bind_eq_error_iff.1 failed with mistyped | ⟨written, -, failed⟩
  · obtain ⟨cause, -, rfl⟩ := mapError_eq_error_iff.1 mistyped
    trivial
  rcases bind_eq_error_iff.1 failed with missing | ⟨set, -, failed⟩
  · exact entity_expected missing
  rcases bind_eq_error_iff.1 failed with absent | ⟨row, -, failed⟩
  · exact row_expected absent
  obtain ⟨owner, found, -, rfl⟩ := writable_eq_ok_iff.1 writable
  have declared : ∀ relationship ∈ owner.definition.relationshipsOn field,
      relationship ∈ owner.definition.relationships := fun _ member => (List.mem_filter.1 member).1
  split_ifs at failed
  · rcases bind_eq_error_iff.1 failed with unresolved | ⟨_, -, failed⟩
    · exact h.checkRequired_expected found declared unresolved
    · rcases bind_eq_error_iff.1 failed with taken | ⟨_, -, done⟩
      · exact checkKeyFree_expected taken
      · cases done
  · rcases bind_eq_error_iff.1 failed with taken | ⟨_, -, done⟩
    · exact checkKeyFree_expected taken
    · cases done

theorem Sound.writeField_expected (h : graph.Sound) {field : String} {value : Value} {references : Bool}
    (failed : (graph.writeField name key field value references).1 = .error e) : graph.Expects [name] e := by
  unfold writeField at failed
  split at failed
  · next checked =>
    cases failed
    exact h.checkWrite_expected checked
  · next write checked =>
    obtain ⟨_, _, _, _, passes, rfl⟩ := passes_of_checked h checked
    rw [passes.commitWrite_eq h] at failed
    cases failed

theorem Sound.setReference_expected (h : graph.Sound) {relationship : String} {target : Option Key}
    (failed : (graph.setReference name key relationship target).1 = .error e) : graph.Expects [name] e := by
  unfold setReference at failed
  split at failed
  · next refused =>
    cases failed
    rcases bind_eq_error_iff.1 refused with missing | ⟨set, found, refused⟩
    · exact entity_expected missing
    rcases bind_eq_error_iff.1 refused with unknown | ⟨declared, known, refused⟩
    · exact relationship_expected unknown
    cases target with
    | none => cases refused
    | some principal =>
      rcases bind_eq_error_iff.1 refused with unresolved | ⟨_, -, done⟩
      · exact h.checkResolvable_expected (entity_eq_ok_iff.1 found) (mem_of_relationship known) unresolved
      · cases done
  · exact h.writeField_expected failed

theorem query_expected {σ : Type} [Backend σ] (h : graph.Indexed) {backend : σ} {parameters : Columns}
    {identity : Nat} (failed : (graph.query backend name parameters identity).1 = .error e) :
    graph.Expects [name] e := by
  cases fetched : graph.fetch backend name parameters identity with
  | ok read =>
    obtain ⟨set, merged, -, -, -, answered⟩ := query_of_fetched h fetched
    rw [answered] at failed
    cases failed
  | error cause =>
    unfold query at failed
    rw [fetched] at failed
    cases failed
    rcases bind_eq_error_iff.1 fetched with missing | ⟨set, -, fetched⟩
    · exact entity_expected missing
    rcases bind_eq_error_iff.1 fetched with mistyped | ⟨resolved, -, fetched⟩
    · obtain ⟨cause, -, rfl⟩ := mapError_eq_error_iff.1 mistyped
      cases cause <;> trivial
    rcases bind_eq_error_iff.1 fetched with unread | ⟨records, -, fetched⟩
    · obtain ⟨cause, -, rfl⟩ := mapError_eq_error_iff.1 unread
      trivial
    rcases bind_eq_error_iff.1 fetched with unfit | ⟨rows, -, done⟩
    · obtain ⟨cause, -, rfl⟩ := mapError_eq_error_iff.1 unfit
      trivial
    · cases done

theorem insert_expected (h : graph.Indexed) {row : Row} {generated : Int64}
    (failed : (graph.insert row generated).1 = .error e) : graph.Expects [row.entity] e := by
  unfold insert at failed
  split at failed
  · next refused =>
    cases failed
    exact writable_expected refused
  · next definition writable =>
    split at failed
    · cases failed
      trivial
    · obtain ⟨set, found, -, rfl⟩ := writable_eq_ok_iff.1 writable
      unfold place at failed
      simp only [h.filed found, entity_eq_ok_iff.2 found] at failed
      cases failed

theorem remove_expected (h : graph.Indexed) (failed : (graph.remove name key).1 = .error e) :
    graph.Expects [name] e := by
  unfold remove at failed
  split at failed
  · next refused =>
    cases failed
    exact writable_expected refused
  · next definition writable =>
    obtain ⟨set, found, -, rfl⟩ := writable_eq_ok_iff.1 writable
    simp only [h.filed found, entity_eq_ok_iff.2 found] at failed
    split at failed
    · cases failed
      trivial
    · cases failed

/-- Rows that are listed are removed, or the first of them may not be. -/
theorem clear_expected (h : graph.Indexed) (failed : (graph.clear name).1 = .error e) :
    graph.Expects [name] e := by
  unfold clear at failed
  split at failed
  · next missing =>
    cases failed
    exact entity_expected missing
  · next set found =>
    have held := entity_eq_ok_iff.1 found
    have stopped := map_eq_error_iff.1 failed
    cases writable : set.definition.readOnly with
    | false =>
      have cleared : (graph.removeAll name set.keys).1 = .ok () :=
        removeAll_of_rows h held writable Std.ExtTreeMap.nodup_keys fun key => Std.ExtTreeMap.mem_keys.1
      cases cleared.symm.trans stopped
    | true =>
      cases listed : set.keys with
      | nil =>
        rw [listed] at stopped
        cases stopped
      | cons key keys =>
        rw [listed] at stopped
        unfold removeAll at stopped
        split at stopped
        · next refused =>
          cases stopped
          exact remove_expected h (congrArg Prod.fst refused)
        · next removed =>
          have kept : (graph.remove name key).1 = .error (.readOnly name) := by
            unfold remove
            simp [Graph.writable, found, writable, bind, Except.bind]
          rw [removed] at kept
          cases kept

theorem command_expected {parameters : Columns} (failed : (graph.command name parameters).1 = .error e) :
    graph.Expects [name] e := by
  unfold command at failed
  split at failed
  · next missing =>
    cases failed
    exact entity_expected missing
  · split at failed
    · next cause _ =>
      cases failed
      cases cause <;> trivial
    · cases failed

theorem dropEntityChanges_expected (failed : (graph.dropEntityChanges name).1 = .error e) :
    graph.Expects [name] e := by
  unfold dropEntityChanges at failed
  split at failed
  · next missing =>
    cases failed
    exact entity_expected missing
  · cases failed

theorem ofSubmit_expected (cause : BackendError) : graph.Expects names (.ofSubmit cause) := by
  unfold GraphError.ofSubmit
  split_ifs <;> trivial

/-- A change is refused for its entity only if the catalog lacks it. -/
theorem validateAll_expected {changes : List Change} (failed : Change.validateAll catalog changes = .error e) :
    graph.Expects names e ∨
      ∃ change ∈ changes, e = .entityNotFound change.entity.text ∧
        catalog.entities[change.entity.text]? = none := by
  induction changes with
  | nil => cases failed
  | cons change changes ih =>
    rcases bind_eq_error_iff.1 failed with refused | ⟨_, -, later⟩
    · unfold Change.validate at refused
      split at refused
      · next missing =>
        cases refused
        refine .inr ⟨change, List.mem_cons_self, rfl, ?_⟩
        cases found : catalog.entities[change.entity.text]? with
        | none => rfl
        | some definition => simp [Catalog.get, found] at missing
      · refine .inl ?_
        split at refused
        · split at refused
          · cases refused
            trivial
          · cases refused
        · rcases Change.validateData_eq_error refused with rfl | ⟨cause, rfl⟩ <;> trivial
    · rcases ih later with expected | ⟨other, listed, missing⟩
      · exact .inl expected
      · exact .inr ⟨other, List.mem_cons_of_mem _ listed, missing⟩

theorem save_expected {σ : Type} [Backend σ] {backend : σ}
    (valid : Change.validateAll graph.catalog graph.pendingChanges = .ok ())
    (failed : (graph.save backend).1 = .error e) : graph.Expects names e := by
  unfold save at failed
  simp only [valid, ite_self] at failed
  split_ifs at failed
  split at failed
  · cases failed
    exact ofSubmit_expected _
  · cases failed

/-- What a batch is refused for by the check or by the backend. -/
theorem submit_expected {σ : Type} [Backend σ] {backend : σ} {changes : List Change}
    (failed : (graph.submit backend changes).1 = .error e) : graph.Expects names e ∨
      ∃ change ∈ changes, e = .entityNotFound change.entity.text ∧
        graph.catalog.entities[change.entity.text]? = none := by
  unfold submit at failed
  split at failed
  · next refused =>
    cases failed
    exact validateAll_expected refused
  · obtain ⟨cause, -, rfl⟩ := mapError_eq_error_iff.1 failed
    exact .inl (ofSubmit_expected cause)

/-- A batch that was read with the types of the catalog is about its entities. -/
theorem registered_of_decode {raw : Json} {changes : List Change}
    (read : Change.decode (some catalog) raw = .ok changes) {change : Change} (listed : change ∈ changes) :
    ∃ definition, catalog.entities[change.entity.text]? = some definition := by
  cases raw with
  | array raws =>
    rw [Change.decode, Change.decodeRecords_eq_ok_iff] at read
    obtain ⟨record, -, read⟩ := exists_mem_of_forall₂ read.flip listed
    obtain ⟨definition, registered, -⟩ := Change.decodeRecord_conforms read
    exact ⟨definition, registered⟩
  | null | bool | number | string | object => cases read

theorem submitText_expected {σ : Type} [Backend σ] {backend : σ} {text : String}
    (failed : (graph.submitText backend text).1 = .error e) : graph.Expects names e := by
  unfold submitText at failed
  split at failed
  · cases failed
    trivial
  · next changes read =>
    rcases submit_expected failed with expected | ⟨change, listed, -, missing⟩
    · exact expected
    · unfold Change.decodeText at read
      split at read
      · obtain ⟨definition, registered⟩ := registered_of_decode read listed
        simp [registered] at missing
      · cases read

/-- A public operation that only reads, with its arguments. -/
inductive Inquiry where
  | entity (name : String)
  | newRow (name : String) (identity : Nat)
  | buildRow (name : String) (identity : Nat) (columns : Columns)
  | reference (row : Row) (relationship : String)
  | referenceOf (name : String) (key : Key) (relationship : String)
  | group (dependent relationship : String) (principal : Key)
  | children (principal : String) (key : Key) (inverse : String)

/-- Whether an inquiry is answered. -/
def Inquiry.answer (graph : Graph) : Inquiry → Except GraphError Unit
  | .entity name => (graph.entity name).map fun _ => ()
  | .newRow name identity => (graph.newRow name identity).map fun _ => ()
  | .buildRow name identity columns => (graph.buildRow name identity columns).map fun _ => ()
  | .reference row relationship => (graph.reference row relationship).map fun _ => ()
  | .referenceOf name key relationship => (graph.referenceOf name key relationship).map fun _ => ()
  | .group dependent relationship principal => (graph.group dependent relationship principal).map fun _ => ()
  | .children principal key inverse => (graph.children principal key inverse).map fun _ => ()

/-- The entity that an inquiry names, by itself or through a row. -/
def Inquiry.named : Inquiry → List String
  | .entity name => [name]
  | .newRow name _ => [name]
  | .buildRow name _ _ => [name]
  | .reference row _ => [row.entity]
  | .referenceOf name _ _ => [name]
  | .group dependent _ _ => [dependent]
  | .children principal _ _ => [principal]

/-- A row in question was built from the definitions of the graph. -/
def Inquiry.Own (graph : Graph) : Inquiry → Prop
  | .reference row _ => graph.Built row
  | _ => True

theorem Sound.reference_expected (h : graph.Sound) {row : Row} (built : graph.Built row) {relationship : String}
    (failed : graph.reference row relationship = .error e) : graph.Expects names e := by
  obtain ⟨set, found, definition, -⟩ := built.typed h
  rcases bind_eq_error_iff.1 failed with unknown | ⟨declared, known, failed⟩
  · exact relationship_expected unknown
  · obtain ⟨target, there⟩ := h.target_found found (definition ▸ mem_of_relationship known)
    simp only [entity_eq_ok_iff.2 there, bind, Except.bind] at failed
    split at failed
    · split_ifs at failed
      cases failed
      trivial
    · split at failed
      · cases failed
      · cases failed
        trivial

theorem Sound.built_of_row (h : graph.Sound) {row : Row} (held : graph.row name key = .ok row) :
    graph.Built row := by
  obtain ⟨set, found, held⟩ := bind_eq_ok_iff.1 held
  split at held
  · next present =>
    cases held
    obtain ⟨slot, there, rfl⟩ := EntitySet.get?_eq_some_iff.1 present
    exact h.built (entity_eq_ok_iff.1 found) there
  · cases held

theorem group_expected {relationship : String} {principal : Key}
    (failed : graph.group name relationship principal = .error e) : graph.Expects [name] e := by
  rcases bind_eq_error_iff.1 failed with missing | ⟨set, -, failed⟩
  · exact entity_expected missing
  · rcases bind_eq_error_iff.1 failed with unknown | ⟨_, -, done⟩
    · exact relationship_expected unknown
    · cases done

/-- An inverse leads to a relationship of an entity of the graph. -/
theorem Reachable.inverse_leads (reachable : Reachable catalog config graph) {inverse link : Link}
    (leads : graph.inverses[inverse]? = some link) : ∃ set, graph.entities[link.entity]? = some set := by
  rw [reachable.inverses_eq] at leads
  obtain ⟨entry, listed, made⟩ := List.mem_filterMap.1 (mem_of_getElem?_ofList leads)
  obtain ⟨_, -, same⟩ := Option.map_eq_some_iff.1 made
  cases same
  have registered := Catalog.mem_definitions.1 (Catalog.mem_relationships.1 listed).1
  rw [← reachable.catalog_eq, ← reachable.sound.definitions, Option.map_eq_some_iff] at registered
  obtain ⟨set, found, -⟩ := registered
  exact ⟨set, found⟩

theorem Reachable.children_expected (reachable : Reachable catalog config graph) {inverse : String}
    (failed : graph.children name key inverse = .error e) : graph.Expects [name] e := by
  rcases bind_eq_error_iff.1 failed with missing | ⟨set, -, failed⟩
  · exact entity_expected missing
  · split at failed
    · cases failed
      trivial
    · next link leads =>
      obtain ⟨dependents, found⟩ := reachable.inverse_leads leads
      have expected := group_expected failed
      cases e with
      | entityNotFound missing =>
        obtain ⟨named, absent⟩ := expected
        rw [List.mem_singleton.1 named, found] at absent
        cases absent
      | _ => exact expected

/-- The entities that a call names, by themselves or through rows and changes. -/
def Call.named : Call → List String
  | .query name _ _ => [name]
  | .insert row _ => [row.entity]
  | .remove name _ => [name]
  | .clear name => [name]
  | .set name _ _ _ => [name]
  | .setReference name _ _ _ => [name]
  | .command name _ => [name]
  | .dropEntityChanges name => [name]
  | .save => []
  | .submit changes => changes.map fun change => change.entity.text
  | .submitText _ => []

/-- The pending changes of a reachable graph are valid, also after entities were registered. -/
theorem Reachable.validateAll_pending (reachable : Reachable catalog config graph)
    (grown : current.Extends catalog) : Change.validateAll current graph.pendingChanges = .ok () := by
  refine validateAll_eq_ok_iff.2 fun change member => Change.validate_of_extends grown ?_
  rw [← reachable.catalog_eq]
  rw [reachable.sound.pendingChanges_eq, List.mem_append] at member
  rcases member with moved | waiting
  · exact validateAll_eq_ok_iff.1 reachable.sound.transfers_valid change moved
  · exact reachable.commands_valid change waiting

theorem Reachable.call_expected (reachable : Reachable catalog config graph) (grown : current.Extends catalog)
    {σ : Type} [Backend σ] (backend : σ) {call : Call}
    (failed : (call.run (graph.withCatalog current) backend).1 = .error e) : graph.Expects call.named e := by
  have h := reachable.visited.indexed
  have sound := reachable.sound
  cases call with
  | query =>
    have failed := map_eq_error_iff.1 failed
    rw [query_withCatalog] at failed
    exact query_expected h failed
  | insert =>
    have failed := map_eq_error_iff.1 failed
    rw [insert_withCatalog] at failed
    exact insert_expected h failed
  | remove =>
    have failed := map_eq_error_iff.1 failed
    rw [remove_withCatalog] at failed
    exact remove_expected h failed
  | clear =>
    have failed := map_eq_error_iff.1 failed
    rw [clear_withCatalog] at failed
    exact clear_expected h failed
  | set =>
    have failed := map_eq_error_iff.1 failed
    rw [Graph.set, writeField_withCatalog] at failed
    exact sound.writeField_expected failed
  | setReference =>
    have failed := map_eq_error_iff.1 failed
    rw [setReference_withCatalog] at failed
    exact sound.setReference_expected failed
  | command =>
    have failed := map_eq_error_iff.1 failed
    rw [command_withCatalog] at failed
    exact command_expected failed
  | dropEntityChanges =>
    have failed := map_eq_error_iff.1 failed
    rw [dropEntityChanges_withCatalog] at failed
    exact dropEntityChanges_expected failed
  | save =>
    have expected : (graph.withCatalog current).Expects [] e :=
      save_expected (reachable.validateAll_pending grown) (map_eq_error_iff.1 failed)
    exact expected
  | submit changes =>
    rcases submit_expected (map_eq_error_iff.1 failed) with expected | ⟨change, listed, rfl, missing⟩
    · exact expected
    · refine ⟨List.mem_map.2 ⟨change, listed, rfl⟩, ?_⟩
      cases found : graph.entities[change.entity.text]? with
      | none => rfl
      | some set =>
        have registered := grown _ _ (reachable.catalog_eq ▸ sound.definition found)
        cases missing.symm.trans registered
  | submitText text =>
    have expected : (graph.withCatalog current).Expects [] e := submitText_expected (map_eq_error_iff.1 failed)
    exact expected

theorem Reachable.inquiry_expected (reachable : Reachable catalog config graph) {inquiry : Inquiry}
    (own : inquiry.Own graph) (failed : inquiry.answer graph = .error e) : graph.Expects inquiry.named e := by
  cases inquiry with
  | entity name => exact entity_expected (map_eq_error_iff.1 failed)
  | newRow name identity =>
    rcases bind_eq_error_iff.1 (map_eq_error_iff.1 failed) with missing | ⟨set, -, done⟩
    · exact entity_expected missing
    · cases done
  | buildRow name identity columns =>
    rcases bind_eq_error_iff.1 (map_eq_error_iff.1 failed) with missing | ⟨set, -, unfit⟩
    · exact entity_expected missing
    · obtain ⟨cause, -, rfl⟩ := mapError_eq_error_iff.1 unfit
      trivial
  | reference row relationship => exact reachable.sound.reference_expected own (map_eq_error_iff.1 failed)
  | referenceOf name key relationship =>
    rcases bind_eq_error_iff.1 (map_eq_error_iff.1 failed) with absent | ⟨row, held, unresolved⟩
    · exact row_expected absent
    · exact reachable.sound.reference_expected (reachable.sound.built_of_row held) unresolved
  | group dependent relationship principal => exact group_expected (map_eq_error_iff.1 failed)
  | children principal key inverse => exact reachable.children_expected (map_eq_error_iff.1 failed)

/-- No public operation of a graph ever reports that it is corrupted, and none reports that an entity is
missing unless the caller named it and the graph lacks it, whatever was called before, over any backends
and while others registered entities with the catalog. -/
theorem Hosted.errors_expected (hosted : Hosted catalog config graph) :
    (∀ {σ : Type} [Backend σ] (backend : σ) (call : Call) (e : GraphError),
      (call.run graph backend).1 = .error e → graph.Expects call.named e) ∧
    ∀ (inquiry : Inquiry) (e : GraphError), inquiry.Own graph → inquiry.answer graph = .error e →
      graph.Expects inquiry.named e := by
  obtain ⟨origin, reachable, grown, same⟩ := hosted.exists_reachable
  rw [same]
  refine ⟨fun backend call e failed => ?_, fun inquiry e own failed => ?_⟩
  · exact reachable.call_expected grown backend failed
  · have alike : inquiry.answer (origin.withCatalog graph.catalog) = inquiry.answer origin := by
      cases inquiry <;> rfl
    have own : inquiry.Own origin := by
      cases inquiry with
      | reference row relationship => exact own.of_withCatalog
      | _ => trivial
    exact reachable.inquiry_expected own (alike.symm.trans failed)

end Graph

namespace Forest

/-- A graph does not know stones that were registered after it was opened, and says so when asked. -/
theorem grown_errors_expected : ∃ current, catalog.register stone = .ok current ∧
    ((Graph.Call.query "stone" ∅ 0).run (planted.withCatalog current) orchard).1 =
      .error (.entityNotFound "stone") ∧
    "stone" ∈ (Graph.Call.query "stone" ∅ 0).named ∧ planted.entities["stone"]? = none := by
  obtain ⟨current, registered⟩ := stone_registers
  have hosted : Graph.Hosted catalog {} (planted.withCatalog current) :=
    .registered planted_reachable.hosted (planted_reachable.catalog_eq ▸ registered)
  have refused : ((Graph.Call.query "stone" ∅ 0).run (planted.withCatalog current) orchard).1 =
      .error (.entityNotFound "stone") := by
    simp only [Graph.Call.run, Graph.Call.onGraph, Graph.query_withCatalog]
    decide +kernel
  exact ⟨current, registered, refused, (Graph.Hosted.errors_expected hosted).1 orchard _ _ refused⟩

end Forest
end EntityGraph
