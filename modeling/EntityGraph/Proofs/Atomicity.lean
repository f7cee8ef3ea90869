import EntityGraph.Proofs.Calls

/-! # Failures

A call that fails leaves the graph and the backend as they were. Most calls check everything before they
write. The others must not fail once they have begun: a query finds the entity that it has merged, a
clear removes what it has listed, a write that the row refuses is taken back, and a batch that fails
late has only changed a copy of the tables. -/
namespace EntityGraph
namespace Graph
variable {graph : Graph} {name : String} {key : Key} {e : GraphError}

theorem query_failed {σ : Type} [Backend σ] (h : graph.Indexed) {backend : σ} {parameters : Columns}
    {identity : Nat} (failed : (graph.query backend name parameters identity).1 = .error e) :
    (graph.query backend name parameters identity).2 = graph := by
  cases fetched : graph.fetch backend name parameters identity with
  | error e =>
    unfold query
    rw [fetched]
  | ok read =>
    obtain ⟨set, merged, -, -, -, answered⟩ := query_of_fetched h fetched
    rw [answered] at failed
    cases failed

theorem insert_failed (h : graph.Indexed) {row : Row} {generated : Int64}
    (failed : (graph.insert row generated).1 = .error e) : (graph.insert row generated).2 = graph := by
  unfold insert at failed ⊢
  split at failed
  · rfl
  · next definition writable =>
    split at failed
    · rfl
    · obtain ⟨set, found, -, rfl⟩ := writable_eq_ok_iff.1 writable
      unfold place at failed
      simp only [h.filed found, entity_eq_ok_iff.2 found] at failed
      cases failed

theorem remove_failed (failed : (graph.remove name key).1 = .error e) : (graph.remove name key).2 = graph := by
  unfold remove at failed ⊢
  split at failed
  · rfl
  · split at failed
    · rfl
    · split at failed
      · rfl
      · cases failed

/-- A row of an entity whose rows may change is taken out and leaves its groups. -/
theorem remove_of_row (h : graph.Indexed) {set : EntitySet} (found : graph.entities[name]? = some set)
    (writable : set.definition.readOnly = false) {slot : Slot} (held : set.rows[key]? = some slot) :
    graph.remove name key = (.ok slot.row, graph.put name (set.take key slot) (set.ungroup graph.groups key)) := by
  rw [EntitySet.ungroup_of_row held]
  unfold remove
  simp only [writable_eq_ok_iff.2 ⟨set, found, writable, rfl⟩, h.filed found, entity_eq_ok_iff.2 found,
    EntitySet.remove, held]
  rfl

/-- Listed rows of an entity whose rows may change are removed one after the other. -/
theorem removeAll_of_rows (h : graph.Indexed) {set : EntitySet} (found : graph.entities[name]? = some set)
    (writable : set.definition.readOnly = false) {keys : List Key} (distinct : keys.Nodup)
    (listed : ∀ key ∈ keys, key ∈ set.rows) : (graph.removeAll name keys).1 = .ok () := by
  induction keys generalizing graph set with
  | nil => rfl
  | cons key keys ih =>
    obtain ⟨slot, held⟩ : ∃ slot, set.rows[key]? = some slot :=
      ⟨_, Std.ExtTreeMap.getElem?_eq_some_getElem (listed key (by simp))⟩
    unfold removeAll
    rw [remove_of_row h found writable held, EntitySet.ungroup_of_row held]
    refine ih (h.put found (EntitySet.follows_take held)) (by rw [put_entities, if_pos rfl])
      (by rwa [EntitySet.take_definition]) (List.nodup_cons.1 distinct).2 fun other member => ?_
    have apart : key ≠ other := fun same => (List.nodup_cons.1 distinct).1 (same ▸ member)
    have kept := listed other (by simp [member])
    simp [EntitySet.take_rows, apart, kept]

theorem removeAll_of_readOnly {set : EntitySet} (found : graph.entities[name]? = some set)
    (readOnly : set.definition.readOnly = true) (keys : List Key) :
    (graph.removeAll name keys).2 = graph := by
  cases keys with
  | nil => rfl
  | cons key keys =>
    have refused : graph.remove name key = (.error (.readOnly name), graph) := by
      unfold remove
      simp [writable, entity_eq_ok_iff.2 found, readOnly, bind, Except.bind]
    unfold removeAll
    rw [refused]

/-- Only the first removal can fail, where rows may not change. -/
theorem clear_failed (h : graph.Indexed) (failed : (graph.clear name).1 = .error e) :
    (graph.clear name).2 = graph := by
  cases found : graph.entity name with
  | error e =>
    unfold clear
    rw [found]
  | ok set =>
    have held := entity_eq_ok_iff.1 found
    simp only [clear, found, map_eq_error_iff] at failed ⊢
    cases writable : set.definition.readOnly with
    | true => exact removeAll_of_readOnly held writable set.keys
    | false =>
      have cleared : (graph.removeAll name set.keys).1 = .ok () :=
        removeAll_of_rows h held writable Std.ExtTreeMap.nodup_keys fun key => Std.ExtTreeMap.mem_keys.1
      rw [cleared] at failed
      cases failed

theorem writeField_failed (h : graph.Indexed) {field : String} {value : Value} {references : Bool}
    (failed : (graph.writeField name key field value references).1 = .error e) :
    (graph.writeField name key field value references).2 = graph := by
  unfold writeField at failed ⊢
  split at failed
  · rfl
  · next write checked =>
    rcases commitWrite_cases h checked with ⟨e, refused⟩ | ⟨set, slot, target, row, -, -, moved⟩
    · rw [refused]
    · rw [moved] at failed
      cases failed

theorem setReference_failed (h : graph.Indexed) {relationship : String} {target : Option Key}
    (failed : (graph.setReference name key relationship target).1 = .error e) :
    (graph.setReference name key relationship target).2 = graph := by
  unfold setReference at failed ⊢
  split at failed
  · rfl
  · exact writeField_failed h failed

theorem command_failed {parameters : Columns} (failed : (graph.command name parameters).1 = .error e) :
    (graph.command name parameters).2 = graph := by
  unfold command at failed ⊢
  split at failed
  · rfl
  · split at failed
    · rfl
    · cases failed

theorem dropEntityChanges_failed (failed : (graph.dropEntityChanges name).1 = .error e) :
    (graph.dropEntityChanges name).2 = graph := by
  unfold dropEntityChanges at failed ⊢
  split at failed
  · rfl
  · cases failed

end Graph

/-- A batch that fails at any of its changes leaves the tables and the list of batches as they were. -/
theorem MemoryBackend.submit_failed {backend : MemoryBackend} {changes : List Change} {e : BackendError}
    (failed : (backend.submit changes).1 = .error e) : (backend.submit changes).2 = backend := by
  unfold MemoryBackend.submit at failed ⊢
  split at failed
  · rfl
  · split at failed
    · rfl
    · cases failed

namespace Graph
variable {graph : Graph} {backend : MemoryBackend} {e : GraphError}

theorem submit_failed {changes : List Change} (failed : (graph.submit backend changes).1 = .error e) :
    (graph.submit backend changes).2 = backend := by
  unfold submit at failed ⊢
  split at failed
  · rfl
  · obtain ⟨cause, refused, -⟩ := mapError_eq_error_iff.1 failed
    exact MemoryBackend.submit_failed refused

theorem submitText_failed {text : String} (failed : (graph.submitText backend text).1 = .error e) :
    (graph.submitText backend text).2 = backend := by
  unfold submitText at failed ⊢
  split at failed
  · rfl
  · exact submit_failed failed

theorem save_failed (failed : (graph.save backend).1 = .error e) :
    (graph.save backend).2 = (graph, backend) := by
  unfold save at failed ⊢
  dsimp only at failed ⊢
  by_cases idle : graph.pendingChanges.isEmpty = true
  · rw [if_pos idle] at failed
    cases failed
  · rw [if_neg idle] at failed ⊢
    split at failed
    · rfl
    · obtain ⟨outcome, after, submitted⟩ : ∃ outcome after, Backend.submit backend graph.pendingChanges =
          (outcome, after) := ⟨_, _, rfl⟩
      rw [submitted] at failed ⊢
      cases outcome with
      | ok affected => cases failed
      | error cause =>
        have untouched : after = backend :=
          (congrArg Prod.snd submitted).symm.trans (MemoryBackend.submit_failed (congrArg Prod.fst submitted))
        rw [untouched]

/-- A call that fails, whatever was called before with whatever rows, leaves the rows, the baselines, the
marks, the groups and the queue of the graph and the tables and batches of the backend as they were. -/
theorem Visited.run_failed {catalog : Catalog} {config : GraphConfig} (visited : Visited catalog config graph)
    (backend : MemoryBackend) (call : Call) (failed : (call.run graph backend).1 = .error e) :
    (call.run graph backend).2 = (graph, backend) := by
  have h := visited.indexed
  cases call with
  | query => exact Prod.ext (query_failed h (map_eq_error_iff.1 failed)) rfl
  | insert => exact Prod.ext (insert_failed h (map_eq_error_iff.1 failed)) rfl
  | remove => exact Prod.ext (remove_failed (map_eq_error_iff.1 failed)) rfl
  | clear => exact Prod.ext (clear_failed h (map_eq_error_iff.1 failed)) rfl
  | set => exact Prod.ext (writeField_failed h (map_eq_error_iff.1 failed)) rfl
  | setReference => exact Prod.ext (setReference_failed h (map_eq_error_iff.1 failed)) rfl
  | command => exact Prod.ext (command_failed (map_eq_error_iff.1 failed)) rfl
  | dropEntityChanges => exact Prod.ext (dropEntityChanges_failed (map_eq_error_iff.1 failed)) rfl
  | save => exact save_failed (map_eq_error_iff.1 failed)
  | submit => exact Prod.ext rfl (submit_failed (map_eq_error_iff.1 failed))
  | submitText => exact Prod.ext rfl (submitText_failed (map_eq_error_iff.1 failed))

end Graph

namespace Forest

/-- A node by a definition of its own, which knows no parents. -/
def orphan : Row where
  definition := { node with fields := [⟨"id", .integer, true, none, none⟩] }
  identity := 0
  columns := .ofList [("id", Value.integer 1)]

/-- The graph accepts the write and the row refuses it, after it has left its groups. -/
example : ((bare.insert orphan 0).2.set "node" (.integer 1) "parent" .null).1 =
    .error (.corrupted "'node' row 1 rejected a checked write to 'parent'") := by
  decide +kernel

/-- Two commands wait behind the node. -/
def commanded : Graph := ((planted.command "node" ∅).2.command "node" ∅).2

theorem commanded_reachable : Graph.Reachable catalog {} commanded :=
  .step (.step planted_reachable (.command ..)) (.command ..)

/-- Its command plants a second node and fails where there is one. -/
def sower : MemoryBackend :=
  (MemoryBackend.empty catalog true).register "node" fun tables _ _ =>
    if tables.holds "node" (.integer 2) then (.error (.command "node" "sown"), tables)
    else (.ok 1, tables.put "node" (.integer 2) (columns 2 .null))

/-- The last change of the batch fails after the first command has changed the copy of the tables. -/
theorem commanded_save_failed :
    (sower.applyAll sower.tables commanded.pendingChanges).2.holds "node" (.integer 2) = true ∧
      (Graph.Call.save.run commanded sower).1 = .error (.backend (.command "node" "sown")) ∧
        (Graph.Call.save.run commanded sower).2 = (commanded, sower) := by
  have run : (sower.applyAll sower.tables commanded.pendingChanges).2.holds "node" (.integer 2) = true ∧
      (Graph.Call.save.run commanded sower).1 = .error (.backend (.command "node" "sown")) := by
    decide +kernel
  exact ⟨run.1, run.2, commanded_reachable.visited.run_failed sower .save run.2⟩

end Forest
end EntityGraph
