import EntityGraph.MemoryBackend
import EntityGraph.Proofs.Coherence

/-! # Calls with any rows

A graph does not ask where a row comes from. A row that was built from another definition may be inserted
as long as its entity exists, and then the marks and the groups can be wrong about it. What stays right
whatever is inserted: every entity is filed under its name, every row is in the groups that its columns
select, and no group is empty. -/
namespace EntityGraph

namespace EntitySet
variable {set set' : EntitySet} {groups : Groups} {key target : Key}

/-- Every row is in the groups that its columns select. -/
def Indexed (set : EntitySet) (groups : Groups) : Prop :=
  ∀ ⦃link : Link⦄ ⦃principal key : Key⦄, set.Refers link principal key → groups.Member link principal key

/-- What a step over rows and groups of one entity keeps, where the rows may be anything. -/
structure Follows (before after : EntitySet × Groups) : Prop where
  definition : after.1.definition = before.1.definition
  indexed : before.1.Indexed before.2 → after.1.Indexed after.2
  inhabited : before.2.Inhabited → after.2.Inhabited
  others : ∀ {link : Link} {principal key : Key}, link.entity ≠ before.1.definition.name.text →
    before.2.Member link principal key → after.2.Member link principal key

theorem Follows.refl (state : EntitySet × Groups) : Follows state state := ⟨rfl, id, id, fun _ => id⟩

theorem Follows.trans {first second third : EntitySet × Groups} (h : Follows first second)
    (h' : Follows second third) : Follows first third where
  definition := h'.definition.trans h.definition
  indexed := h'.indexed ∘ h.indexed
  inhabited := h'.inhabited ∘ h.inhabited
  others foreign member := h'.others (by rwa [h.definition]) (h.others foreign member)

/-- The rows stay where they are. -/
theorem Follows.kept (same : set'.definition = set.definition)
    (rows : ∀ other, set'.get? other = set.get? other) : Follows (set, groups) (set', groups) where
  definition := same
  indexed h link principal key refers := by
    obtain ⟨row, found, selected⟩ := refers
    exact h ⟨row, by rwa [← rows], by rwa [← same]⟩
  inhabited := id
  others _ := id

theorem member_ungroup_other {link : Link} {principal member : Key}
    (foreign : link.entity ≠ set.definition.name.text) (h : groups.Member link principal member) :
    (set.ungroup groups key).Member link principal member := by
  refine member_ungroup.2 ⟨h, ?_⟩
  rintro ⟨-, row, -, selected⟩
  obtain ⟨relationship, -, rfl, -⟩ := Groups.mem_principals_iff.1 selected
  exact foreign rfl

/-- The row under a key left. -/
theorem Follows.left (same : set'.definition = set.definition)
    (rows : ∀ other, set'.get? other = if other = key then none else set.get? other) :
    Follows (set, groups) (set', set.ungroup groups key) where
  definition := same
  indexed h link principal member refers := by
    obtain ⟨row, found, selected⟩ := refers
    rw [rows] at found
    split_ifs at found with moved
    rw [same] at selected
    exact member_ungroup.2 ⟨h ⟨row, found, selected⟩, fun gone => moved gone.1⟩
  inhabited := inhabited_ungroup
  others := member_ungroup_other

/-- The row under a key left, and a row arrived under another key or the same. -/
theorem Follows.seated (row : Row) (same : set'.definition = set.definition)
    (rows : ∀ other, set'.get? other =
      if other = target then some row else if other = key then none else set.get? other) :
    Follows (set, groups) (set', (set.ungroup groups key).indexRow set.definition target row.columns) where
  definition := same
  indexed h link principal member refers := by
    obtain ⟨resident, found, selected⟩ := refers
    rw [rows] at found
    rw [same] at selected
    refine Groups.member_indexRow.2 ?_
    split_ifs at found with arrived moved
    · cases found
      exact .inr ⟨arrived, selected⟩
    · exact .inl (member_ungroup.2 ⟨h ⟨resident, found, selected⟩, fun gone => moved gone.1⟩)
  inhabited h := (inhabited_ungroup h).indexRow
  others foreign member := Groups.member_indexRow.2 (.inl (member_ungroup_other foreign member))

theorem follows_insert (row : Row) : Follows (set, groups) (set.insert key row,
    (set.ungroup groups key).indexRow set.definition key row.columns) := by
  refine .seated row insert_definition fun other => ?_
  simp only [get?, insert_rows]
  grind

theorem follows_take {slot : Slot} (found : set.rows[key]? = some slot) :
    Follows (set, groups) (set.take key slot, groups.unindexRow set.definition key slot.row.columns) := by
  rw [← ungroup_of_row found]
  refine .left take_definition fun other => ?_
  simp only [get?, take_rows]
  grind

/-- A row that refuses a write is put back, so that the set is as it was. -/
theorem write_cases (set : EntitySet) (key : Key) (field : String) (value : Value) :
    set.write key field value = (none, set) ∨
      ∃ target slot row, set.rows[key]? = some slot ∧
        set.write key field value = (some target, set.move key target ⟨row, slot.baseline⟩) := by
  unfold write
  cases held : set.rows[key]? with
  | none => exact .inl rfl
  | some slot =>
    rcases Row.set_cases slot.row field value with ⟨written, -, accepted⟩ | ⟨e, -, refused⟩
    · simp only [accepted]
      exact .inr ⟨_, slot, _, rfl, rfl⟩
    · have restored : (set.rows.erase key).insert key slot = set.rows := by
        apply Std.ExtTreeMap.ext_getElem?
        grind
      simp only [refused, restored]
      exact .inl trivial

theorem follows_move {slot : Slot} (found : set.rows[key]? = some slot) (row : Row)
    (baseline : Option Columns) :
    Follows (set, groups) (set.move key target ⟨row, baseline⟩,
      (groups.unindexRow set.definition key slot.row.columns).indexRow set.definition target
        row.columns) := by
  rw [← ungroup_of_row found]
  refine .seated row move_definition fun other => ?_
  simp only [get?, move_rows]
  grind

theorem follows_accept : Follows (set, groups) (set.acceptChanges, groups) :=
  .kept rfl fun _ => get?_acceptChanges

end EntitySet

open EntitySet (Follows)

namespace Graph
variable {graph next : Graph} {name : String} {set set' : EntitySet} {groups : Groups}

structure Indexed (graph : Graph) : Prop where
  filed : ∀ {name : String} {set : EntitySet}, graph.entities[name]? = some set →
    set.definition.name.text = name
  inhabited : graph.groups.Inhabited
  rows : ∀ {name : String} {set : EntitySet}, graph.entities[name]? = some set → set.Indexed graph.groups

theorem ofCatalog_indexed {catalog : Catalog} {config : GraphConfig}
    (opened : Graph.ofCatalog catalog config = .ok graph) : graph.Indexed where
  filed found := (ofCatalog_sound opened).name_eq found
  inhabited := (ofCatalog_coherent opened).inhabited
  rows found link principal key refers := by
    obtain ⟨row, hrow, selected⟩ := id refers
    obtain ⟨relationship, -, rfl, -⟩ := Groups.mem_principals_iff.1 selected
    exact ((ofCatalog_coherent opened).grouped (ofCatalog_sound opened) found rfl).2 refers

theorem Indexed.put (h : graph.Indexed) (found : graph.entities[name]? = some set)
    (follows : Follows (set, graph.groups) (set', groups)) : (graph.put name set' groups).Indexed where
  filed found' := by
    rw [put_entities] at found'
    split_ifs at found' with same
    · cases found'
      rw [follows.definition, h.filed found, same]
    · exact h.filed found'
  inhabited := follows.inhabited h.inhabited
  rows {other resident} found' := by
    rw [put_entities] at found'
    split_ifs at found' with same
    · cases found'
      exact follows.indexed (h.rows found)
    · intro link principal key refers
      obtain ⟨row, -, selected⟩ := id refers
      obtain ⟨relationship, -, owner, -⟩ := Groups.mem_principals_iff.1 selected
      refine follows.others ?_ (h.rows found' refers)
      rw [owner, h.filed found', h.filed found]
      exact Ne.symm same

/-- The catalog, the queue and the order have no part in it. -/
theorem Indexed.congr (h : graph.Indexed) (entities : next.entities = graph.entities)
    (groups : next.groups = graph.groups) : next.Indexed := by
  constructor
  · rw [entities]
    exact h.filed
  · rw [groups]
    exact h.inhabited
  · rw [entities, groups]
    exact h.rows

theorem Indexed.dropChanges (h : graph.Indexed) : graph.dropChanges.Indexed where
  filed {name accepted} found := by
    rw [dropChanges_entities, Option.map_eq_some_iff] at found
    obtain ⟨set, found, rfl⟩ := found
    have filed : set.definition.name.text = name := h.filed found
    exact filed
  inhabited := h.inhabited
  rows found := by
    rw [dropChanges_entities, Option.map_eq_some_iff] at found
    obtain ⟨set, found, rfl⟩ := found
    exact EntitySet.follows_accept.indexed (h.rows found)

theorem Indexed.insert (h : graph.Indexed) (row : Row) (generated : Int64) :
    (graph.insert row generated).2.Indexed := by
  unfold Graph.insert
  split
  · exact h
  · next definition writable =>
    split
    · exact h
    · next key keyed _ =>
      obtain ⟨set, found, -, rfl⟩ := writable_eq_ok_iff.1 writable
      unfold place
      simp only [h.filed found, entity_eq_ok_iff.2 found]
      exact h.put found (EntitySet.follows_insert keyed)

theorem Indexed.remove (h : graph.Indexed) (name : String) (key : Key) :
    (graph.remove name key).2.Indexed := by
  unfold Graph.remove
  split
  · exact h
  · next definition writable =>
    obtain ⟨set, found, -, rfl⟩ := writable_eq_ok_iff.1 writable
    simp only [h.filed found, entity_eq_ok_iff.2 found, EntitySet.remove]
    cases held : set.rows[key]? with
    | none => exact h
    | some slot => exact h.put found (EntitySet.follows_take held)

theorem Indexed.removeAll (h : graph.Indexed) (name : String) (keys : List Key) :
    (graph.removeAll name keys).2.Indexed := by
  induction keys generalizing graph with
  | nil => exact h
  | cons key keys ih =>
    have first := h.remove name key
    unfold Graph.removeAll
    split
    · next e next removed => simpa [removed] using first
    · next row next removed =>
      rw [removed] at first
      exact ih first

theorem Indexed.clear (h : graph.Indexed) (name : String) : (graph.clear name).2.Indexed := by
  unfold Graph.clear
  split
  · exact h
  · exact h.removeAll ..

/-- A write that passed its checks moves the row and its memberships, or changes nothing: the row, which
may be of another definition, can still refuse the value, and is put back into the groups it was taken
out of. -/
theorem commitWrite_cases (h : graph.Indexed) {key : Key} {field : String} {value : Value} {references : Bool}
    {write : Write} (checked : graph.checkWrite name key field value references = .ok write) :
    (∃ e, graph.commitWrite name key field write = (.error e, graph)) ∨
      ∃ set slot target row, graph.entities[name]? = some set ∧ set.rows[key]? = some slot ∧
        graph.commitWrite name key field write =
          (.ok target, graph.put name (set.move key target ⟨row, slot.baseline⟩)
            ((graph.groups.unindexRow set.definition key slot.row.columns).indexRow set.definition target
              row.columns)) := by
  obtain ⟨set, slot, written, found, -, held, rfl, -⟩ := checkWrite_eq_ok checked
  have memberships : ∀ entry ∈ Groups.principals set.definition slot.row.columns,
      graph.groups.Member entry.1 entry.2 key :=
    fun entry selected => h.rows found ⟨slot.row, by simp [held], selected⟩
  unfold commitWrite
  simp only [h.filed found, entity_eq_ok_iff.2 found]
  rcases EntitySet.write_cases set key field written with refused | ⟨target, slot', row, held', moved⟩
  · simp only [refused]
    refine .inl ⟨_, Prod.ext rfl ?_⟩
    dsimp only
    rw [Groups.indexRow_unindexRow h.inhabited memberships, put_self found]
  · cases held.symm.trans held'
    have arrived : (set.move key target ⟨row, slot.baseline⟩).get? target = some row := by
      simp [EntitySet.move_rows]
    exact .inr ⟨set, slot, target, row, found, held, by simp only [moved, arrived]⟩

theorem Indexed.writeField (h : graph.Indexed) (name : String) (key : Key) (field : String) (value : Value)
    (references : Bool) : (graph.writeField name key field value references).2.Indexed := by
  unfold Graph.writeField
  split
  · exact h
  · next write checked =>
    rcases commitWrite_cases h checked with ⟨e, refused⟩ | ⟨set, slot, target, row, found, held, moved⟩
    · rw [refused]
      exact h
    · rw [moved]
      exact h.put found (EntitySet.follows_move held row slot.baseline)

theorem Indexed.setReference (h : graph.Indexed) (name : String) (key : Key) (relationship : String)
    (target : Option Key) : (graph.setReference name key relationship target).2.Indexed := by
  unfold Graph.setReference
  split
  · exact h
  · exact h.writeField ..

theorem Indexed.command (h : graph.Indexed) (name : String) (parameters : Columns) :
    (graph.command name parameters).2.Indexed := by
  unfold Graph.command
  split
  · exact h
  · split
    · exact h
    · exact h.congr rfl rfl

theorem Indexed.dropEntityChanges (h : graph.Indexed) (name : String) :
    (graph.dropEntityChanges name).2.Indexed := by
  unfold Graph.dropEntityChanges
  split
  · exact h
  · next set found =>
    exact (h.put (entity_eq_ok_iff.1 found) EntitySet.follows_accept).congr rfl rfl

section Backends
variable {σ : Type} [Backend σ]

theorem Indexed.save (h : graph.Indexed) (backend : σ) : (graph.save backend).2.1.Indexed := by
  have dropped := h.dropChanges
  unfold Graph.save
  grind

theorem follows_mergeRow (before : EntitySet × Groups) (entry : Key × Row) :
    Follows before (mergeRow before.1.definition before entry) := by
  obtain ⟨set, groups⟩ := before
  obtain ⟨key, row⟩ := entry
  rcases mergeRow_cases set.definition (set, groups) key row with
    ⟨kept, -⟩ | ⟨-, absent, loaded⟩ | ⟨slot, -, held, refreshed⟩
  · rw [kept]
    exact .refl _
  · have seated : Follows (set, groups) (set.load key row,
        (set.ungroup groups key).indexRow set.definition key row.columns) := by
      refine .seated row rfl fun other => ?_
      simp only [EntitySet.get?, EntitySet.load]
      grind
    rw [EntitySet.ungroup_of_absent absent] at seated
    rw [loaded]
    exact seated
  · rw [refreshed, ← EntitySet.ungroup_of_row held]
    refine .seated { slot.row with columns := row.columns } (by simp [EntitySet.refresh, held])
      fun other => ?_
    simp only [EntitySet.get?, EntitySet.refresh, held]
    grind

theorem follows_evictRow (before : EntitySet × Groups) (key : Key) :
    Follows before (evictRow before.1.definition before key) := by
  obtain ⟨set, groups⟩ := before
  cases held : set.rows[key]? with
  | none =>
    rw [evictRow_of_absent held]
    exact .refl _
  | some slot =>
    rw [evictRow_of_row held]
    refine .left rfl fun other => ?_
    simp only [EntitySet.get?, EntitySet.evict]
    grind

theorem follows_foldl {α : Type} {step : Definition → EntitySet × Groups → α → EntitySet × Groups}
    (follows : ∀ before entry, Follows before (step before.1.definition before entry)) (entries : List α)
    (before : EntitySet × Groups) : Follows before (entries.foldl (step before.1.definition) before) := by
  induction entries generalizing before with
  | nil => exact .refl _
  | cons entry entries ih =>
    have first := follows before entry
    have rest := ih (step before.1.definition before entry)
    rw [first.definition] at rest
    exact first.trans rest

theorem follows_mergeRows (replace : Bool) (before : EntitySet × Groups) (rows : List (Key × Row)) :
    Follows before (mergeRows before.1.definition replace before rows) := by
  have merged := follows_foldl follows_mergeRow rows before
  have evicted := fun keys : List Key =>
    follows_foldl follows_evictRow keys (rows.foldl (mergeRow before.1.definition) before)
  rw [merged.definition] at evicted
  exact merged.trans (evicted _)

/-- A query whose rows can be read puts them into the graph and succeeds. -/
theorem query_of_fetched (h : graph.Indexed) {backend : σ} {parameters : Columns} {identity : Nat}
    {definition : Definition} {rows : List (Key × Row)}
    (fetched : graph.fetch backend name parameters identity = .ok (definition, rows)) :
    ∃ set merged, graph.entities[name]? = some set ∧ definition = set.definition ∧
      merged = mergeRows definition (!set.isDirty && graph.config.evictOnReload && set.loaded)
        (set, graph.groups) rows ∧
      graph.query backend name parameters identity =
        (.ok (result merged.1.markLoaded rows), graph.put name merged.1.markLoaded merged.2) := by
  obtain ⟨set, found, rfl, -⟩ := fetch_eq_ok fetched
  refine ⟨set, _, found, rfl, rfl, ?_⟩
  unfold query
  simp only [fetched, merge, h.filed found, entity_eq_ok_iff.2 found]
  have arrived : ∀ {set' : EntitySet} {groups : Groups},
      (graph.put name set' groups).entity name = .ok set' :=
    entity_eq_ok_iff.2 (by rw [put_entities, if_pos rfl])
  rw [arrived]
  rfl

theorem Indexed.query (h : graph.Indexed) (backend : σ) (name : String) (parameters : Columns)
    (identity : Nat) : (graph.query backend name parameters identity).2.Indexed := by
  cases fetched : graph.fetch backend name parameters identity with
  | error e =>
    unfold Graph.query
    rw [fetched]
    exact h
  | ok read =>
    obtain ⟨set, merged, found, definition, rfl, answered⟩ := query_of_fetched h fetched
    have follows := follows_mergeRows (!set.isDirty && graph.config.evictOnReload && set.loaded)
      (set, graph.groups) read.2
    rw [answered, definition]
    exact h.put found (follows.trans (.kept rfl fun _ => rfl))

end Backends

/-- A public operation that can fail, with its arguments. -/
inductive Call where
  | query (name : String) (parameters : Columns) (identity : Nat)
  | insert (row : Row) (generated : Int64)
  | remove (name : String) (key : Key)
  | clear (name : String)
  | set (name : String) (key : Key) (field : String) (value : Value)
  | setReference (name : String) (key : Key) (relationship : String) (target : Option Key)
  | command (name : String) (parameters : Columns)
  | dropEntityChanges (name : String)
  | save
  | submit (changes : List Change)
  | submitText (text : String)

namespace Call
variable {σ : Type} [Backend σ] {α : Type}

/-- An operation of the graph alone, whose result is of no interest. -/
def onGraph (backend : σ) (after : Except GraphError α × Graph) : Except GraphError Unit × Graph × σ :=
  (after.1.map fun _ => (), after.2, backend)

/-- An operation of the backend alone. -/
def onBackend (graph : Graph) (after : Except GraphError α × σ) : Except GraphError Unit × Graph × σ :=
  (after.1.map fun _ => (), graph, after.2)

/-- Whether a call succeeds, and the graph and the backend after it. -/
def run (graph : Graph) (backend : σ) : Call → Except GraphError Unit × Graph × σ
  | .query name parameters identity => onGraph backend (graph.query backend name parameters identity)
  | .insert row generated => onGraph backend (graph.insert row generated)
  | .remove name key => onGraph backend (graph.remove name key)
  | .clear name => onGraph backend (graph.clear name)
  | .set name key field value => onGraph backend (graph.set name key field value)
  | .setReference name key relationship target =>
    onGraph backend (graph.setReference name key relationship target)
  | .command name parameters => onGraph backend (graph.command name parameters)
  | .dropEntityChanges name => onGraph backend (graph.dropEntityChanges name)
  | .save =>
    let (outcome, graph, backend) := graph.save backend
    (outcome.map fun _ => (), graph, backend)
  | .submit changes => onBackend graph (graph.submit backend changes)
  | .submitText text => onBackend graph (graph.submitText backend text)

end Call

/-- The graphs that any calls with any rows lead to, over whatever the backend holds at each of them.
Others may register entities with the catalog meanwhile. -/
inductive Visited (catalog : Catalog) (config : GraphConfig) : Graph → Prop
  | start {graph : Graph} : Graph.ofCatalog catalog config = .ok graph → Visited catalog config graph
  | call {σ : Type} [Backend σ] {graph : Graph} (backend : σ) (call : Call) :
      Visited catalog config graph → Visited catalog config (call.run graph backend).2.1
  | dropChanges {graph : Graph} : Visited catalog config graph → Visited catalog config graph.dropChanges
  | registered {graph : Graph} (extended : Catalog) :
      Visited catalog config graph → Visited catalog config { graph with catalog := extended }

theorem Indexed.run {σ : Type} [Backend σ] (h : graph.Indexed) (backend : σ) (call : Call) :
    (call.run graph backend).2.1.Indexed := by
  cases call with
  | query name parameters identity => exact h.query backend name parameters identity
  | insert row generated => exact h.insert row generated
  | remove name key => exact h.remove name key
  | clear name => exact h.clear name
  | set name key field value => exact h.writeField name key field value _
  | setReference name key relationship target => exact h.setReference name key relationship target
  | command name parameters => exact h.command name parameters
  | dropEntityChanges name => exact h.dropEntityChanges name
  | save => exact h.save backend
  | submit | submitText => exact h

theorem Visited.indexed {catalog : Catalog} {config : GraphConfig} (visited : Visited catalog config graph) :
    graph.Indexed := by
  induction visited with
  | start opened => exact ofCatalog_indexed opened
  | call backend call _ ih => exact ih.run backend call
  | dropChanges _ ih => exact ih.dropChanges
  | registered extended _ ih => exact ih.congr rfl rfl

/-- Every reachable graph is among them. -/
theorem Reachable.visited {catalog : Catalog} {config : GraphConfig}
    (reachable : Reachable catalog config graph) : Visited catalog config graph := by
  induction reachable with
  | start opened => exact .start opened
  | @step graph next _ step ih =>
    have call : ∀ call : Call, Visited catalog config (call.run graph (MemoryBackend.empty catalog true)).2.1 :=
      fun call => ih.call _ call
    cases step with
    | query backend name parameters identity => exact ih.call backend (.query name parameters identity)
    | @insert row generated _ => exact call (.insert row generated)
    | remove name key => exact call (.remove name key)
    | clear name => exact call (.clear name)
    | set name key field value => exact call (.set name key field value)
    | setReference name key relationship target => exact call (.setReference name key relationship target)
    | command name parameters => exact call (.command name parameters)
    | dropChanges => exact ih.dropChanges
    | dropEntityChanges name => exact call (.dropEntityChanges name)
    | save backend => exact ih.call backend .save

end Graph
end EntityGraph
