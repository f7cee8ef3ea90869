import EntityGraph.Graph.Navigation
import EntityGraph.Proofs.OwnChanges

/-! # Catalogs that grow under a graph

Others may register entities with the catalog of a graph between its operations. The graph does not see
them: an operation does on the grown catalog what it does on the first one, so the graph is at any time
one that can be reached without them, with another catalog. Only the check of changes looks at the
catalog as it is now. -/
namespace EntityGraph

theorem Catalog.Extends.refl (catalog : Catalog) : catalog.Extends catalog := fun _ _ found => found

theorem Catalog.Extends.trans {first second third : Catalog} (later : third.Extends second)
    (earlier : second.Extends first) : third.Extends first :=
  fun name definition found => later name definition (earlier name definition found)

namespace Graph
variable {graph next : Graph} {catalog current : Catalog} {config : GraphConfig}

/-- The graph on a catalog that others have extended. -/
def withCatalog (graph : Graph) (catalog : Catalog) : Graph := { graph with catalog }

/-- The graphs that the public operations lead to while others register entities with the catalog. -/
inductive Hosted (catalog : Catalog) (config : GraphConfig) : Graph → Prop
  | start {graph : Graph} : Graph.ofCatalog catalog config = .ok graph → Hosted catalog config graph
  | step {graph next : Graph} : Hosted catalog config graph → Step graph next → Hosted catalog config next
  | registered {graph : Graph} {definition : Definition} {current : Catalog} :
      Hosted catalog config graph → graph.catalog.register definition = .ok current →
      Hosted catalog config (graph.withCatalog current)

section Operations
variable {row : Row} (name : String) (key : Key)

theorem query_withCatalog {σ : Type} [Backend σ] (backend : σ) (parameters : Columns) (identity : Nat) :
    (graph.withCatalog current).query backend name parameters identity =
      ((graph.query backend name parameters identity).1,
        (graph.query backend name parameters identity).2.withCatalog current) := by
  have fetched : (graph.withCatalog current).fetch backend name parameters identity =
      graph.fetch backend name parameters identity := rfl
  unfold query
  rw [fetched]
  cases graph.fetch backend name parameters identity with
  | error e => rfl
  | ok read =>
    have found : (graph.withCatalog current).entity read.1.name.text = graph.entity read.1.name.text := rfl
    simp only [merge, found]
    cases graph.entity read.1.name.text <;> rfl

theorem insert_withCatalog (generated : Int64) :
    (graph.withCatalog current).insert row generated =
      ((graph.insert row generated).1, (graph.insert row generated).2.withCatalog current) := by
  have writable : (graph.withCatalog current).writable row.entity = graph.writable row.entity := rfl
  unfold insert
  rw [writable]
  cases graph.writable row.entity with
  | error e => rfl
  | ok definition =>
    dsimp only
    cases keyed definition row generated with
    | error e => rfl
    | ok entry =>
      have found : (graph.withCatalog current).entity definition.name.text =
          graph.entity definition.name.text := rfl
      simp only [place, found]
      cases graph.entity definition.name.text <;> rfl

theorem remove_withCatalog : (graph.withCatalog current).remove name key =
    ((graph.remove name key).1, (graph.remove name key).2.withCatalog current) := by
  have writable : (graph.withCatalog current).writable name = graph.writable name := rfl
  unfold remove
  rw [writable]
  cases graph.writable name with
  | error e => rfl
  | ok definition =>
    have found : (graph.withCatalog current).entity definition.name.text =
        graph.entity definition.name.text := rfl
    simp only [found]
    cases graph.entity definition.name.text with
    | error e => rfl
    | ok set =>
      dsimp only
      rcases set.remove key with ⟨_ | _, after⟩ <;> rfl

theorem removeAll_withCatalog (keys : List Key) : (graph.withCatalog current).removeAll name keys =
    ((graph.removeAll name keys).1, (graph.removeAll name keys).2.withCatalog current) := by
  induction keys generalizing graph with
  | nil => rfl
  | cons key keys ih =>
    unfold removeAll
    rw [remove_withCatalog]
    rcases graph.remove name key with ⟨_ | _, after⟩
    · rfl
    · exact ih

theorem clear_withCatalog : (graph.withCatalog current).clear name =
    ((graph.clear name).1, (graph.clear name).2.withCatalog current) := by
  have found : (graph.withCatalog current).entity name = graph.entity name := rfl
  unfold clear
  rw [found]
  cases graph.entity name with
  | error e => rfl
  | ok set => simp only [removeAll_withCatalog]

theorem checkRequired_withCatalog (definition : Definition) (value : Value) (relationships : List Relationship) :
    (graph.withCatalog current).checkRequired definition key value relationships =
      graph.checkRequired definition key value relationships := by
  induction relationships with
  | nil => rfl
  | cons relationship relationships ih =>
    unfold checkRequired
    rw [ih]
    rfl

theorem writeField_withCatalog (field : String) (value : Value) (references : Bool) :
    (graph.withCatalog current).writeField name key field value references =
      ((graph.writeField name key field value references).1,
        (graph.writeField name key field value references).2.withCatalog current) := by
  have checked : (graph.withCatalog current).checkWrite name key field value references =
      graph.checkWrite name key field value references := by
    unfold checkWrite
    simp only [checkRequired_withCatalog]
    rfl
  unfold writeField
  rw [checked]
  cases graph.checkWrite name key field value references with
  | error e => rfl
  | ok write =>
    have found : (graph.withCatalog current).entity write.definition.name.text =
        graph.entity write.definition.name.text := rfl
    simp only [commitWrite, found]
    cases graph.entity write.definition.name.text with
    | error e => rfl
    | ok set =>
      dsimp only
      rcases set.write key field write.value with ⟨_ | _, after⟩ <;> rfl

theorem setReference_withCatalog (relationship : String) (target : Option Key) :
    (graph.withCatalog current).setReference name key relationship target =
      ((graph.setReference name key relationship target).1,
        (graph.setReference name key relationship target).2.withCatalog current) := by
  have value : (graph.withCatalog current).referenceValue name key relationship target =
      graph.referenceValue name key relationship target := rfl
  unfold setReference
  rw [value]
  cases graph.referenceValue name key relationship target with
  | error e => rfl
  | ok reference => exact writeField_withCatalog ..

theorem command_withCatalog (parameters : Columns) : (graph.withCatalog current).command name parameters =
    ((graph.command name parameters).1, (graph.command name parameters).2.withCatalog current) := by
  have found : (graph.withCatalog current).entity name = graph.entity name := rfl
  unfold command
  rw [found]
  cases graph.entity name with
  | error e => rfl
  | ok set =>
    dsimp only
    cases set.definition.resolveParameters parameters <;> rfl

theorem dropEntityChanges_withCatalog : (graph.withCatalog current).dropEntityChanges name =
    ((graph.dropEntityChanges name).1, (graph.dropEntityChanges name).2.withCatalog current) := by
  have found : (graph.withCatalog current).entity name = graph.entity name := rfl
  unfold dropEntityChanges
  rw [found]
  cases graph.entity name <;> rfl

end Operations

/-- A save accepts the pending changes or leaves the graph alone, whatever the catalog says of them. -/
theorem save_cases {σ : Type} [Backend σ] (graph : Graph) (backend : σ) :
    (graph.save backend).2.1 = graph ∨ (graph.save backend).2.1 = graph.dropChanges := by
  unfold save
  grind

/-- Rows are built from the definitions of the graph, not from those of the catalog. -/
theorem Built.of_withCatalog {row : Row} (built : (graph.withCatalog current).Built row) : graph.Built row := by
  induction built with
  | fresh made => exact .fresh made
  | ofColumns made => exact .ofColumns made
  | set field value _ ih => exact .set field value ih

/-- A step on a grown catalog leads to a graph that can be reached on the first one. -/
theorem Step.of_withCatalog (reachable : Reachable catalog config graph)
    (step : Step (graph.withCatalog current) next) :
    ∃ after, Reachable catalog config after ∧ next = after.withCatalog current := by
  cases step with
  | query backend name parameters identity =>
    exact ⟨_, .step reachable (.query backend name parameters identity), by rw [query_withCatalog]⟩
  | insert generated built =>
    exact ⟨_, .step reachable (.insert generated built.of_withCatalog), by rw [insert_withCatalog]⟩
  | remove name key => exact ⟨_, .step reachable (.remove name key), by rw [remove_withCatalog]⟩
  | clear name => exact ⟨_, .step reachable (.clear name), by rw [clear_withCatalog]⟩
  | set name key field value =>
    exact ⟨_, .step reachable (.set name key field value), congrArg Prod.snd (writeField_withCatalog ..)⟩
  | setReference name key relationship target =>
    exact ⟨_, .step reachable (.setReference name key relationship target), by rw [setReference_withCatalog]⟩
  | command name parameters =>
    exact ⟨_, .step reachable (.command name parameters), by rw [command_withCatalog]⟩
  | dropChanges => exact ⟨_, .step reachable .dropChanges, rfl⟩
  | dropEntityChanges name =>
    exact ⟨_, .step reachable (.dropEntityChanges name), by rw [dropEntityChanges_withCatalog]⟩
  | save backend =>
    rcases save_cases (graph.withCatalog current) backend with kept | dropped
    · exact ⟨graph, reachable, kept⟩
    · exact ⟨_, .step reachable .dropChanges, dropped⟩

/-- Up to its catalog, which only grows, a graph is one that can be reached without others. -/
theorem Hosted.exists_reachable (hosted : Hosted catalog config graph) :
    ∃ origin, Reachable catalog config origin ∧ graph.catalog.Extends catalog ∧
      graph = origin.withCatalog graph.catalog := by
  induction hosted with
  | @start graph opened =>
    have reachable : Reachable catalog config graph := .start opened
    exact ⟨graph, reachable, reachable.catalog_eq ▸ .refl _, rfl⟩
  | @step graph next _ step ih =>
    obtain ⟨origin, reachable, grown, same⟩ := ih
    rw [same] at step
    obtain ⟨after, reached, rfl⟩ := step.of_withCatalog reachable
    exact ⟨after, reached, grown, rfl⟩
  | @registered graph definition current _ registers ih =>
    obtain ⟨origin, reachable, grown, same⟩ := ih
    refine ⟨origin, reachable, (Catalog.extends_of_register registers).trans grown, ?_⟩
    rw [same]
    rfl

/-- Every reachable graph is among them. -/
theorem Reachable.hosted (reachable : Reachable catalog config graph) : Hosted catalog config graph := by
  induction reachable with
  | start opened => exact .start opened
  | step _ step ih => exact ih.step step

end Graph
end EntityGraph
