import EntityGraph.Change.Validation
import EntityGraph.Graph.Edit

/-! # Saving

A save submits the pending changes of all entities and the queued commands as one batch. A batch from
elsewhere goes to the backend without touching the graph. -/
namespace EntityGraph.Graph

/-- The batch that a save submits. -/
def pendingChanges (graph : Graph) : List Change :=
  let parts := graph.order.filterMap fun definition =>
    graph.entities[definition.name.text]?.map fun set => (definition, set.changes)
  Batch.assemble parts graph.commands

variable {σ : Type} [Backend σ]

/-- Submits the pending changes. After a success they count as persisted; after a failure the graph is
as before. -/
def save (graph : Graph) (backend : σ) : Except GraphError Nat × Graph × σ :=
  let batch := graph.pendingChanges
  if batch.isEmpty then (.ok 0, graph, backend)
  else
    let checked := if graph.config.validateChanges then Change.validateAll graph.catalog batch else .ok ()
    match checked with
    | .error e => (.error e, graph, backend)
    | .ok () =>
      match Backend.submit backend batch with
      | (.error e, backend) => (.error (.ofSubmit e), graph, backend)
      | (.ok affected, backend) => (.ok affected, graph.dropChanges, backend)

/-- Submits a batch from elsewhere after checking it against the catalog. -/
def submit (graph : Graph) (backend : σ) (changes : List Change) : Except GraphError Nat × σ :=
  match Change.validateAll graph.catalog changes with
  | .error e => (.error e, backend)
  | .ok () =>
    let (outcome, backend) := Backend.submit backend changes
    (outcome.mapError .ofSubmit, backend)

/-- Reads a batch from a text and submits it. -/
def submitText (graph : Graph) (backend : σ) (text : String) : Except GraphError Nat × σ :=
  match Change.decodeText (some graph.catalog) text with
  | .error e => (.error (.decode e), backend)
  | .ok changes => graph.submit backend changes

end EntityGraph.Graph
