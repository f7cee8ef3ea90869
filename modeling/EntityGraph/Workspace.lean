import EntityGraph.Graph.Navigation
import EntityGraph.Graph.Query
import EntityGraph.Graph.Save
import EntityGraph.KeySupply
import EntityGraph.MemoryBackend

/-! # Workspaces

Several graphs over one catalog and one backend, with the supply of identities and generated keys that
they share. An entity registered later is known to the catalog of every graph, and to the backend if it
uses the same catalog, but no graph holds rows of it. -/
namespace EntityGraph

structure Workspace where
  catalog : Catalog
  backend : MemoryBackend
  /-- Whether the backend follows the catalog of the workspace. -/
  sharesCatalog : Bool
  graphs : List Graph
  identity : Nat
  keys : KeySupply

namespace Workspace

/-- A workspace without graphs, over a backend on the same catalog or on one of its own. -/
def start (catalog : Catalog) (backendCatalog : Option Catalog) (enforcing : Bool) : Workspace where
  catalog := catalog
  backend := .empty (backendCatalog.getD catalog) enforcing
  sharesCatalog := backendCatalog.isNone
  graphs := []
  identity := 0
  keys := .start

/-- Opens a graph and tells its number. -/
def openGraph (workspace : Workspace) (config : GraphConfig) : Except GraphError Nat × Workspace :=
  match Graph.ofCatalog workspace.catalog config with
  | .error e => (.error e, workspace)
  | .ok graph =>
    (.ok workspace.graphs.length, { workspace with graphs := workspace.graphs ++ [graph] })

def setGraph (workspace : Workspace) (number : Nat) (graph : Graph) : Workspace :=
  { workspace with graphs := workspace.graphs.set number graph }

def register (workspace : Workspace) (definition : Definition) : Except SchemaError Unit × Workspace :=
  match workspace.catalog.register definition with
  | .error e => (.error e, workspace)
  | .ok catalog =>
    let backend :=
      if workspace.sharesCatalog then { workspace.backend with catalog } else workspace.backend
    (.ok (), { workspace with
      catalog, backend, graphs := workspace.graphs.map fun graph => { graph with catalog } })

/-- Hands out an identity. -/
def takeIdentity (workspace : Workspace) : Nat × Workspace :=
  (workspace.identity, { workspace with identity := workspace.identity + 1 })

/-- Runs a query. Every row of the result may take an identity, and a result has at most the rows that
the backend holds. -/
def query (workspace : Workspace) (number : Nat) (graph : Graph) (name : String) (parameters : Columns) :
    Except GraphError (List (Key × Row)) × Workspace :=
  let (outcome, graph) := graph.query workspace.backend name parameters workspace.identity
  let rows := (workspace.backend.rows name).length
  (outcome, { workspace.setGraph number graph with identity := workspace.identity + rows })

/-- Inserts a row at a reading of the clock in milliseconds. A key is used up only if the row wants it. -/
def insert (workspace : Workspace) (number : Nat) (graph : Graph) (row : Row) (millis : Int64) :
    Except GraphError Key × Workspace :=
  let (generated, rest) := workspace.keys.next millis
  let wanted := (graph.writable row.entity).toOption.any fun definition => Graph.wantsKey definition row
  let keys := if wanted then rest else workspace.keys
  let (outcome, graph) := graph.insert row generated
  (outcome, { workspace.setGraph number graph with keys })

def save (workspace : Workspace) (number : Nat) (graph : Graph) : Except GraphError Nat × Workspace :=
  let (outcome, graph, backend) := graph.save workspace.backend
  (outcome, { workspace.setGraph number graph with backend })

end Workspace
end EntityGraph
