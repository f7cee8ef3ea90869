import EntityGraph.Graph

/-! # Queries

The rows that a backend returns are merged into the identity map. A row with pending edits stays as it
is, another row takes the new values and keeps its identity. When the entity had no pending edits, a
reload drops the rows that were not returned. -/
namespace EntityGraph.Graph

/-- Builds the rows of a result, which take identities in order. -/
def resultRows (definition : Definition) (identity : Nat) :
    List Columns → Except RowError (List (Key × Row))
  | [] => .ok []
  | columns :: rest => do
    let row ← Row.ofColumns definition identity columns
    match row.key? with
    | none => .error (.missingKey definition.name.text)
    | some key =>
      let rest ← resultRows definition (identity + 1) rest
      return (key, row) :: rest

/-- Merges one row. -/
def mergeRow (definition : Definition) (state : EntitySet × Groups) (entry : Key × Row) :
    EntitySet × Groups :=
  let (set, groups) := state
  let (key, row) := entry
  if set.isPending key then state
  else
    match set.get? key with
    | none => (set.load key row, groups.indexRow definition key row.columns)
    | some existing =>
      if existing.sameValues row then state
      else
        (set.refresh key row.columns,
          (groups.unindexRow definition key existing.columns).indexRow definition key row.columns)

/-- Drops the row under a key. -/
def evictRow (definition : Definition) (state : EntitySet × Groups) (key : Key) : EntitySet × Groups :=
  let (set, groups) := state
  match set.get? key with
  | none => state
  | some row => (set.evict key, groups.unindexRow definition key row.columns)

/-- Merges the rows of a result. `replace` tells whether rows that are not among them are dropped. -/
def mergeRows (definition : Definition) (replace : Bool) (state : EntitySet × Groups)
    (rows : List (Key × Row)) : EntitySet × Groups :=
  let merged := rows.foldl (mergeRow definition) state
  let returned := rows.map Prod.fst
  let stale := if replace then merged.1.keys.filter fun key => !returned.contains key else []
  stale.foldl (evictRow definition) merged

/-- Merges a result into the graph and marks the entity as queried. -/
def merge (graph : Graph) (definition : Definition) (rows : List (Key × Row)) :
    Except GraphError Unit × Graph :=
  match graph.entity definition.name.text with
  | .error e => (.error e, graph)
  | .ok set =>
    let replace := !set.isDirty && graph.config.evictOnReload && set.loaded
    let (set, groups) := mergeRows definition replace (set, graph.groups) rows
    (.ok (), graph.put definition.name.text set.markLoaded groups)

/-- The rows of the graph under the keys of a result, in key order. -/
def result (set : EntitySet) (rows : List (Key × Row)) : List (Key × Row) :=
  (Std.ExtTreeSet.ofList (rows.map Prod.fst)).toList.filterMap fun key =>
    (set.get? key).map fun row => (key, row)

/-- Reads the rows that a query yields, without changing the graph. -/
def fetch {σ : Type} [Backend σ] (graph : Graph) (backend : σ) (name : String) (parameters : Columns)
    (identity : Nat) : Except GraphError (Definition × List (Key × Row)) := do
  let set ← graph.entity name
  let parameters ← (set.definition.resolveParameters parameters).mapError .ofParameter
  let records ← (Backend.read backend set.definition parameters).mapError .backend
  let rows ← (resultRows set.definition identity records).mapError .row
  return (set.definition, rows)

/-- Runs the query of an entity. New rows take identities from `identity` on. -/
def query {σ : Type} [Backend σ] (graph : Graph) (backend : σ) (name : String) (parameters : Columns)
    (identity : Nat) : Except GraphError (List (Key × Row)) × Graph :=
  match graph.fetch backend name parameters identity with
  | .error e => (.error e, graph)
  | .ok (definition, rows) =>
    match graph.merge definition rows with
    | (.error e, graph) => (.error e, graph)
    | (.ok (), graph) => ((graph.entity name).map fun set => result set rows, graph)

end EntityGraph.Graph
