import EntityGraph.EntitySet
import EntityGraph.GraphError
import EntityGraph.Groups
import EntityGraph.SaveOrder

/-! # Graphs

A graph holds the rows of every entity of a catalog, the groups of dependents, and the commands that
wait for the next save. Its entities are those of the catalog at the time it was opened. An operation
returns its outcome and the graph after it, also when it fails. -/
namespace EntityGraph

structure GraphConfig where
  /-- Refuse a write to a required foreign key that leads to no row. -/
  checkReferences : Bool := true
  /-- Drop clean rows that a reload of a clean entity does not return. -/
  evictOnReload : Bool := true
  /-- Check changes against the catalog before a save. -/
  validateChanges : Bool := true
  deriving DecidableEq, Repr

structure Graph where
  catalog : Catalog
  config : GraphConfig
  /-- The definitions in save order. -/
  order : List Definition
  entities : Std.ExtTreeMap String EntitySet
  groups : Groups
  /-- By principal and inverse name, the relationship of the dependents. -/
  inverses : Std.ExtTreeMap Link Link
  commands : List Change
  deriving DecidableEq

namespace Graph

def inverseOf? (definition : Definition) (relationship : Relationship) : Option (Link × Link) :=
  relationship.inverse.map fun inverse =>
    (⟨relationship.target.text, inverse⟩, ⟨definition.name.text, relationship.name⟩)

/-- A graph without rows on a valid catalog. -/
def ofCatalog (catalog : Catalog) (config : GraphConfig) : Except GraphError Graph := do
  catalog.validate.mapError .schema
  return {
    catalog, config
    order := saveOrder catalog.definitions
    entities := catalog.entities.map fun _ definition => EntitySet.empty definition
    groups := .empty
    inverses := Std.ExtTreeMap.ofList <|
      catalog.relationships.filterMap fun (definition, relationship) => inverseOf? definition relationship
    commands := [] }

def entity (graph : Graph) (name : String) : Except GraphError EntitySet :=
  match graph.entities[name]? with
  | some set => .ok set
  | none => .error (.entityNotFound name)

/-- The definition of an entity whose rows may change. -/
def writable (graph : Graph) (name : String) : Except GraphError Definition := do
  let set ← graph.entity name
  if set.definition.readOnly then .error (.readOnly name) else .ok set.definition

/-- The row under a key. -/
def row (graph : Graph) (name : String) (key : Key) : Except GraphError Row := do
  let set ← graph.entity name
  match set.get? key with
  | some row => .ok row
  | none => .error (.rowNotFound name key.display)

def relationship (definition : Definition) (name : String) : Except GraphError Relationship :=
  match definition.relationship? name with
  | some relationship => .ok relationship
  | none => .error (.relationshipNotFound definition.name.text name)

/-- A row that belongs to no graph yet, with the initial value of every field. -/
def newRow (graph : Graph) (name : String) (identity : Nat) : Except GraphError Row := do
  let set ← graph.entity name
  return Row.fresh set.definition identity

/-- A row that belongs to no graph yet, from some of its columns. -/
def buildRow (graph : Graph) (name : String) (identity : Nat) (columns : Columns) :
    Except GraphError Row := do
  let set ← graph.entity name
  (Row.ofColumns set.definition identity columns).mapError .row

/-- Replaces the rows of an entity and the groups. -/
def put (graph : Graph) (name : String) (set : EntitySet) (groups : Groups) : Graph :=
  { graph with entities := graph.entities.insert name set, groups }

def isDirty (graph : Graph) : Bool :=
  !graph.commands.isEmpty || graph.entities.values.any EntitySet.isDirty

/-- Queues a command for the next save. -/
def command (graph : Graph) (name : String) (parameters : Columns) : Except GraphError Unit × Graph :=
  match graph.entity name with
  | .error e => (.error e, graph)
  | .ok set =>
    match set.definition.resolveParameters parameters with
    | .error e => (.error (.ofParameter e), graph)
    | .ok parameters =>
      let change := Change.command set.definition.name parameters none
      (.ok (), { graph with commands := graph.commands ++ [change] })

end Graph
end EntityGraph
