import EntityGraph.Graph

/-! # Navigation

From a dependent to its principal, and from a principal to its dependents. -/
namespace EntityGraph.Graph

/-- The principal to which a row refers. A required relationship must lead to a row; another one leads
to none while its field is null. -/
def reference (graph : Graph) (row : Row) (relationship : String) : Except GraphError (Option Row) := do
  let definition := row.definition
  let relationship ← Graph.relationship definition relationship
  let target ← graph.entity relationship.target.text
  let unresolved (key : String) : GraphError :=
    .unresolvedReference definition.name.text ((row.key?.map Key.display).getD "(new)")
      relationship.name relationship.target.text key
  match row.get? relationship.field >>= Key.ofValue? with
  | none => if definition.isRequired relationship then .error (unresolved "null") else .ok none
  | some principal =>
    match target.get? principal with
    | some row => .ok (some row)
    | none => .error (unresolved principal.display)

def referenceOf (graph : Graph) (name : String) (key : Key) (relationship : String) :
    Except GraphError (Option Row) := do
  let row ← graph.row name key
  graph.reference row relationship

/-- The rows of an entity that refer to a principal through a relationship, in key order. -/
def group (graph : Graph) (dependent relationship : String) (principal : Key) :
    Except GraphError (List Row) := do
  let set ← graph.entity dependent
  let _ ← Graph.relationship set.definition relationship
  let keys := graph.groups.members set.definition.name.text relationship principal
  return keys.filterMap set.get?

/-- The dependents of a principal through the inverse name of a relationship. -/
def children (graph : Graph) (principal : String) (key : Key) (inverse : String) :
    Except GraphError (List Row) := do
  let set ← graph.entity principal
  match graph.inverses[(⟨set.definition.name.text, inverse⟩ : Link)]? with
  | none => .error (.relationshipNotFound principal inverse)
  | some link => graph.group link.entity link.relationship key

end EntityGraph.Graph
