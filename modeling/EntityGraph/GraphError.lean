import EntityGraph.Backend
import EntityGraph.Change.Decoder
import EntityGraph.QueryParameters

/-! # Errors of the graph -/
namespace EntityGraph

inductive GraphError where
  /-- A relationship leads to no row of the graph. -/
  | unresolvedReference (entity row relationship target key : String)
  /-- A key is written that another row holds. -/
  | staleKey (entity key : String)
  /-- The backend refused a batch for its data. -/
  | saveConflict (error : BackendError)
  | backend (error : BackendError)
  | decode (error : DecodeError)
  | row (error : RowError)
  | schema (error : SchemaError)
  | entityNotFound (entity : String)
  | rowNotFound (entity key : String)
  | relationshipNotFound (entity relationship : String)
  | unknownParameter (entity parameter : String)
  | invalidParameter (entity parameter expected actual : String)
  | readOnly (entity : String)
  | corrupted (reason : String)
  deriving DecidableEq, Repr

namespace GraphError

def message : GraphError → String
  | .unresolvedReference entity dependent relationship target key =>
    s!"'{entity}' row {dependent}: '{relationship}' references missing '{target}' row {key}"
  | .staleKey entity key => s!"key {key} is already taken in '{entity}'"
  | .saveConflict error => s!"save conflict: {error.message}"
  | .backend error => s!"backend error: {error.message}"
  | .decode error => s!"decode error: {error.message}"
  | .row error => s!"row error: {error.message}"
  | .schema error => s!"schema error: {error.message}"
  | .entityNotFound entity => s!"entity not found: {entity}"
  | .rowNotFound entity key => s!"row {key} not found in '{entity}'"
  | .relationshipNotFound entity relationship =>
    s!"relationship '{relationship}' not found in '{entity}'"
  | .unknownParameter entity parameter => (ParameterError.unknown entity parameter).message
  | .invalidParameter entity parameter expected actual =>
    (ParameterError.typeMismatch entity parameter expected actual).message
  | .readOnly entity => s!"entity '{entity}' is read-only"
  | .corrupted reason => s!"model corrupted: {reason}"

/-- Whether the same call may succeed later. -/
def isRetryable : GraphError → Bool
  | .saveConflict _ => true
  | .backend _ => true
  | _ => false

/-- Whether the graph can no longer be trusted. -/
def isFatal : GraphError → Bool
  | .corrupted _ => true
  | _ => false

/-- The error of a batch that a backend refused. -/
def ofSubmit (error : BackendError) : GraphError :=
  if error.isConflict then .saveConflict error else .backend error

def ofParameter : ParameterError → GraphError
  | .unknown entity parameter => .unknownParameter entity parameter
  | .typeMismatch entity parameter expected actual => .invalidParameter entity parameter expected actual

end GraphError
end EntityGraph
