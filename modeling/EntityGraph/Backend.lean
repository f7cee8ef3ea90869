import EntityGraph.Change
import EntityGraph.Row

/-! # Backends

A backend answers the query of an entity and applies batches of changes. -/
namespace EntityGraph

inductive BackendError where
  | duplicateKey (entity key : String)
  /-- A row refers to a principal that does not exist. -/
  | foreignKeyViolation (entity key field target value : String)
  /-- A principal leaves while a dependent refers to it. -/
  | stillReferenced (entity key dependent : String)
  | unknownField (entity field : String)
  | entityNotFound (entity : String)
  | missingKey (entity : String)
  | invalidData (entity reason : String)
  | command (entity reason : String)
  | unavailable (reason : String)
  deriving DecidableEq, Repr

namespace BackendError

def message : BackendError → String
  | .duplicateKey entity key => s!"duplicate key {key} in '{entity}'"
  | .foreignKeyViolation entity key field target value =>
    s!"'{entity}' row {key}: '{field}' references missing '{target}' row {value}"
  | .stillReferenced entity key dependent =>
    s!"'{entity}' row {key} is still referenced by '{dependent}'"
  | .unknownField entity field => s!"field '{field}' is not found in entity '{entity}'"
  | .entityNotFound entity => s!"entity not found: {entity}"
  | .missingKey entity => s!"change on '{entity}' does not carry its key"
  | .invalidData entity reason => s!"invalid data for '{entity}': {reason}"
  | .command entity reason => s!"command '{entity}' failed: {reason}"
  | .unavailable reason => s!"backend unavailable: {reason}"

/-- Whether the batch was refused for the data that it carries. -/
def isConflict : BackendError → Bool
  | .duplicateKey _ _ => true
  | .foreignKeyViolation _ _ _ _ _ => true
  | .stillReferenced _ _ _ => true
  | .invalidData _ _ => true
  | _ => false

def ofRow (error : RowError) : BackendError :=
  match error with
  | .unknownField entity field => .unknownField entity field
  | .missingKey entity => .missingKey entity
  | .typeMismatch entity _ _ _ => .invalidData entity error.message
  | .nullValue entity _ => .invalidData entity error.message

end BackendError

class Backend (σ : Type) where
  /-- The columns of the rows that the query of an entity yields for resolved parameters. -/
  read : σ → Definition → Columns → Except BackendError (List Columns)
  /-- Applies a batch in order and counts the affected rows. -/
  submit : σ → List Change → Except BackendError Nat × σ

end EntityGraph
