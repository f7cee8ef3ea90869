import EntityGraph.Definition
import EntityGraph.Key

/-! # Rows

A row holds a value for every declared field, each of the declared type. Values are coerced when they
enter a row. Two rows are the same object when they have the same identity, whatever they hold. -/
namespace EntityGraph

inductive RowError where
  | unknownField (entity field : String)
  | typeMismatch (entity field expected actual : String)
  | nullValue (entity field : String)
  | missingKey (entity : String)
  deriving DecidableEq, Repr

namespace RowError

def message : RowError → String
  | .unknownField entity field => s!"field '{field}' is not found in entity '{entity}'"
  | .typeMismatch entity field expected actual =>
    s!"field '{field}' of entity '{entity}' expects {expected}, got {actual}"
  | .nullValue entity field => s!"field '{field}' of entity '{entity}' cannot be null"
  | .missingKey entity => s!"row of entity '{entity}' has no key"

/-- The field that the error is about. -/
def field? : RowError → Option String
  | .unknownField _ field => some field
  | .typeMismatch _ field _ _ => some field
  | .nullValue _ field => some field
  | .missingKey _ => none

end RowError

namespace Definition

/-- Converts a value to the declared type of a field. -/
def coerceField (definition : Definition) (name : String) (value : Value) : Except RowError Value :=
  match definition.field? name with
  | none => .error (.unknownField definition.name.text name)
  | some field =>
    match field.type.coerce? value with
    | some value => .ok value
    | none =>
      .error (.typeMismatch definition.name.text name field.type.name value.typeName)

/-- Converts a value for a write to a field, which refuses null if the field is required. -/
def coerceWrite (definition : Definition) (name : String) (value : Value) : Except RowError Value := do
  let value ← definition.coerceField name value
  if value.isNull && definition.requires name then .error (.nullValue definition.name.text name)
  else .ok value

/-- Converts every value to the declared type of its field, in the order of the names. -/
def coerceAll (definition : Definition) : List (String × Value) → Except RowError (List (String × Value))
  | [] => .ok []
  | (name, value) :: rest => do
    let value ← definition.coerceField name value
    let rest ← definition.coerceAll rest
    return (name, value) :: rest

/-- Gives the fields that are left out their initial values. -/
def complete (definition : Definition) (columns : Columns) : Columns :=
  definition.fields.foldl (fun columns field => columns.insertIfNew field.name field.initial) columns

/-- The columns of a row that is built from some of its columns. -/
def rowColumns (definition : Definition) (columns : Columns) : Except RowError Columns := do
  let entries ← definition.coerceAll columns.toList
  return definition.complete (Std.ExtTreeMap.ofList entries)

/-- The key that columns hold in the key field. -/
def keyOf? (definition : Definition) (columns : Columns) : Option Key :=
  columns[definition.key]? >>= Key.ofValue?

end Definition

structure Row where
  definition : Definition
  identity : Nat
  columns : Columns
  deriving DecidableEq

namespace Row

/-- A row that holds the initial value of every field. -/
def fresh (definition : Definition) (identity : Nat) : Row :=
  ⟨definition, identity, .ofList (definition.fields.map fun field => (field.name, field.initial))⟩

def ofColumns (definition : Definition) (identity : Nat) (columns : Columns) : Except RowError Row := do
  let columns ← definition.rowColumns columns
  return ⟨definition, identity, columns⟩

def entity (row : Row) : String := row.definition.name.text

def get? (row : Row) (field : String) : Option Value := row.columns[field]?

/-- The key of the row, `none` while its key field is null. -/
def key? (row : Row) : Option Key := row.definition.keyOf? row.columns

/-- Overwrites a field and tells the value that it held before. A refused write leaves the row as it is. -/
def set (row : Row) (field : String) (value : Value) : Except RowError Value × Row :=
  match row.definition.coerceWrite field value with
  | .error e => (.error e, row)
  | .ok value => (.ok ((row.get? field).getD .null), { row with columns := row.columns.insert field value })

/-- Whether a field holds no value. -/
def lacks (row : Row) (field : String) : Bool := ((row.get? field).getD .null).isNull

/-- Checks that the key and every required field hold a value. -/
def checkRequired (row : Row) : Except RowError Unit :=
  if row.key?.isNone then .error (.missingKey row.entity)
  else
    match row.definition.fields.find? fun field => field.required && row.lacks field.name with
    | some field => .error (.nullValue row.entity field.name)
    | none => .ok ()

def sameValues (a b : Row) : Bool := a.columns == b.columns

end Row
end EntityGraph
