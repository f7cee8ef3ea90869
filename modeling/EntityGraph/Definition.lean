import EntityGraph.EntityName
import EntityGraph.Value

/-! # Entity definitions

A definition declares the fields of an entity, which of them is the key, the relationships of its rows
to rows of other entities, and the parameters of its query. A definition is valid on its own when names
do not repeat, defaults fit their types, the key is a required integer or text field, and every
relationship and parameter is over a declared field. -/
namespace EntityGraph

structure Field where
  name : String
  type : DataType
  required : Bool := false
  /-- The value of a fresh row. -/
  default : Option Value := none
  description : Option String := none
  deriving DecidableEq, Repr

/-- A reference from a dependent row to a principal row. -/
structure Relationship where
  name : String
  /-- The field of the dependent that holds the key of the principal. -/
  field : String
  target : EntityName
  /-- The name under which the principal knows its dependents. -/
  inverse : Option String
  deriving DecidableEq, Repr

structure Parameter where
  name : String
  type : DataType
  default : Value
  /-- The field that the parameter filters by equality. -/
  field : Option String
  deriving DecidableEq, Repr

structure Definition where
  name : EntityName
  key : String
  fields : List Field
  relationships : List Relationship
  parameters : List Parameter
  /-- A read-only entity refuses inserts, updates and deletes. -/
  readOnly : Bool
  description : Option String
  deriving DecidableEq, Repr

inductive SchemaError where
  | invalidName (error : InvalidName)
  | duplicateField (entity field : String)
  | fieldNotFound (entity field : String)
  | invalidKey (entity reason : String)
  | invalidDefault (entity field : String)
  | duplicateRelationship (entity relationship : String)
  | invalidRelationship (entity relationship reason : String)
  | duplicateInverse (entity inverse : String)
  | duplicateParameter (entity parameter : String)
  | entityExists (entity : String)
  | entityNotFound (entity : String)
  | load (reason : String)
  deriving DecidableEq, Repr

namespace SchemaError

def message : SchemaError → String
  | .invalidName error => s!"invalid entity name: {error.message}"
  | .duplicateField entity field => s!"duplicate field '{field}' in entity '{entity}'"
  | .fieldNotFound entity field => s!"field '{field}' is not found in entity '{entity}'"
  | .invalidKey entity reason => s!"invalid key in entity '{entity}': {reason}"
  | .invalidDefault entity field => s!"invalid default for '{field}' in entity '{entity}'"
  | .duplicateRelationship entity relationship =>
    s!"duplicate relationship '{relationship}' in entity '{entity}'"
  | .invalidRelationship entity relationship reason =>
    s!"invalid relationship '{relationship}' in entity '{entity}': {reason}"
  | .duplicateInverse entity inverse => s!"duplicate inverse '{inverse}' on entity '{entity}'"
  | .duplicateParameter entity parameter => s!"duplicate parameter '{parameter}' in entity '{entity}'"
  | .entityExists entity => s!"entity already exists: {entity}"
  | .entityNotFound entity => s!"entity not found: {entity}"
  | .load reason => s!"catalog load error: {reason}"

end SchemaError

namespace Field

/-- The value of the field in a fresh row. -/
def initial (field : Field) : Value := (field.default.bind field.type.coerce?).getD .null

def display (field : Field) : String :=
  s!"{field.name} {field.type.name}" ++ (if field.required then " required" else "") ++
    match field.default with
    | some value => s!" default {value.display}"
    | none => ""

end Field

namespace Definition

def field? (definition : Definition) (name : String) : Option Field :=
  definition.fields.find? fun field => field.name == name

def keyField? (definition : Definition) : Option Field := definition.field? definition.key

def relationship? (definition : Definition) (name : String) : Option Relationship :=
  definition.relationships.find? fun relationship => relationship.name == name

def relationshipsOn (definition : Definition) (field : String) : List Relationship :=
  definition.relationships.filter fun relationship => relationship.field == field

/-- Whether a field is declared and required. -/
def requires (definition : Definition) (field : String) : Bool :=
  (definition.field? field).any Field.required

/-- A relationship over a required field must lead to a principal. -/
def isRequired (definition : Definition) (relationship : Relationship) : Bool :=
  definition.requires relationship.field

def parameter? (definition : Definition) (name : String) : Option Parameter :=
  definition.parameters.find? fun parameter => parameter.name == name

def checkFields (entity : String) (seen : List String) : List Field → Except SchemaError Unit
  | [] => .ok ()
  | field :: fields =>
    if field.name ∈ seen then .error (.duplicateField entity field.name)
    else if field.default.any fun value => (field.type.coerce? value).isNone then
      .error (.invalidDefault entity field.name)
    else checkFields entity (field.name :: seen) fields

def checkKey (definition : Definition) : Except SchemaError Unit :=
  let entity := definition.name.text
  match definition.keyField? with
  | none => .error (.invalidKey entity s!"key field '{definition.key}' is not declared")
  | some field =>
    if !field.type.isKeyType then
      .error (.invalidKey entity s!"key field '{field.name}' has type {field.type.name}")
    else if !field.required then
      .error (.invalidKey entity s!"key field '{field.name}' must be required")
    else .ok ()

def checkRelationships (definition : Definition) (seen : List String) :
    List Relationship → Except SchemaError Unit
  | [] => .ok ()
  | relationship :: relationships =>
    let entity := definition.name.text
    let invalid reason := .error (.invalidRelationship entity relationship.name reason)
    if relationship.name ∈ seen then .error (.duplicateRelationship entity relationship.name)
    else
      match definition.field? relationship.field with
      | none => .error (.fieldNotFound entity relationship.field)
      | some field =>
        if !field.type.isKeyType then invalid s!"field '{field.name}' has type {field.type.name}"
        else if relationship.field == definition.key then
          invalid "the key field cannot be a foreign key"
        else checkRelationships definition (relationship.name :: seen) relationships

def checkParameters (definition : Definition) (seen : List String) :
    List Parameter → Except SchemaError Unit
  | [] => .ok ()
  | parameter :: parameters =>
    let entity := definition.name.text
    if parameter.name ∈ seen then .error (.duplicateParameter entity parameter.name)
    else if (parameter.type.coerce? parameter.default).isNone then
      .error (.invalidDefault entity parameter.name)
    else
      match parameter.field.filter fun field => (definition.field? field).isNone with
      | some field => .error (.fieldNotFound entity field)
      | none => checkParameters definition (parameter.name :: seen) parameters

/-- Checks a definition on its own. Whether the targets of its relationships exist is for the catalog. -/
def validate (definition : Definition) : Except SchemaError Unit := do
  checkFields definition.name.text [] definition.fields
  checkKey definition
  checkRelationships definition [] definition.relationships
  checkParameters definition [] definition.parameters

end Definition
end EntityGraph
