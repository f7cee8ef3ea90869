import EntityGraph.Definition
import EntityGraph.Json.Document

/-! # Definitions as JSON

A record is written as an object with its entries in a fixed order. It is read from an object in any
order, or from an array that gives the entries in that order and may leave out optional ones at its
end. An entry that occurs twice is refused, and entries of other names are ignored, not even
evaluated. -/
namespace EntityGraph

namespace Json.Document

/-- The entries of an object under the given names; a name that occurs twice is refused. -/
def entries? (names : List String) (members : List (Quoted × Document)) :
    Option (List (Option Document)) := do
  let members ← members.mapM fun member => return ((← member.1.eval?), member.2)
  names.mapM fun name =>
    match members.filter fun member => member.1 == name with
    | [] => some none
    | [member] => some (some member.2)
    | _ => none

/-- The entries of a record in the order of the given names, with `none` for one that is left out. -/
def record? (names : List String) : Document → Option (List (Option Document))
  | .object members => entries? names members
  | .array items =>
    if items.length ≤ names.length then
      some (items.map some ++ List.replicate (names.length - items.length) none)
    else none
  | _ => none

def string? : Document → Option String
  | .string s => s.eval?
  | _ => none

def bool? : Document → Option Bool
  | .bool b => some b
  | _ => none

/-- Null or a value that the reader accepts. -/
def nullable? {α : Type} (read : Document → Option α) : Document → Option (Option α)
  | .null => some none
  | document => some <$> read document

def list? {α : Type} (read : Document → Option α) : Document → Option (List α)
  | .array items => items.mapM read
  | _ => none

def value? (document : Document) : Option Value := document.eval? maxDepth >>= Value.ofJson?

def entityName? (document : Document) : Option EntityName := do
  (EntityName.ofString (← document.string?)).toOption

/-- The name of a type, alone or as the only member of an object with the value null. -/
def dataType? : Document → Option DataType
  | .string s => s.eval? >>= DataType.ofName?
  | .object [(key, .null)] => key.eval? >>= DataType.ofName?
  | _ => none

/-- An entry that may be left out. -/
def optional {α : Type} (read : Document → Option α) (absent : α) : Option Document → Option α
  | some document => read document
  | none => some absent

end Json.Document

open Json.Document

namespace Field

def ofDocument? (document : Json.Document) : Option Field := do
  match ← document.record? ["name", "type", "required", "default", "description"] with
  | [some name, some type, required, default, description] =>
    some {
      name := ← name.string?
      type := ← type.dataType?
      required := ← optional bool? false required
      default := ← optional (nullable? value?) none default
      description := ← optional (nullable? string?) none description }
  | _ => none

def toJson (field : Field) : Json :=
  .object <|
    [("name", .string field.name), ("type", .string field.type.name), ("required", .bool field.required)]
      ++ (field.default.map fun value => ("default", value.toJson)).toList
      ++ (field.description.map fun text => ("description", .string text)).toList

end Field

namespace Relationship

def ofDocument? (document : Json.Document) : Option Relationship := do
  match ← document.record? ["name", "field", "target", "inverse"] with
  | [some name, some field, some target, inverse] =>
    some {
      name := ← name.string?
      field := ← field.string?
      target := ← target.entityName?
      inverse := ← optional (nullable? string?) none inverse }
  | _ => none

def toJson (relationship : Relationship) : Json :=
  .object <|
    [("name", .string relationship.name), ("field", .string relationship.field),
      ("target", .string relationship.target.text)]
      ++ (relationship.inverse.map fun text => ("inverse", .string text)).toList

end Relationship

namespace Parameter

def ofDocument? (document : Json.Document) : Option Parameter := do
  match ← document.record? ["name", "type", "default", "field"] with
  | [some name, some type, default, field] =>
    some {
      name := ← name.string?
      type := ← type.dataType?
      default := ← optional value? .null default
      field := ← optional (nullable? string?) none field }
  | _ => none

def toJson (parameter : Parameter) : Json :=
  .object <|
    [("name", .string parameter.name), ("type", .string parameter.type.name),
      ("default", parameter.default.toJson)]
      ++ (parameter.field.map fun text => ("field", .string text)).toList

end Parameter

namespace Definition

def ofDocument? (document : Json.Document) : Option Definition := do
  match ← document.record?
    ["name", "key", "fields", "relationships", "parameters", "read_only", "description"] with
  | [some name, some key, some fields, relationships, parameters, readOnly, description] =>
    some {
      name := ← name.entityName?
      key := ← key.string?
      fields := ← fields.list? Field.ofDocument?
      relationships := ← optional (list? Relationship.ofDocument?) [] relationships
      parameters := ← optional (list? Parameter.ofDocument?) [] parameters
      readOnly := ← optional bool? false readOnly
      description := ← optional (nullable? string?) none description }
  | _ => none

def toJson (definition : Definition) : Json :=
  .object <|
    [("name", .string definition.name.text), ("key", .string definition.key),
      ("fields", .array (definition.fields.map Field.toJson))]
      ++ (if definition.relationships.isEmpty then []
          else [("relationships", .array (definition.relationships.map Relationship.toJson))])
      ++ (if definition.parameters.isEmpty then []
          else [("parameters", .array (definition.parameters.map Parameter.toJson))])
      ++ [("read_only", .bool definition.readOnly)]
      ++ (definition.description.map fun text => ("description", .string text)).toList

/-- Reads one definition from a text. -/
def read? (text : String) : Option Definition := Json.Document.read? text >>= ofDocument?

/-- Reads a list of definitions from a text. -/
def readAll? (text : String) : Option (List Definition) := Json.Document.read? text >>= list? ofDocument?

end Definition
end EntityGraph
