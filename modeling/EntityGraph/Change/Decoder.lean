import EntityGraph.Catalog
import EntityGraph.Change

/-! # Reading changes

A batch is read record by record, and the first faulty record refuses it. Without a catalog every
scalar is taken as it stands. With one, entities and fields must be declared and every value is
converted to its declared type. -/
namespace EntityGraph

/-- What is wrong with a record. -/
inductive RecordFault where
  | invalid (reason : String)
  | noKind
  | unknownKind (kind : String)
  | noEntity
  | noKeys (entity : String)
  | invalidTimestamp (entity field raw : String)
  | typeMismatch (entity field expected raw : String)
  | unsupportedValue (entity field raw : String)
  | unknownEntity (entity : String)
  | unknownField (entity field : String)
  deriving DecidableEq, Repr

namespace RecordFault

/-- The fault, said of the record. -/
def message : RecordFault → String
  | .invalid reason => s!"is invalid: {reason}"
  | .noKind => "has no kind"
  | .unknownKind kind => s!"has unknown kind '{kind}'"
  | .noEntity => "has no entity"
  | .noKeys entity => s!"on '{entity}' has no keys"
  | .invalidTimestamp entity field raw => s!"on '{entity}': field '{field}' has invalid timestamp {raw}"
  | .typeMismatch entity field expected raw =>
    s!"on '{entity}': field '{field}' expects {expected}, got {raw}"
  | .unsupportedValue entity field raw =>
    s!"on '{entity}': field '{field}' has unsupported value {raw}"
  | .unknownEntity entity => s!"refers to unknown entity '{entity}'"
  | .unknownField entity field => s!"on '{entity}' refers to unknown field '{field}'"

end RecordFault

inductive DecodeError where
  | malformed
  | notAnArray
  | record (index : Nat) (fault : RecordFault)
  deriving DecidableEq, Repr

namespace DecodeError

def message : DecodeError → String
  | .malformed => "malformed changes: not a JSON text"
  | .notAnArray => "changes must be a JSON array"
  | .record index fault => s!"change #{index} {fault.message}"

/-- The position of the faulty record. -/
def index? : DecodeError → Option Nat
  | .record index _ => some index
  | _ => none

end DecodeError

namespace Change

/-- The declared type of each name, or nothing when values are taken as they stand. -/
abbrev Declared := Option (String → Option DataType)

def fieldTypes (definition : Definition) (name : String) : Option DataType :=
  (definition.field? name).map Field.type

def parameterTypes (definition : Definition) (name : String) : Option DataType :=
  (definition.parameter? name).map Parameter.type

/-- Converts a scalar to a declared type. -/
def reviveValue (entity field : String) (raw : Json) (value : Value) (type : DataType) :
    Except RecordFault Value :=
  match type.coerce? value with
  | some value => .ok value
  | none =>
    if type = .timestamp ∧ (value.asText?.isSome ∨ value.asInteger?.isSome) then
      .error (.invalidTimestamp entity field raw.text)
    else .error (.typeMismatch entity field type.name raw.text)

def decodeValue (entity : String) (declared : Declared) (field : String) (raw : Json) :
    Except RecordFault Value :=
  match Value.ofJson? raw with
  | none => .error (.unsupportedValue entity field raw.text)
  | some value =>
    match declared with
    | none => .ok value
    | some types =>
      match types field with
      | none => .error (.unknownField entity field)
      | some type => reviveValue entity field raw value type

def decodeEach (entity : String) (declared : Declared) :
    List (String × Json) → Except RecordFault (List (String × Value))
  | [] => .ok []
  | (field, raw) :: rest => do
    let value ← decodeValue entity declared field raw
    let rest ← decodeEach entity declared rest
    return (field, value) :: rest

/-- Reads a section of columns. One that is left out or null is empty. -/
def decodeSection (entity : String) (declared : Declared) (record : List (String × Json))
    (name : String) : Except RecordFault Columns :=
  match Json.get? record name with
  | none => .ok ∅
  | some .null => .ok ∅
  | some (.object members) => do
    let entries ← decodeEach entity declared members
    return Std.ExtTreeMap.ofList entries
  | some _ => .error (.invalid s!"'{name}' is not an object")

/-- Whether the columns that identify a row lack its key. Without a definition any column will do. -/
def lacksKey (definition : Option Definition) (keys : Columns) : Bool :=
  match definition with
  | some definition => (keys[definition.key]?.getD .null).isNull
  | none => keys.isEmpty

def decodeKeys (definition : Option Definition) (entity : String) (record : List (String × Json)) :
    Except RecordFault Columns := do
  let keys ← decodeSection entity (definition.map fieldTypes) record "keys"
  if lacksKey definition keys then .error (.noKeys entity) else .ok keys

def decodeFilter (record : List (String × Json)) : Except RecordFault (Option String) :=
  match Json.get? record "filter" with
  | none => .ok none
  | some .null => .ok none
  | some (.string filter) => .ok (some filter)
  | some _ => .error (.invalid "filter is not a string")

def decodeKind (record : List (String × Json)) : Except RecordFault ChangeKind :=
  match Json.get? record "kind" with
  | none => .error .noKind
  | some (.string kind) =>
    match ChangeKind.ofName? kind with
    | some kind => .ok kind
    | none => .error (.unknownKind kind)
  | some other => .error (.unknownKind other.text)

/-- The entity of a record and, where there is a catalog, its definition. -/
def decodeEntity (catalog : Option Catalog) (record : List (String × Json)) :
    Except RecordFault (EntityName × Option Definition) :=
  match Json.get? record "entity" with
  | some (.string raw) =>
    match EntityName.ofString raw, catalog with
    | .error _, _ => .error (.unknownEntity raw)
    | .ok entity, none => .ok (entity, none)
    | .ok entity, some catalog =>
      match catalog.get raw with
      | .ok definition => .ok (entity, some definition)
      | .error _ => .error (.unknownEntity raw)
  | _ => .error .noEntity

/-- Reads the sections that a kind of change uses. -/
def decodeBody (entity : EntityName) (definition : Option Definition) (record : List (String × Json)) :
    ChangeKind → Except RecordFault Change
  | .insert => do
    let data ← decodeSection entity.text (definition.map fieldTypes) record "data"
    return .insert entity data
  | .update => do
    let keys ← decodeKeys definition entity.text record
    let data ← decodeSection entity.text (definition.map fieldTypes) record "data"
    return .update entity keys data
  | .delete => do
    let keys ← decodeKeys definition entity.text record
    return .delete entity keys
  | .command => do
    let filter ← decodeFilter record
    let parameters ← decodeSection entity.text (definition.map parameterTypes) record "parameters"
    return .command entity parameters filter

def decodeRecord (catalog : Option Catalog) : Json → Except RecordFault Change
  | .object record => do
    let kind ← decodeKind record
    let (entity, definition) ← decodeEntity catalog record
    decodeBody entity definition record kind
  | _ => .error (.invalid "record is not an object")

def decodeRecords (catalog : Option Catalog) (index : Nat) : List Json → Except DecodeError (List Change)
  | [] => .ok []
  | record :: records => do
    let change ← (decodeRecord catalog record).mapError (.record index)
    let changes ← decodeRecords catalog (index + 1) records
    return change :: changes

/-- Reads a batch, with the types of a catalog if there is one. -/
def decode (catalog : Option Catalog) : Json → Except DecodeError (List Change)
  | .array records => decodeRecords catalog 0 records
  | _ => .error .notAnArray

/-- Reads a batch from a text. -/
def decodeText (catalog : Option Catalog) (text : String) : Except DecodeError (List Change) :=
  match Json.read? text with
  | some json => decode catalog json
  | none => .error .malformed

end Change
end EntityGraph
