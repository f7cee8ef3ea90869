import EntityGraph.EntityName
import EntityGraph.Value

/-! # Changes

A batch of changes is what a save hands to a backend. -/
namespace EntityGraph

inductive ChangeKind where
  | insert
  | update
  | delete
  | command
  deriving DecidableEq, Repr

namespace ChangeKind

def name : ChangeKind → String
  | .insert => "insert"
  | .update => "update"
  | .delete => "delete"
  | .command => "command"

def all : List ChangeKind := [insert, update, delete, command]

/-- The kind of a name, in upper or lower case. -/
def ofName? (s : String) : Option ChangeKind := all.find? fun kind => kind.name == s.toLower

end ChangeKind

inductive Change where
  /-- All columns of a new row. -/
  | insert (entity : EntityName) (data : Columns)
  /-- The changed columns of the row that `keys` identifies. -/
  | update (entity : EntityName) (keys data : Columns)
  | delete (entity : EntityName) (keys : Columns)
  /-- A statement that the backend runs as it is. -/
  | command (entity : EntityName) (parameters : Columns) (filter : Option String)
  deriving DecidableEq

namespace Change

def entity : Change → EntityName
  | .insert entity _ => entity
  | .update entity _ _ => entity
  | .delete entity _ => entity
  | .command entity _ _ => entity

def kind : Change → ChangeKind
  | .insert _ _ => .insert
  | .update _ _ _ => .update
  | .delete _ _ => .delete
  | .command _ _ _ => .command

/-- The values that the change writes. -/
def data? : Change → Option Columns
  | .insert _ data => some data
  | .update _ _ data => some data
  | _ => none

/-- The values that identify the changed row. -/
def keys? : Change → Option Columns
  | .update _ keys _ => some keys
  | .delete _ keys => some keys
  | _ => none

def isDataChange (change : Change) : Bool := change.kind != .command

def display (change : Change) : String :=
  let keys :=
    match change.keys? with
    | some keys =>
      let entries := keys.toList.map fun entry => s!"{entry.1}={entry.2.display}"
      " [" ++ ", ".intercalate entries ++ "]"
    | none => ""
  let count :=
    match change with
    | .insert _ data => s!" ({data.size} fields)"
    | .update _ _ data => s!" ({data.size} fields)"
    | .command _ parameters _ => s!" ({parameters.size} parameters)"
    | .delete _ _ => ""
  s!"{change.kind.name} {change.entity.text}" ++ keys ++ count

def columnsJson (columns : Columns) : Json :=
  .object (columns.toList.map fun entry => (entry.1, entry.2.toJson))

/-- The record of a change, its members sorted by key. -/
def toJson (change : Change) : Json :=
  let entity := ("entity", Json.string change.entity.text)
  let kind := ("kind", Json.string change.kind.name)
  .object <|
    match change with
    | .insert _ data => [("data", columnsJson data), entity, kind]
    | .update _ keys data => [("data", columnsJson data), entity, ("keys", columnsJson keys), kind]
    | .delete _ keys => [entity, ("keys", columnsJson keys), kind]
    | .command _ parameters filter =>
      [entity] ++ (filter.map fun text => ("filter", Json.string text)).toList
        ++ [kind, ("parameters", columnsJson parameters)]

/-- The written form of a batch. -/
def encode (changes : List Change) : Json := .array (changes.map toJson)

end Change
end EntityGraph
