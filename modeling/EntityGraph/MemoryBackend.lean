import EntityGraph.Backend
import EntityGraph.Catalog
import EntityGraph.QueryParameters

/-! # Tables in memory

A batch runs on a working copy of the tables, which replaces them only if every change succeeds.
Inserts need a free key. When foreign keys are enforced, every change leaves the references of its row
resolved, and no row leaves a key to which another row refers. -/
namespace EntityGraph

/-- The columns of the rows of an entity by key. -/
abbrev Table := Std.ExtTreeMap Key Columns

/-- Tables by entity name. -/
abbrev Tables := Std.ExtTreeMap String Table

namespace Tables

/-- The table of an entity, empty if nothing was ever written to it. -/
def of (tables : Tables) (entity : String) : Table := tables[entity]?.getD ∅

def row? (tables : Tables) (entity : String) (key : Key) : Option Columns := (tables.of entity)[key]?

def holds (tables : Tables) (entity : String) (key : Key) : Bool := (tables.of entity).contains key

def put (tables : Tables) (entity : String) (key : Key) (columns : Columns) : Tables :=
  tables.insert entity ((tables.of entity).insert key columns)

def drop (tables : Tables) (entity : String) (key : Key) : Tables :=
  tables.insert entity ((tables.of entity).erase key)

end Tables

/-- Runs a command with its parameters and filter on the working tables. -/
abbrev CommandHandler := Tables → Columns → Option String → Except BackendError Nat × Tables

structure MemoryBackend where
  catalog : Catalog
  tables : Tables
  /-- The batches applied so far, oldest first. -/
  batches : List (List Change)
  handlers : Std.ExtTreeMap String CommandHandler
  available : Bool
  enforcing : Bool

namespace MemoryBackend

def empty (catalog : Catalog) (enforcing : Bool) : MemoryBackend := ⟨catalog, ∅, [], ∅, true, enforcing⟩

def definition (backend : MemoryBackend) (entity : String) : Except BackendError Definition :=
  (backend.catalog.get entity).mapError fun _ => .entityNotFound entity

/-- The key that columns hold, if they hold one. -/
def keyOf (definition : Definition) (columns : Columns) : Except BackendError Key :=
  match definition.keyOf? columns with
  | some key => .ok key
  | none => .error (.missingKey definition.name.text)

/-- The first relationship of a row whose principal is missing, with the key that it holds. -/
def dangling? (tables : Tables) (definition : Definition) (columns : Columns) :
    Option (Relationship × Key) :=
  definition.relationships.findSome? fun relationship =>
    match columns[relationship.field]? >>= Key.ofValue? with
    | none => none
    | some principal =>
      if tables.holds relationship.target.text principal then none else some (relationship, principal)

/-- Every key that a row refers to must exist. -/
def checkReferences (backend : MemoryBackend) (tables : Tables) (definition : Definition) (key : Key)
    (columns : Columns) : Except BackendError Unit :=
  if !backend.enforcing then .ok ()
  else
    match dangling? tables definition columns with
    | none => .ok ()
    | some (relationship, principal) =>
      .error (.foreignKeyViolation definition.name.text key.display relationship.field
        relationship.target.text principal.display)

/-- Whether a row other than the principal itself refers to a key of an entity. -/
def refers (tables : Tables) (dependent : Definition) (relationship : Relationship) (entity : String)
    (key : Key) : Bool :=
  (tables.of dependent.name.text).toList.any fun row =>
    row.2[relationship.field]? == some key.toValue && !(dependent.name.text == entity && row.1 == key)

/-- No dependent may refer to a key that is about to leave. -/
def checkUnreferenced (backend : MemoryBackend) (tables : Tables) (definition : Definition) (key : Key) :
    Except BackendError Unit :=
  if !backend.enforcing then .ok ()
  else
    let entity := definition.name.text
    match backend.catalog.relationships.find? fun (dependent, relationship) =>
      relationship.target.text == entity && refers tables dependent relationship entity key with
    | none => .ok ()
    | some (dependent, _) => .error (.stillReferenced entity key.display dependent.name.text)

/-- The key and columns of a row that is to be inserted. -/
def newRow (definition : Definition) (data : Columns) : Except BackendError (Key × Columns) := do
  let row ← (Row.ofColumns definition 0 data).mapError .ofRow
  row.checkRequired.mapError .ofRow
  let key ← keyOf definition row.columns
  return (key, row.columns)

def insertRow (backend : MemoryBackend) (tables : Tables) (definition : Definition) (data : Columns) :
    Except BackendError Nat × Tables :=
  let entity := definition.name.text
  match newRow definition data with
  | .error e => (.error e, tables)
  | .ok (key, columns) =>
    if tables.holds entity key then (.error (.duplicateKey entity key.display), tables)
    else
      let tables := tables.put entity key columns
      ((backend.checkReferences tables definition key columns).map fun () => 1, tables)

/-- Overwrites columns one by one. -/
def overwrite (definition : Definition) (columns : Columns) :
    List (String × Value) → Except BackendError Columns
  | [] => .ok columns
  | (field, value) :: rest => do
    let value ← (definition.coerceField field value).mapError .ofRow
    if value.isNull && definition.requires field then
      .error (.invalidData definition.name.text s!"field '{field}' cannot be null")
    else overwrite definition (columns.insert field value) rest

/-- A row moves only to a free key and from a key to which no other row refers. -/
def checkMove (backend : MemoryBackend) (tables : Tables) (definition : Definition) (source target : Key) :
    Except BackendError Unit :=
  if target = source then .ok ()
  else if tables.holds definition.name.text target then
    .error (.duplicateKey definition.name.text target.display)
  else backend.checkUnreferenced tables definition source

/-- The key and columns of a row after an update. -/
def updatedRow (backend : MemoryBackend) (tables : Tables) (definition : Definition) (key : Key)
    (columns data : Columns) : Except BackendError (Key × Columns) := do
  let columns ← overwrite definition columns data.toList
  let target ← keyOf definition columns
  backend.checkMove tables definition key target
  return (target, columns)

def updateRow (backend : MemoryBackend) (tables : Tables) (definition : Definition)
    (keys data : Columns) : Except BackendError Nat × Tables :=
  let entity := definition.name.text
  match keyOf definition keys with
  | .error e => (.error e, tables)
  | .ok key =>
    match tables.row? entity key with
    | none => (.ok 0, tables)
    | some columns =>
      match backend.updatedRow tables definition key columns data with
      | .error e => (.error e, tables)
      | .ok (target, columns) =>
        let tables := (tables.drop entity key).put entity target columns
        ((backend.checkReferences tables definition target columns).map fun () => 1, tables)

def deleteRow (backend : MemoryBackend) (tables : Tables) (definition : Definition) (keys : Columns) :
    Except BackendError Nat × Tables :=
  let entity := definition.name.text
  match keyOf definition keys with
  | .error e => (.error e, tables)
  | .ok key =>
    if tables.holds entity key then
      match backend.checkUnreferenced tables definition key with
      | .error e => (.error e, tables)
      | .ok () => (.ok 1, tables.drop entity key)
    else (.ok 0, tables)

def runCommand (backend : MemoryBackend) (tables : Tables) (entity : String) (parameters : Columns)
    (filter : Option String) : Except BackendError Nat × Tables :=
  match backend.handlers[entity]? with
  | some handler => handler tables parameters filter
  | none => (.error (.command entity "no handler registered"), tables)

/-- Runs a change on the working tables, which a failing change may leave half written. -/
def apply (backend : MemoryBackend) (tables : Tables) (change : Change) :
    Except BackendError Nat × Tables :=
  match change with
  | .command entity parameters filter => backend.runCommand tables entity.text parameters filter
  | .insert entity data =>
    match backend.definition entity.text with
    | .error e => (.error e, tables)
    | .ok definition => backend.insertRow tables definition data
  | .update entity keys data =>
    match backend.definition entity.text with
    | .error e => (.error e, tables)
    | .ok definition => backend.updateRow tables definition keys data
  | .delete entity keys =>
    match backend.definition entity.text with
    | .error e => (.error e, tables)
    | .ok definition => backend.deleteRow tables definition keys

/-- Runs changes in order up to the first that fails. -/
def applyAll (backend : MemoryBackend) (tables : Tables) : List Change → Except BackendError Nat × Tables
  | [] => (.ok 0, tables)
  | change :: changes =>
    match backend.apply tables change with
    | (.error e, tables) => (.error e, tables)
    | (.ok affected, tables) =>
      let (rest, tables) := backend.applyAll tables changes
      (rest.map (affected + ·), tables)

def checkAvailable (backend : MemoryBackend) : Except BackendError Unit :=
  if backend.available then .ok () else .error (.unavailable "memory backend is offline")

def read (backend : MemoryBackend) (definition : Definition) (parameters : Columns) :
    Except BackendError (List Columns) := do
  backend.checkAvailable
  let definition ← backend.definition definition.name.text
  return (backend.tables.of definition.name.text).values.filter fun columns =>
    definition.matchesParameters columns parameters

def submit (backend : MemoryBackend) (changes : List Change) : Except BackendError Nat × MemoryBackend :=
  match backend.checkAvailable with
  | .error e => (.error e, backend)
  | .ok () =>
    match backend.applyAll backend.tables changes with
    | (.error e, _) => (.error e, backend)
    | (.ok affected, tables) =>
      (.ok affected, { backend with tables, batches := backend.batches ++ [changes] })

instance : Backend MemoryBackend where
  read := read
  submit := submit

/-- The rows of an entity in key order. -/
def rows (backend : MemoryBackend) (entity : String) : List Columns := (backend.tables.of entity).values

def row? (backend : MemoryBackend) (entity : String) (key : Key) : Option Columns :=
  backend.tables.row? entity key

def register (backend : MemoryBackend) (entity : String) (handler : CommandHandler) : MemoryBackend :=
  { backend with handlers := backend.handlers.insert entity handler }

/-- A handle on the same tables that enforces foreign keys or not. -/
def withForeignKeys (backend : MemoryBackend) (enforcing : Bool) : MemoryBackend := { backend with enforcing }

def setAvailable (backend : MemoryBackend) (available : Bool) : MemoryBackend := { backend with available }

/-- The key and columns under which a row is loaded. -/
def seedRow (definition : Definition) (columns : Columns) : Except BackendError (Key × Columns) := do
  let columns ← (definition.rowColumns columns).mapError .ofRow
  let key ← keyOf definition columns
  return (key, columns)

/-- Loads rows one by one without checking references, and replaces rows with the same key. The rows
before a faulty one stay. -/
def seedRows (tables : Tables) (definition : Definition) : List Columns → Except BackendError Unit × Tables
  | [] => (.ok (), tables)
  | columns :: rest =>
    match seedRow definition columns with
    | .error e => (.error e, tables)
    | .ok (key, columns) => seedRows (tables.put definition.name.text key columns) definition rest

def seed (backend : MemoryBackend) (entity : String) (rows : List Columns) :
    Except BackendError Unit × MemoryBackend :=
  match backend.definition entity with
  | .error e => (.error e, backend)
  | .ok definition =>
    let (outcome, tables) := seedRows backend.tables definition rows
    (outcome, { backend with tables })

end MemoryBackend
end EntityGraph
