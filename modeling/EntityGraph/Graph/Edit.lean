import EntityGraph.Graph

/-! # Edits

Rows enter and leave the graph, and fields are written, only through these operations, which keep the
groups and the pending changes up to date. -/
namespace EntityGraph.Graph

/-- Whether an insert gives a row a generated key: it has none, and keys are integers. -/
def wantsKey (definition : Definition) (row : Row) : Bool :=
  row.key?.isNone && definition.keyField?.any fun field => field.type == .integer

/-- Gives a row the generated key if it wants it. -/
def fillKey (definition : Definition) (row : Row) (generated : Int64) : Except RowError Row :=
  if wantsKey definition row then
    match row.set definition.key (.integer generated) with
    | (.error e, _) => .error e
    | (.ok _, row) => .ok row
  else .ok row

/-- A row with a key, the generated one if it wants it. -/
def keyed (definition : Definition) (row : Row) (generated : Int64) : Except RowError (Key × Row) := do
  let row ← fillKey definition row generated
  match row.key? with
  | some key => .ok (key, row)
  | none => .error (.missingKey definition.name.text)

/-- Puts a row under its key and moves the group memberships of the row that it replaces. -/
def place (graph : Graph) (definition : Definition) (key : Key) (row : Row) :
    Except GraphError Key × Graph :=
  let name := definition.name.text
  match graph.entity name with
  | .error e => (.error e, graph)
  | .ok set =>
    let groups :=
      match set.get? key with
      | some replaced => graph.groups.unindexRow definition key replaced.columns
      | none => graph.groups
    (.ok key, graph.put name (set.insert key row) (groups.indexRow definition key row.columns))

/-- Inserts a row. `generated` is the key for a row without one. -/
def insert (graph : Graph) (row : Row) (generated : Int64) : Except GraphError Key × Graph :=
  match graph.writable row.entity with
  | .error e => (.error e, graph)
  | .ok definition =>
    match keyed definition row generated with
    | .error e => (.error (.row e), graph)
    | .ok (key, row) => graph.place definition key row

/-- Takes a row out of the graph. A persisted row is deleted by the next save. -/
def remove (graph : Graph) (name : String) (key : Key) : Except GraphError Row × Graph :=
  match graph.writable name with
  | .error e => (.error e, graph)
  | .ok definition =>
    match graph.entity definition.name.text with
    | .error e => (.error e, graph)
    | .ok set =>
      match set.remove key with
      | (none, _) => (.error (.rowNotFound name key.display), graph)
      | (some row, set) =>
        (.ok row, graph.put definition.name.text set (graph.groups.unindexRow definition key row.columns))

/-- Removes rows in turn up to the first that cannot be removed. -/
def removeAll (graph : Graph) (name : String) : List Key → Except GraphError Unit × Graph
  | [] => (.ok (), graph)
  | key :: keys =>
    match graph.remove name key with
    | (.error e, graph) => (.error e, graph)
    | (.ok _, graph) => graph.removeAll name keys

/-- Removes every row of an entity and tells how many there were. -/
def clear (graph : Graph) (name : String) : Except GraphError Nat × Graph :=
  match graph.entity name with
  | .error e => (.error e, graph)
  | .ok set =>
    let (outcome, graph) := graph.removeAll name set.keys
    (outcome.map fun () => set.keys.length, graph)

/-- A value that is a key must name a row of the target of a relationship. -/
def checkResolvable (graph : Graph) (definition : Definition) (key : Key) (relationship : Relationship)
    (value : Value) : Except GraphError Unit :=
  match Key.ofValue? value with
  | none => .ok ()
  | some principal => do
    let target ← graph.entity relationship.target.text
    if target.contains principal then .ok ()
    else
      .error (.unresolvedReference definition.name.text key.display relationship.name
        relationship.target.text principal.display)

/-- Checks a value against every required relationship of a list. -/
def checkRequired (graph : Graph) (definition : Definition) (key : Key) (value : Value) :
    List Relationship → Except GraphError Unit
  | [] => .ok ()
  | relationship :: rest => do
    if definition.isRequired relationship then
      graph.checkResolvable definition key relationship value
    graph.checkRequired definition key value rest

/-- The key field takes neither the key of another row nor one whose removal is pending. -/
def checkKeyFree (set : EntitySet) (name : String) (key : Key) (field : String) (value : Value) :
    Except GraphError Unit :=
  if field == set.definition.key then
    match Key.ofValue? value with
    | none => .ok ()
    | some target =>
      if target != key && (set.contains target || set.isRemoved target) then
        .error (.staleKey name target.display)
      else .ok ()
  else .ok ()

/-- A write that passed every check. -/
structure Write where
  definition : Definition
  /-- The columns of the row before the write. -/
  columns : Columns
  value : Value
  deriving DecidableEq

/-- Checks a write without changing the graph. -/
def checkWrite (graph : Graph) (name : String) (key : Key) (field : String) (value : Value)
    (references : Bool) : Except GraphError Write := do
  let definition ← graph.writable name
  let value ← (definition.coerceWrite field value).mapError .row
  let set ← graph.entity name
  let row ← graph.row name key
  if references then
    graph.checkRequired definition key value (definition.relationshipsOn field)
  checkKeyFree set name key field value
  return ⟨definition, row.columns, value⟩

/-- Carries out a write that passed its checks, and moves the row between groups. -/
def commitWrite (graph : Graph) (name : String) (key : Key) (field : String) (write : Write) :
    Except GraphError Key × Graph :=
  let definition := write.definition
  match graph.entity definition.name.text with
  | .error e => (.error e, graph)
  | .ok set =>
    let groups := graph.groups.unindexRow definition key write.columns
    match set.write key field write.value with
    | (none, set) =>
      (.error (.corrupted s!"'{name}' row {key.display} rejected a checked write to '{field}'"),
        graph.put definition.name.text set (groups.indexRow definition key write.columns))
    | (some target, set) =>
      let groups :=
        match set.get? target with
        | some row => groups.indexRow definition target row.columns
        | none => groups
      (.ok target, graph.put definition.name.text set groups)

def writeField (graph : Graph) (name : String) (key : Key) (field : String) (value : Value)
    (references : Bool) : Except GraphError Key × Graph :=
  match graph.checkWrite name key field value references with
  | .error e => (.error e, graph)
  | .ok write => graph.commitWrite name key field write

/-- Writes a field of a row and tells the key under which the row is afterwards. -/
def set (graph : Graph) (name : String) (key : Key) (field : String) (value : Value) :
    Except GraphError Key × Graph :=
  graph.writeField name key field value graph.config.checkReferences

/-- The relationship of an entity and the value of its field that leads to a principal, which must be
in the graph, or to none. -/
def referenceValue (graph : Graph) (name : String) (key : Key) (relationship : String)
    (target : Option Key) : Except GraphError (Relationship × Value) := do
  let set ← graph.entity name
  let relationship ← Graph.relationship set.definition relationship
  match target with
  | none => return (relationship, .null)
  | some principal =>
    graph.checkResolvable set.definition key relationship principal.toValue
    return (relationship, principal.toValue)

/-- Points a relationship of a row at a principal, or at none. -/
def setReference (graph : Graph) (name : String) (key : Key) (relationship : String)
    (target : Option Key) : Except GraphError Key × Graph :=
  match graph.referenceValue name key relationship target with
  | .error e => (.error e, graph)
  | .ok (relationship, value) => graph.writeField name key relationship.field value false

/-- Forgets every pending change; the current values count as persisted. -/
def dropChanges (graph : Graph) : Graph :=
  { graph with
    entities := graph.entities.map fun _ set => set.acceptChanges
    commands := [] }

/-- Forgets the pending changes and the queued commands of one entity. -/
def dropEntityChanges (graph : Graph) (name : String) : Except GraphError Unit × Graph :=
  match graph.entity name with
  | .error e => (.error e, graph)
  | .ok set =>
    (.ok (), { graph with
      entities := graph.entities.insert name set.acceptChanges
      commands := graph.commands.filter fun change => change.entity.text != name })

end EntityGraph.Graph
