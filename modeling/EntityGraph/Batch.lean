import EntityGraph.Change
import EntityGraph.Row
import Std.Data.ExtTreeSet

/-! # Batches

The order of the changes in a batch: inserts with principals before dependents, then updates, then
deletes with dependents before principals, then commands. Rows of an entity that refers to itself are
ordered by these references. -/
namespace EntityGraph

/-- An insert or delete, with the columns of its row. -/
structure PendingChange where
  change : Change
  columns : Columns
  deriving DecidableEq

/-- The pending changes of an entity. -/
structure EntityChanges where
  inserts : List PendingChange
  updates : List Change
  deletes : List PendingChange
  deriving DecidableEq

namespace EntityChanges

def isEmpty (changes : EntityChanges) : Bool :=
  changes.inserts.isEmpty && changes.updates.isEmpty && changes.deletes.isEmpty

end EntityChanges

namespace Batch

/-- The fields through which rows of an entity refer to rows of the same entity. -/
def selfFields (definition : Definition) : List String :=
  (definition.relationships.filter fun relationship => relationship.target == definition.name).map
    Relationship.field

/-- The keys of other rows of the entity to which a row refers. -/
def parents (definition : Definition) (columns : Columns) : List Key :=
  ((selfFields definition).filterMap fun field => columns[field]? >>= Key.ofValue?).filter fun parent =>
    definition.keyOf? columns != some parent

def keysOf (definition : Definition) (rows : List PendingChange) : List Key :=
  rows.filterMap fun row => definition.keyOf? row.columns

/-- Whether none of the listed rows is a parent of a row. -/
def isReady (definition : Definition) (listed : List PendingChange) (row : PendingChange) : Bool :=
  (parents definition row.columns).all fun parent => !(keysOf definition listed).contains parent

/-- Takes out the rows that are ready, in rounds, until none is. -/
def rounds (definition : Definition) : Nat → List PendingChange → List PendingChange
  | 0, rows => rows
  | fuel + 1, rows =>
    let ready := rows.filter (isReady definition rows)
    let blocked := rows.filter fun row => !isReady definition rows row
    if ready.isEmpty then blocked else ready ++ rounds definition fuel blocked

/-- The changes of rows of one entity, each after those of its parents. Rows that refer to each other
in a cycle keep their order. -/
def parentsFirst (definition : Definition) (rows : List PendingChange) : List Change :=
  (rounds definition rows.length rows).map PendingChange.change

/-- One batch of the changes of several entities, given in save order. -/
def assemble (parts : List (Definition × EntityChanges)) (commands : List Change) : List Change :=
  parts.flatMap (fun part => parentsFirst part.1 part.2.inserts)
    ++ parts.flatMap (fun part => part.2.updates)
    ++ parts.reverse.flatMap (fun part => (parentsFirst part.1 part.2.deletes).reverse)
    ++ commands

end Batch
end EntityGraph
