import EntityGraph.Row
import Std.Data.ExtTreeSet

/-! # Groups of dependents

For every relationship the index holds, by the key of a principal, the keys of the rows that refer to
it. A group that becomes empty is dropped. -/
namespace EntityGraph

/-- A relationship, named by the entity that declares it. -/
structure Link where
  entity : String
  relationship : String
  deriving DecidableEq, Repr

namespace Link

instance : Ord Link := ⟨compareLex (compareOn Link.entity) (compareOn Link.relationship)⟩

instance : Std.TransOrd Link :=
  inferInstanceAs (Std.TransCmp (compareLex (compareOn Link.entity) (compareOn Link.relationship)))

instance : Std.LawfulEqOrd Link where
  eq_of_compare {a b} h := by
    have h : (compare a.entity b.entity).then (compare a.relationship b.relationship) = .eq := h
    rw [Ordering.then_eq_eq] at h
    cases a; cases b
    simp_all

end Link

structure Groups where
  groups : Std.ExtTreeMap Link (Std.ExtTreeMap Key (Std.ExtTreeSet Key))
  deriving DecidableEq

namespace Groups

def empty : Groups := ⟨∅⟩

/-- The groups of a relationship by principal. -/
def of (index : Groups) (link : Link) : Std.ExtTreeMap Key (Std.ExtTreeSet Key) :=
  index.groups[link]?.getD ∅

/-- The keys of the rows that refer to a principal, in order. -/
def members (index : Groups) (entity relationship : String) (principal : Key) : List Key :=
  ((index.of ⟨entity, relationship⟩)[principal]?.getD ∅).toList

def join (index : Groups) (link : Link) (principal key : Key) : Groups :=
  let groups := index.of link
  ⟨index.groups.insert link (groups.insert principal ((groups[principal]?.getD ∅).insert key))⟩

def leave (index : Groups) (link : Link) (principal key : Key) : Groups :=
  match index.groups[link]? with
  | none => index
  | some groups =>
    match groups[principal]? with
    | none => index
    | some keys =>
      let keys := keys.erase key
      ⟨index.groups.insert link (if keys.isEmpty then groups.erase principal else groups.insert principal keys)⟩

/-- The relationships of a row that hold a key, with the principals that they lead to. -/
def principals (definition : Definition) (columns : Columns) : List (Link × Key) :=
  definition.relationships.filterMap fun relationship =>
    (columns[relationship.field]? >>= Key.ofValue?).map fun principal =>
      (⟨definition.name.text, relationship.name⟩, principal)

/-- Adds a row to the groups that its columns select. -/
def indexRow (index : Groups) (definition : Definition) (key : Key) (columns : Columns) : Groups :=
  (principals definition columns).foldl (fun index entry => index.join entry.1 entry.2 key) index

/-- Takes a row out of the groups that its columns select. -/
def unindexRow (index : Groups) (definition : Definition) (key : Key) (columns : Columns) : Groups :=
  (principals definition columns).foldl (fun index entry => index.leave entry.1 entry.2 key) index

end Groups
end EntityGraph
