import EntityGraph.Definition.Json

/-! # Catalogs

A catalog holds one definition for each entity name. Every registered definition is valid on its own;
the catalog as a whole is valid when relationships lead to registered entities with keys of the right
type and no principal has two inverses of one name. -/
namespace EntityGraph

structure Catalog where
  entities : Std.ExtTreeMap String Definition
  registered : ∀ (name : String) (definition : Definition), entities[name]? = some definition →
    definition.name.text = name ∧ definition.validate = .ok ()
  deriving DecidableEq

namespace Catalog

def empty : Catalog := ⟨∅, by simp⟩

def get (catalog : Catalog) (name : String) : Except SchemaError Definition :=
  match catalog.entities[name]? with
  | some definition => .ok definition
  | none => .error (.entityNotFound name)

def contains (catalog : Catalog) (name : String) : Bool := catalog.entities.contains name

/-- The entity names in order. -/
def names (catalog : Catalog) : List String := catalog.entities.keys

/-- The definitions ordered by name. -/
def definitions (catalog : Catalog) : List Definition := catalog.entities.values

def size (catalog : Catalog) : Nat := catalog.entities.size

def register (catalog : Catalog) (definition : Definition) : Except SchemaError Catalog :=
  match h : definition.validate with
  | .error e => .error e
  | .ok () =>
    if catalog.contains definition.name.text then .error (.entityExists definition.name.text)
    else .ok {
      entities := catalog.entities.insert definition.name.text definition
      registered := by
        intro name other found
        rw [Std.ExtTreeMap.getElem?_insert] at found
        split at found
        · next same =>
          cases found
          exact ⟨Std.LawfulEqOrd.eq_of_compare same, h⟩
        · exact catalog.registered name other found }

/-- Every relationship with the definition that declares it, in name and declaration order. -/
def relationships (catalog : Catalog) : List (Definition × Relationship) :=
  catalog.definitions.flatMap fun definition =>
    definition.relationships.map fun relationship => (definition, relationship)

/-- Checks one relationship against its target. -/
def checkTarget (catalog : Catalog) (definition : Definition) (relationship : Relationship) :
    Except SchemaError Unit :=
  let invalid reason :=
    .error (.invalidRelationship definition.name.text relationship.name reason)
  match catalog.entities[relationship.target.text]? with
  | none => invalid s!"target entity '{relationship.target.text}' is not registered"
  | some target =>
    if (definition.field? relationship.field).map Field.type = target.keyField?.map Field.type then .ok ()
    else
      invalid s!"field '{relationship.field}' does not match the key type of '{relationship.target.text}'"

/-- Checks relationships in turn; `seen` holds the inverses declared so far with their principals. -/
def checkRelationships (catalog : Catalog) (seen : List (String × String)) :
    List (Definition × Relationship) → Except SchemaError Unit
  | [] => .ok ()
  | (definition, relationship) :: rest => do
    checkTarget catalog definition relationship
    match relationship.inverse with
    | none => checkRelationships catalog seen rest
    | some inverse =>
      let principal := relationship.target.text
      if (principal, inverse) ∈ seen then .error (.duplicateInverse principal inverse)
      else checkRelationships catalog ((principal, inverse) :: seen) rest

def validate (catalog : Catalog) : Except SchemaError Unit :=
  checkRelationships catalog [] catalog.relationships

def registerAll (catalog : Catalog) : List Definition → Except SchemaError Catalog
  | [] => .ok catalog
  | definition :: definitions => do
    let catalog ← catalog.register definition
    catalog.registerAll definitions

/-- Reads a catalog from a JSON array of definitions. -/
def ofJson (text : String) : Except SchemaError Catalog :=
  match Definition.readAll? text with
  | none => .error (.load "not a JSON array of entity definitions")
  | some definitions => do
    let catalog ← empty.registerAll definitions
    catalog.validate
    return catalog

/-- The definitions as an indented JSON array, ordered by name. -/
def toJson (catalog : Catalog) : String :=
  String.ofList ((Json.array (catalog.definitions.map Definition.toJson)).indented 0)

end Catalog
end EntityGraph
