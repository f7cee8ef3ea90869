import EntityGraph.Definition

/-! # Building definitions

A builder collects declarations in any order. Names of entities are checked when it builds, before the
definition as a whole. -/
namespace EntityGraph

structure Builder.Reference where
  name : String
  field : String
  target : String
  inverse : Option String
  deriving DecidableEq, Repr

structure Builder where
  name : String
  key : Option String
  fields : List Field
  references : List Builder.Reference
  parameters : List Parameter
  readOnly : Bool
  description : Option String
  deriving DecidableEq, Repr

namespace Builder

def named (name : String) : Builder := ⟨name, none, [], [], [], false, none⟩

def withField (builder : Builder) (field : Field) : Builder :=
  { builder with fields := builder.fields ++ [field] }

/-- Declares a required field and makes it the key. -/
def withKey (builder : Builder) (name : String) (type : DataType) : Builder :=
  { builder.withField { name, type, required := true } with key := some name }

def withReference (builder : Builder) (name field target : String) (inverse : Option String) : Builder :=
  { builder with references := builder.references ++ [⟨name, field, target, inverse⟩] }

def withParameter (builder : Builder) (parameter : Parameter) : Builder :=
  { builder with parameters := builder.parameters ++ [parameter] }

def withReadOnly (builder : Builder) : Builder := { builder with readOnly := true }

def withDescription (builder : Builder) (text : String) : Builder :=
  { builder with description := some text }

def Reference.relationship (reference : Reference) : Except SchemaError Relationship := do
  let target ← (EntityName.ofString reference.target).mapError .invalidName
  return ⟨reference.name, reference.field, target, reference.inverse⟩

def build (builder : Builder) : Except SchemaError Definition := do
  let name ← (EntityName.ofString builder.name).mapError .invalidName
  let key ← builder.key.elim (.error (.invalidKey name.text "no key field declared")) .ok
  let relationships ← builder.references.mapM Reference.relationship
  let definition : Definition :=
    ⟨name, key, builder.fields, relationships, builder.parameters, builder.readOnly, builder.description⟩
  definition.validate
  return definition

end Builder
end EntityGraph
