import EntityGraph.GraphError

/-! # Validity of changes

A data change is valid when its entity is writable, its columns are declared and hold values that fit,
and it carries the key of its row. A command is valid when its parameters are declared. -/
namespace EntityGraph.Change

/-- Columns that must fit their fields: the written ones, then the identifying ones. -/
def checkedColumns (change : Change) : List (String × Value) :=
  (change.data?.map Std.ExtTreeMap.toList).getD [] ++ (change.keys?.map Std.ExtTreeMap.toList).getD []

/-- The columns that carry the key of the changed row. -/
def identifying (change : Change) : Columns :=
  match change with
  | .insert _ data => data
  | _ => change.keys?.getD ∅

def validateData (definition : Definition) (change : Change) : Except GraphError Unit := do
  if definition.readOnly then .error (.readOnly definition.name.text)
  else
    let _ ← (definition.coerceAll change.checkedColumns).mapError .row
    if (change.identifying[definition.key]?.getD .null).isNull then
      .error (.row (.missingKey definition.name.text))
    else .ok ()

def validate (catalog : Catalog) (change : Change) : Except GraphError Unit :=
  match catalog.get change.entity.text with
  | .error _ => .error (.entityNotFound change.entity.text)
  | .ok definition =>
    match change with
    | .command _ parameters _ =>
      match parameters.keys.find? fun name => (definition.parameter? name).isNone with
      | some name => .error (.unknownParameter definition.name.text name)
      | none => .ok ()
    | _ => validateData definition change

/-- Checks changes in order up to the first that is not valid. -/
def validateAll (catalog : Catalog) : List Change → Except GraphError Unit
  | [] => .ok ()
  | change :: changes => do
    change.validate catalog
    validateAll catalog changes

end EntityGraph.Change
