import EntityGraph.Definition

/-! # Query parameters

Supplied parameters must be declared; the others take their defaults, and every value is converted to
its declared type. A parameter that is bound to a field keeps the rows that hold its value there. -/
namespace EntityGraph

inductive ParameterError where
  | unknown (entity parameter : String)
  | typeMismatch (entity parameter expected actual : String)
  deriving DecidableEq, Repr

namespace ParameterError

def message : ParameterError → String
  | .unknown entity parameter => s!"parameter '{parameter}' is not declared by '{entity}'"
  | .typeMismatch entity parameter expected actual =>
    s!"parameter '{parameter}' of '{entity}' expects {expected}, got {actual}"

end ParameterError

namespace Parameter

/-- The value of a parameter of an entity, supplied or by default. -/
def resolve (parameter : Parameter) (entity : String) (supplied : Columns) :
    Except ParameterError Value :=
  let value := supplied[parameter.name]?.getD parameter.default
  match parameter.type.coerce? value with
  | some value => .ok value
  | none => .error (.typeMismatch entity parameter.name parameter.type.name value.typeName)

/-- Whether columns pass the filter of a parameter. Null filters nothing. -/
def accepts (parameter : Parameter) (parameters columns : Columns) : Bool :=
  match parameter.field, parameters[parameter.name]? with
  | some field, some value => value.isNull || columns[field]? == some value
  | _, _ => true

end Parameter

namespace Definition

def resolveEach (definition : Definition) (supplied : Columns) :
    List Parameter → Except ParameterError (List (String × Value))
  | [] => .ok []
  | parameter :: rest => do
    let value ← parameter.resolve definition.name.text supplied
    let rest ← definition.resolveEach supplied rest
    return (parameter.name, value) :: rest

/-- The value of every declared parameter. -/
def resolveParameters (definition : Definition) (supplied : Columns) : Except ParameterError Columns :=
  match supplied.keys.find? fun name => (definition.parameter? name).isNone with
  | some name => .error (.unknown definition.name.text name)
  | none => do
    let entries ← definition.resolveEach supplied definition.parameters
    return Std.ExtTreeMap.ofList entries

/-- Whether columns pass the filters of all parameters. -/
def matchesParameters (definition : Definition) (columns parameters : Columns) : Bool :=
  definition.parameters.all fun parameter => parameter.accepts parameters columns

end Definition
end EntityGraph
