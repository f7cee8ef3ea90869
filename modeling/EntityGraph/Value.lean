import EntityGraph.Json
import EntityGraph.Timestamp
import Std.Data.ExtTreeMap

/-! # Scalar values

The values that rows, keys, parameters and changes carry, and the declared types that restrict them. -/
namespace EntityGraph

inductive Value where
  | null
  | text (s : String)
  | integer (n : Int64)
  | float (d : Double)
  | boolean (b : Bool)
  | timestamp (t : Timestamp)
  deriving DecidableEq, Repr, Inhabited

/-- Values by field or parameter name. -/
abbrev Columns := Std.ExtTreeMap String Value

namespace Value

def isNull : Value → Bool
  | .null => true
  | _ => false

def typeName : Value → String
  | .null => "null"
  | .text _ => "text"
  | .integer _ => "integer"
  | .float _ => "float"
  | .boolean _ => "boolean"
  | .timestamp _ => "timestamp"

def asText? : Value → Option String
  | .text s => some s
  | _ => none

def asInteger? : Value → Option Int64
  | .integer n => some n
  | _ => none

/-- The nearest double of a number. -/
def asDouble? : Value → Option Double
  | .float d => some d
  | .integer n => some (.ofInt n.toInt)
  | _ => none

def asBoolean? : Value → Option Bool
  | .boolean b => some b
  | _ => none

def asTimestamp? : Value → Option Timestamp
  | .timestamp t => some t
  | _ => none

def ofEpochMillis? (millis : Int64) : Option Value :=
  .timestamp <$> Timestamp.ofEpochMillis? millis.toInt

def readTimestamp? (s : String) : Option Value := .timestamp <$> Timestamp.read? s.toList

/-- Doubles inside messages never have an exponent part, and a whole number has no fraction. -/
def doubleLayout : Double.Layout where
  tie := .up
  positional _ := true
  fraction := false

def doubleText (d : Double) : String :=
  if d.isNaN then "NaN"
  else if d.isFinite then String.ofList (doubleLayout.text d)
  else if d.isNegative then "-inf"
  else "inf"

/-- The text of a value inside messages. -/
def display : Value → String
  | .null => "null"
  | .text s => s
  | .integer n => n.toInt.repr
  | .float d => doubleText d
  | .boolean b => if b then "true" else "false"
  | .timestamp t => String.ofList t.text

/-- The interchange form. Timestamps become text, and doubles that are not finite become null. -/
def toJson : Value → Json
  | .null => .null
  | .text s => .string s
  | .integer n => .ofInt64 n
  | .float d => (Json.ofDouble? d).getD .null
  | .boolean b => .bool b
  | .timestamp t => .string (String.ofList t.text)

/-- The value of a scalar. An integer that has no signed 64-bit form becomes the nearest double. -/
def ofJson? : Json → Option Value
  | .null => some .null
  | .bool b => some (.boolean b)
  | .number (.integer n _) =>
    some (if n ≤ Int64.maxValue.toInt then .integer (Int64.ofInt n) else .float (.ofInt n))
  | .number (.double d _) => some (.float d)
  | .string s => some (.text s)
  | .array _ => none
  | .object _ => none

end Value

inductive DataType where
  | text
  | integer
  | float
  | boolean
  | timestamp
  deriving DecidableEq, Repr

namespace DataType

def name : DataType → String
  | .text => "text"
  | .integer => "integer"
  | .float => "float"
  | .boolean => "boolean"
  | .timestamp => "timestamp"

def ofName? (s : String) : Option DataType :=
  [text, integer, float, boolean, timestamp].find? fun type => type.name == s

/-- Whether a value already has the type. Null has every type. -/
def admits : DataType → Value → Bool
  | _, .null => true
  | .text, .text _ => true
  | .integer, .integer _ => true
  | .float, .float _ => true
  | .boolean, .boolean _ => true
  | .timestamp, .timestamp _ => true
  | _, _ => false

/-- Converts a value to the type: integers widen to doubles, and timestamps are revived from RFC 3339
text or milliseconds since the epoch. -/
def coerce? (type : DataType) (value : Value) : Option Value :=
  if type.admits value then some value
  else
    match type, value with
    | .float, .integer n => some (.float (.ofInt n.toInt))
    | .timestamp, .text s => Value.readTimestamp? s
    | .timestamp, .integer millis => Value.ofEpochMillis? millis
    | _, _ => none

/-- Whether fields of the type can be keys. -/
def isKeyType : DataType → Bool
  | .text => true
  | .integer => true
  | _ => false

end DataType
end EntityGraph
