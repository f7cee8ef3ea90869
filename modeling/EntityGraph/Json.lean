import EntityGraph.Decimal
import EntityGraph.Digits
import Std.Data.ExtTreeMap

/-! # JSON values

Numbers are integers that fit a 64-bit word, with or without a sign, or finite doubles. The members of
an object stand in the order in which they are written; a value read from a text has them sorted by
key and without repetition. -/
namespace EntityGraph

inductive Json.Number where
  | integer (n : Int) (fits : Int64.minValue.toInt ≤ n ∧ n < UInt64.size)
  | double (d : Double) (finite : d.isFinite)
  deriving DecidableEq, Repr

inductive Json where
  | null
  | bool (b : Bool)
  | number (n : Json.Number)
  | string (s : String)
  | array (items : List Json)
  | object (members : List (String × Json))
  deriving Repr, Inhabited

namespace Json

def ofInt64 (n : Int64) : Json :=
  .number (.integer n.toInt ⟨n.minValue_le_toInt, Int.lt_trans n.toInt_lt (by decide)⟩)

/-- A finite double; the others have no written form. -/
def ofDouble? (d : Double) : Option Json :=
  if h : d.isFinite then some (.number (.double d h)) else none

/-- An object whose members are sorted by key, the last of several with one key. -/
def ofMembers (members : List (String × Json)) : Json :=
  .object (Std.ExtTreeMap.ofList members).toList

/-- The member under a key. -/
def get? (members : List (String × Json)) (key : String) : Option Json := members.lookup key

/-- Doubles with a leading digit between `10 ^ -5` and `10 ^ 15` are positional and always have a
fraction. -/
def numeralLayout : Double.Layout where
  tie := .even
  positional exponent := -5 ≤ exponent && exponent ≤ 15
  fraction := true

def Number.text : Number → List Char
  | .integer n _ => n.repr.toList
  | .double d _ => numeralLayout.text d

/-- A character inside quotes. -/
def escape (c : Char) : List Char :=
  if c = '"' then ['\\', '"']
  else if c = '\\' then ['\\', '\\']
  else if c = '\n' then ['\\', 'n']
  else if c = '\t' then ['\\', 't']
  else if c = '\r' then ['\\', 'r']
  else if c = '\x08' then ['\\', 'b']
  else if c = '\x0c' then ['\\', 'f']
  else if c.toNat < 32 then '\\' :: 'u' :: padded 16 4 c.toNat
  else [c]

def quote (s : String) : List Char := '"' :: s.toList.flatMap escape ++ ['"']

mutual

/-- The text without blanks. -/
def compact : Json → List Char
  | .null => "null".toList
  | .bool b => (if b then "true" else "false").toList
  | .number n => n.text
  | .string s => quote s
  | .array [] => ['[', ']']
  | .array (item :: items) => '[' :: compact item ++ compactItems items ++ [']']
  | .object [] => ['\x7b', '\x7d']
  | .object (member :: members) =>
    '\x7b' :: compactMember member ++ compactMembers members ++ ['\x7d']

def compactItems : List Json → List Char
  | [] => []
  | item :: items => ',' :: compact item ++ compactItems items

def compactMember : String × Json → List Char
  | (key, value) => quote key ++ ':' :: compact value

def compactMembers : List (String × Json) → List Char
  | [] => []
  | member :: members => ',' :: compactMember member ++ compactMembers members

end

def text (j : Json) : String := String.ofList j.compact

/-- A new line at a level of nesting, two blanks a level. -/
def newLine (level : Nat) : List Char := '\n' :: List.replicate (2 * level) ' '

mutual

/-- The text with every item and member on a line of its own. -/
def indented (level : Nat) : Json → List Char
  | .array (item :: items) =>
    '[' :: newLine (level + 1) ++ indented (level + 1) item ++ indentedItems (level + 1) items ++
      newLine level ++ [']']
  | .object (member :: members) =>
    '\x7b' :: newLine (level + 1) ++ indentedMember (level + 1) member ++
      indentedMembers (level + 1) members ++ newLine level ++ ['\x7d']
  | j => compact j

def indentedItems (level : Nat) : List Json → List Char
  | [] => []
  | item :: items => ',' :: newLine level ++ indented level item ++ indentedItems level items

def indentedMember (level : Nat) : String × Json → List Char
  | (key, value) => quote key ++ ':' :: ' ' :: indented level value

def indentedMembers (level : Nat) : List (String × Json) → List Char
  | [] => []
  | member :: members =>
    ',' :: newLine level ++ indentedMember level member ++ indentedMembers level members

end

end Json
end EntityGraph
