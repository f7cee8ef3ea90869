import EntityGraph.Json

/-! # JSON texts

A document is a text as written: numerals and strings are not evaluated, and members keep their order
and their repetitions. Evaluation comes afterwards and can fail: a numeral may be too large, half of a
surrogate pair may stand alone, and arrays and objects may be nested too deeply. What nobody evaluates
is free to have these faults. -/
namespace EntityGraph

/-- A numeral that is not yet evaluated. -/
structure Json.Numeral where
  negative : Bool
  decimal : Decimal
  /-- Written with neither a fraction nor an exponent. -/
  integral : Bool
  deriving DecidableEq, Repr

/-- A piece of a quoted text: a character, or a numeric escape in UTF-16. -/
inductive Json.Piece where
  | char (c : Char)
  | unit (code : Nat)
  deriving DecidableEq, Repr

abbrev Json.Quoted := List Json.Piece

inductive Json.Document where
  | null
  | bool (b : Bool)
  | numeral (n : Json.Numeral)
  | string (s : Json.Quoted)
  | array (items : List Json.Document)
  | object (members : List (Json.Quoted × Json.Document))
  deriving Repr, Inhabited

namespace Json

/-- An integer that fits a word stays an integer. Minus zero and longer integers become doubles. -/
def Numeral.eval? (n : Numeral) : Option Number :=
  let value : Int := if n.negative then -n.decimal.coefficient else n.decimal.coefficient
  if h : n.integral ∧ ¬(n.negative ∧ n.decimal.coefficient = 0) ∧ Int64.minValue.toInt ≤ value ∧
      value < UInt64.size then
    some (.integer value h.2.2)
  else
    let d := n.decimal.toDouble n.negative
    if h : d.isFinite then some (.double d h) else none

/-- The characters of a quoted text. Halves of a surrogate pair count only together. -/
def Quoted.chars? : Quoted → Option (List Char)
  | [] => some []
  | .char c :: rest => (c :: ·) <$> chars? rest
  | .unit high :: .unit low :: rest =>
    if 0xD800 ≤ high ∧ high < 0xDC00 then
      if 0xDC00 ≤ low ∧ low < 0xE000 then
        (Char.ofNat (0x10000 + (high - 0xD800) * 0x400 + (low - 0xDC00)) :: ·) <$> chars? rest
      else none
    else if 0xDC00 ≤ high ∧ high < 0xE000 then none
    else (Char.ofNat high :: ·) <$> chars? (.unit low :: rest)
  | .unit code :: rest =>
    if 0xD800 ≤ code ∧ code < 0xE000 then none
    else (Char.ofNat code :: ·) <$> chars? rest

def Quoted.eval? (s : Quoted) : Option String := String.ofList <$> s.chars?

namespace Document

mutual

/-- The value of a document that nests arrays and objects at most `depth` deep. -/
def eval? (depth : Nat) : Document → Option Json
  | .null => some .null
  | .bool b => some (.bool b)
  | .numeral n => .number <$> n.eval?
  | .string s => .string <$> s.eval?
  | .array items => if depth = 0 then none else .array <$> evalItems? (depth - 1) items
  | .object members => if depth = 0 then none else ofMembers <$> evalMembers? (depth - 1) members

def evalItems? (depth : Nat) : List Document → Option (List Json)
  | [] => some []
  | item :: items => do
    let item ← eval? depth item
    let items ← evalItems? depth items
    some (item :: items)

def evalMembers? (depth : Nat) : List (Quoted × Document) → Option (List (String × Json))
  | [] => some []
  | member :: members => do
    let member ← evalMember? depth member
    let members ← evalMembers? depth members
    some (member :: members)

def evalMember? (depth : Nat) : Quoted × Document → Option (String × Json)
  | (key, value) => do
    let key ← key.eval?
    let value ← eval? depth value
    some (key, value)

end

end Document

def isBlank (c : Char) : Bool := c == ' ' || c == '\t' || c == '\r' || c == '\n'

def skipBlanks (cs : List Char) : List Char := cs.dropWhile isBlank

/-- One or more digits. -/
def readDigits : Reader (List Char) := fun cs =>
  let ds := cs.takeWhile Char.isDigit
  if ds.isEmpty then none else some (ds, cs.dropWhile Char.isDigit)

/-- Digits without a leading zero, unless zero is the only digit. -/
def readWhole : Reader (List Char)
  | '0' :: cs => some (['0'], cs)
  | cs => readDigits cs

def readFraction : Reader (List Char)
  | '.' :: cs => readDigits cs
  | cs => some ([], cs)

def readExponent : Reader (Option Int)
  | 'e' :: cs | 'E' :: cs =>
    let (negative, cs) := match cs with
      | '-' :: cs => (true, cs)
      | '+' :: cs => (false, cs)
      | cs => (false, cs)
    match readDigits cs with
    | some (ds, cs) =>
      let n : Int := Nat.ofDigitChars 10 ds 0
      some (some (if negative then -n else n), cs)
    | none => none
  | cs => some (none, cs)

def readUnsigned (negative : Bool) : Reader Numeral := fun cs => do
  let (whole, cs) ← readWhole cs
  let (fraction, cs) ← readFraction cs
  let (exponent, cs) ← readExponent cs
  let coefficient := Nat.ofDigitChars 10 (whole ++ fraction) 0
  some (⟨negative, ⟨coefficient, exponent.getD 0 - fraction.length⟩,
    fraction.isEmpty && exponent.isNone⟩, cs)

def readNumeral : Reader Numeral
  | '-' :: cs => readUnsigned true cs
  | cs => readUnsigned false cs

def hexValue? (c : Char) : Option Nat :=
  if c.isDigit then some (c.toNat - '0'.toNat)
  else if 'a' ≤ c ∧ c ≤ 'f' then some (c.toNat - 'a'.toNat + 10)
  else if 'A' ≤ c ∧ c ≤ 'F' then some (c.toNat - 'A'.toNat + 10)
  else none

/-- The character that a letter after a backslash stands for. -/
def unescape? (c : Char) : Option Char :=
  if c = '"' ∨ c = '\\' ∨ c = '/' then some c
  else if c = 'b' then some '\x08'
  else if c = 'f' then some '\x0c'
  else if c = 'n' then some '\n'
  else if c = 'r' then some '\r'
  else if c = 't' then some '\t'
  else none

/-- What follows an opening quote, up to the closing one. -/
def readQuoted : Reader Quoted
  | [] => none
  | '"' :: cs => some ([], cs)
  | '\\' :: 'u' :: a :: b :: c :: d :: cs => do
    let a ← hexValue? a
    let b ← hexValue? b
    let c ← hexValue? c
    let d ← hexValue? d
    let (pieces, cs) ← readQuoted cs
    some (.unit (((a * 16 + b) * 16 + c) * 16 + d) :: pieces, cs)
  | '\\' :: c :: cs => do
    let c ← unescape? c
    let (pieces, cs) ← readQuoted cs
    some (.char c :: pieces, cs)
  | c :: cs =>
    if c.toNat < 32 ∨ c = '\\' then none
    else do
      let (pieces, cs) ← readQuoted cs
      some (.char c :: pieces, cs)

namespace Document

mutual

/-- A value after blanks. The fuel bounds the number of values, items and members opened. -/
def readValue : Nat → Reader Document
  | 0, _ => none
  | fuel + 1, cs =>
    match skipBlanks cs with
    | 'n' :: 'u' :: 'l' :: 'l' :: cs => some (.null, cs)
    | 't' :: 'r' :: 'u' :: 'e' :: cs => some (.bool true, cs)
    | 'f' :: 'a' :: 'l' :: 's' :: 'e' :: cs => some (.bool false, cs)
    | '"' :: cs => do
      let (s, cs) ← readQuoted cs
      some (.string s, cs)
    | '[' :: cs =>
      match skipBlanks cs with
      | ']' :: cs => some (.array [], cs)
      | cs => do
        let (items, cs) ← readItems fuel cs
        some (.array items, cs)
    | '\x7b' :: cs =>
      match skipBlanks cs with
      | '\x7d' :: cs => some (.object [], cs)
      | cs => do
        let (members, cs) ← readMembers fuel cs
        some (.object members, cs)
    | cs => do
      let (n, cs) ← readNumeral cs
      some (.numeral n, cs)

/-- One or more items and the closing bracket. -/
def readItems : Nat → Reader (List Document)
  | 0, _ => none
  | fuel + 1, cs => do
    let (item, cs) ← readValue fuel cs
    match skipBlanks cs with
    | ',' :: cs =>
      let (items, cs) ← readItems fuel cs
      some (item :: items, cs)
    | ']' :: cs => some ([item], cs)
    | _ => none

/-- One or more members and the closing brace. -/
def readMembers : Nat → Reader (List (Quoted × Document))
  | 0, _ => none
  | fuel + 1, cs =>
    match skipBlanks cs with
    | '"' :: cs => do
      let (key, cs) ← readQuoted cs
      match skipBlanks cs with
      | ':' :: cs =>
        let (value, cs) ← readValue fuel cs
        match skipBlanks cs with
        | ',' :: cs =>
          let (members, cs) ← readMembers fuel cs
          some ((key, value) :: members, cs)
        | '\x7d' :: cs => some ([(key, value)], cs)
        | _ => none
      | _ => none
    | _ => none

end

/-- Reads a whole text. Every item, member and value starts with a character of its own, or follows
one, so twice the length is fuel enough. -/
def read? (text : String) : Option Document :=
  let cs := text.toList
  match readValue (2 * cs.length + 2) cs with
  | some (document, cs) => if (skipBlanks cs).isEmpty then some document else none
  | none => none

end Document

/-- How deeply the arrays and objects of a value may be nested. -/
def maxDepth : Nat := 127

/-- Reads a text and evaluates it. -/
def read? (text : String) : Option Json := Document.read? text >>= Document.eval? maxDepth

end Json
end EntityGraph
