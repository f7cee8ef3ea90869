import EntityGraph.Value

/-! # Keys

A key identifies a row of an entity. Integer keys come before text keys; text keys are ordered by
their characters. -/
namespace EntityGraph

inductive Key where
  | integer (n : Int64)
  | text (s : String)
  deriving DecidableEq, Repr

namespace Key

instance : Ord Key where
  compare
    | .integer a, .integer b => compare a b
    | .integer _, .text _ => .lt
    | .text _, .integer _ => .gt
    | .text a, .text b => compare a b

instance : Std.TransOrd Key where
  eq_swap {a b} :=
    match a, b with
    | .integer x, .integer y => Std.OrientedOrd.eq_swap (a := x) (b := y)
    | .text x, .text y => Std.OrientedOrd.eq_swap (a := x) (b := y)
    | .integer _, .text _ => rfl
    | .text _, .integer _ => rfl
  isLE_trans {a b c} hab hbc :=
    match a, b, c with
    | .integer x, .integer y, .integer z => Std.TransOrd.isLE_trans (a := x) (b := y) (c := z) hab hbc
    | .text x, .text y, .text z => Std.TransOrd.isLE_trans (a := x) (b := y) (c := z) hab hbc
    | .integer _, _, .text _ => rfl
    | .text _, .integer _, _ => nomatch hab
    | _, .text _, .integer _ => nomatch hbc

instance : Std.LawfulEqOrd Key where
  eq_of_compare {a b} h :=
    match a, b with
    | .integer x, .integer y => congrArg Key.integer (Std.LawfulEqOrd.eq_of_compare (a := x) (b := y) h)
    | .text x, .text y => congrArg Key.text (Std.LawfulEqOrd.eq_of_compare (a := x) (b := y) h)
    | .integer _, .text _ => nomatch h
    | .text _, .integer _ => nomatch h

/-- Only integers and text can be keys. -/
def ofValue? : Value → Option Key
  | .integer n => some (.integer n)
  | .text s => some (.text s)
  | _ => none

def toValue : Key → Value
  | .integer n => .integer n
  | .text s => .text s

@[simp]
theorem ofValue?_toValue (key : Key) : ofValue? key.toValue = some key := by cases key <;> rfl

theorem ofValue?_eq_some_iff {value : Value} {key : Key} :
    ofValue? value = some key ↔ value = key.toValue := by
  cases value <;> cases key <;> simp [ofValue?, toValue]

def asInteger? : Key → Option Int64
  | .integer n => some n
  | .text _ => none

def display (key : Key) : String := key.toValue.display

/-- Reads a key from its interchange form. A number with a fraction or an exponent is no key. -/
def ofJson? : Json → Option Key
  | .number (.integer n _) =>
    if n ≤ Int64.maxValue.toInt then some (.integer (Int64.ofInt n)) else none
  | .string s => some (.text s)
  | _ => none

def toJson (key : Key) : Json := key.toValue.toJson

end Key
end EntityGraph
