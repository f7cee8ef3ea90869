import EntityGraph.Double

/-! # Decimal numerals

Reading rounds a decimal numeral to the nearest double, however many zeros it ends with. Writing looks
for the fewest digits that read back, takes the nearer of two candidates, and leaves a tie and the
layout of the digits to the style. -/
namespace EntityGraph

/-- The number `coefficient * 10 ^ exponent`. -/
structure Decimal where
  coefficient : Nat
  exponent : Int
  deriving DecidableEq, Repr

namespace Decimal

def digits (n : Nat) : List Char := Nat.toDigits 10 n

/-- The exponent of the leading digit. -/
def leading (x : Decimal) : Int := (digits x.coefficient).length - 1 + x.exponent

/-- Moves zeros from the end of the coefficient to the exponent. The fuel bounds how many. -/
def dropZeros : Nat → Decimal → Decimal
  | 0, x => x
  | fuel + 1, x =>
    if x.coefficient % 10 = 0 then dropZeros fuel ⟨x.coefficient / 10, x.exponent + 1⟩ else x

/-- The same number with no zero at the end of its coefficient, unless it is zero. -/
def trim (x : Decimal) : Decimal := dropZeros x.coefficient x

/-- Magnitude bits of the double nearest to a numeral. A leading digit beyond `10 ^ 310` overflows and
one below `10 ^ -330` underflows, whatever digits follow. -/
def magnitude (x : Decimal) : Nat :=
  let x := x.trim
  if x.coefficient = 0 then 0
  else if 310 < x.leading then Double.infinityBits
  else if x.leading < -330 then 0
  else Double.roundRatio (x.coefficient * Nat.pow 10 x.exponent.toNat) (Nat.pow 10 (-x.exponent).toNat)

def toDouble (negative : Bool) (x : Decimal) : Double := Double.ofMagnitude negative x.magnitude

/-- The exponent of the leading decimal digit of a positive ratio. -/
def leadingOfRatio (num den : Nat) : Int :=
  if den ≤ num then (digits (num / den)).length - 1
  else -((digits ((den + num - 1) / num - 1)).length : Int)

end Decimal

/-- Which of two equally near numerals is written. -/
inductive Tie where
  | even
  | up
  deriving DecidableEq, Repr

namespace Double
open Decimal

/-- The numeral with a last digit of weight `10 ^ exponent` that is nearest to the datum among those
that read back as it. -/
def onGrid? (tie : Tie) (magnitude : Nat) (exponent : Int) : Option Decimal :=
  let (num, den) := ratio magnitude
  let num := num * Nat.pow 10 (-exponent).toNat
  let den := den * Nat.pow 10 exponent.toNat
  let lower : Decimal := ⟨num / den, exponent⟩
  let upper : Decimal := ⟨num / den + 1, exponent⟩
  let twice := 2 * (num % den)
  let preferUpper := den < twice || (twice == den && (tie == .up || lower.coefficient % 2 == 1))
  match lower.magnitude == magnitude, upper.magnitude == magnitude with
  | true, true => some (if preferUpper then upper else lower)
  | true, false => some lower
  | false, true => some upper
  | false, false => none

/-- The numeral that equals a datum exactly. -/
def exactDecimal (magnitude : Nat) : Decimal :=
  let (m, q) := significand magnitude
  ⟨m <<< q.toNat * Nat.pow 5 (-q).toNat, min q 0⟩

/-- The shortest numeral that reads back as a finite magnitude. Seventeen digits always suffice. -/
def shortest (tie : Tie) (magnitude : Nat) : Decimal :=
  if magnitude = 0 then ⟨0, 0⟩
  else
    let (num, den) := ratio magnitude
    let lead := leadingOfRatio num den
    let found := (List.range 17).findSome? fun (n : Nat) => onGrid? tie magnitude (lead - n)
    (found.getD (exactDecimal magnitude)).trim

/-- How the digits of a numeral are laid out. -/
structure Layout where
  tie : Tie
  /-- Whether a leading digit of this exponent is written without an exponent part. -/
  positional : Int → Bool
  /-- Whether a whole number written without an exponent part ends in `.0`. -/
  fraction : Bool

namespace Layout

def positionalText (style : Layout) (x : Decimal) : List Char :=
  let ds := digits x.coefficient
  if 0 ≤ x.exponent then
    ds ++ List.replicate x.exponent.toNat '0' ++ (if style.fraction then ['.', '0'] else [])
  else
    let places := (-x.exponent).toNat
    let ds := List.replicate (places + 1 - ds.length) '0' ++ ds
    ds.take (ds.length - places) ++ '.' :: ds.drop (ds.length - places)

def scientificText (x : Decimal) : List Char :=
  let exponent := (if x.leading < 0 then '-' else '+') :: digits x.leading.natAbs
  match digits x.coefficient with
  | d :: [] => d :: 'e' :: exponent
  | d :: ds => d :: '.' :: ds ++ 'e' :: exponent
  | [] => []

/-- The text of a finite datum. -/
def text (style : Layout) (d : Double) : List Char :=
  let x := shortest style.tie d.magnitude
  let unsigned := if style.positional x.leading then style.positionalText x else scientificText x
  if d.isNegative then '-' :: unsigned else unsigned

end Layout
end Double
end EntityGraph
