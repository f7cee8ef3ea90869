/-! # Double precision numbers

A datum of the 64-bit binary format is its bits, so two data are equal exactly when every bit agrees:
zero has two signs, and not-a-numbers with different payloads differ. An exact ratio is rounded to the
nearest datum, a tie to the one with the even significand, and past the largest finite datum to
infinity. -/
namespace EntityGraph

structure Double where
  bits : UInt64
  deriving DecidableEq, Repr

namespace Double

def signBit : Nat := 1 <<< 63

/-- The leading bit of a normal significand, which is not written. -/
def hiddenBit : Nat := 1 <<< 52

/-- The magnitude bits of infinity: every exponent bit set and no significand bit. -/
def infinityBits : Nat := 2047 <<< 52

/-- The bits without the sign. -/
def magnitude (d : Double) : Nat := d.bits.toNat % signBit

def isNegative (d : Double) : Bool := signBit ≤ d.bits.toNat

def isFinite (d : Double) : Bool := d.magnitude < infinityBits

def isNaN (d : Double) : Bool := infinityBits < d.magnitude

def ofMagnitude (negative : Bool) (magnitude : Nat) : Double :=
  ⟨UInt64.ofNat (if negative then signBit + magnitude else magnitude)⟩

/-- The significand `m` and exponent `q` of a finite magnitude, whose value is `m * 2 ^ q`. -/
def significand (magnitude : Nat) : Nat × Int :=
  if magnitude < hiddenBit then (magnitude, -1074)
  else (hiddenBit + magnitude % hiddenBit, magnitude / hiddenBit - 1075)

/-- A finite magnitude as a ratio of naturals. -/
def ratio (magnitude : Nat) : Nat × Nat :=
  let (m, q) := significand magnitude
  (m <<< q.toNat, 1 <<< (-q).toNat)

/-- The quotient of `num` by `den`, rounded to the nearest natural and a tie to the even one. -/
def roundEven (num den : Nat) : Nat :=
  let quotient := num / den
  let twice := 2 * (num % den)
  if twice < den then quotient
  else if den < twice then quotient + 1
  else quotient + quotient % 2

/-- The exponent of the last significand bit that the nearest datum to `num / den` has. -/
def lastBit (num den : Nat) : Int :=
  let estimate : Int := (num.log2 : Int) - den.log2
  let exact := if den <<< estimate.toNat ≤ num <<< (-estimate).toNat then estimate else estimate - 1
  max (exact - 52) (-1074)

/-- The magnitude bits of the datum nearest to `num / den`. The significand is added to the exponent
field as a number, so a significand that rounds up to a power of two carries into the exponent. -/
def roundRatio (num den : Nat) : Nat :=
  if num = 0 then 0
  else
    let q := lastBit num den
    let m := roundEven (num <<< (-q).toNat) (den <<< q.toNat)
    min ((q + 1074).toNat <<< 52 + m) infinityBits

def ofInt (n : Int) : Double := ofMagnitude (n < 0) (roundRatio n.natAbs 1)

end Double
end EntityGraph
