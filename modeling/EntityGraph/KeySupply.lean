/-! # Generated keys

Every millisecond of the clock has a hundred keys. A generated key is the first of the present
millisecond, or one more than the last generated key where that is not greater, so generated keys
strictly increase. -/
namespace EntityGraph

/-- The last generated key. -/
structure KeySupply where
  last : Int64
  deriving DecidableEq, Repr

namespace KeySupply

def start : KeySupply := ⟨0⟩

def keysPerMilli : Int64 := 100

/-- A new key at a reading of the clock, in milliseconds since the epoch. -/
def next (supply : KeySupply) (millis : Int64) : Int64 × KeySupply :=
  let first := millis * keysPerMilli
  let key := if supply.last < first then first else supply.last + 1
  (key, ⟨key⟩)

end KeySupply
end EntityGraph
