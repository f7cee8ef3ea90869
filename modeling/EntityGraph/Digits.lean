/-! # Digits

Numerals of at least a given width, and readers. A reader takes what it recognises from the front of a
text and returns the rest. -/
namespace EntityGraph

abbrev Reader (α : Type) := List Char → Option (α × List Char)

/-- A natural in a base, with zeros in front where it has fewer than `width` digits. -/
def padded (base width n : Nat) : List Char :=
  let ds := Nat.toDigits base n
  List.replicate (width - ds.length) '0' ++ ds

end EntityGraph
