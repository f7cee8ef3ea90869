import EntityGraph.Json.Document
import EntityGraph.Proofs.Rounding

/-! # Numerals read back

The text of a number is read to its end, provided that what follows cannot continue it, and is evaluated to
the number again: an integer digit by digit, a double because its digits stand for it in either layout. -/
namespace EntityGraph

namespace Decimal
open Nat

theorem digits_head {n : Nat} (nonzero : n ≠ 0) : (digits n).head? ≠ some '0' := by
  unfold digits
  induction n using Nat.strong_induction_on with
  | _ n ih =>
    by_cases small : n < 10
    · simpa [Nat.toDigits_of_lt_base small] using nonzero
    · rw [Nat.toDigits_of_base_le (by decide) (by omega), List.head?_append_of_ne_nil _ Nat.toDigits_ne_nil]
      exact ih (n / 10) (by omega) (by omega)

theorem isDigit_of_mem_digits {n : Nat} {c : Char} (member : c ∈ digits n) : c.isDigit = true :=
  Nat.isDigit_of_mem_toDigits (by decide) (by decide) member

end Decimal

namespace Json
variable {ds rest cs : List Char} {negative : Bool} {x : Decimal}

/-- A text that does not start with a digit. -/
def NoDigit (rest : List Char) : Prop := ∀ c, rest.head? = some c → c.isDigit = false

theorem noDigit_cons {c : Char} (other : c.isDigit = false) : NoDigit (c :: cs) := by
  rintro _ same
  cases same
  exact other

/-- A text that does not start with anything that continues a numeral. -/
structure Ends (rest : List Char) : Prop where
  digit : NoDigit rest
  point : rest.head? ≠ some '.'
  exponent : rest.head? ≠ some 'e' ∧ rest.head? ≠ some 'E'

/-- The digits of a whole number: only zero starts with a zero. -/
def Whole (ds : List Char) : Prop :=
  ds = ['0'] ∨ ds ≠ [] ∧ (∀ c ∈ ds, c.isDigit = true) ∧ ds.head? ≠ some '0'

theorem whole_append {n : Nat} (nonzero : n ≠ 0) (more : ∀ c ∈ ds, c.isDigit = true) :
    Whole (Decimal.digits n ++ ds) := by
  have some_digit : Decimal.digits n ≠ [] := Nat.toDigits_ne_nil
  refine .inr ⟨by simp [some_digit], ?_, ?_⟩
  · intro c member
    rcases List.mem_append.1 member with first | last
    · exact Decimal.isDigit_of_mem_digits first
    · exact more c last
  · rw [List.head?_append_of_ne_nil _ some_digit]
    exact Decimal.digits_head nonzero

theorem whole_digits (n : Nat) : Whole (Decimal.digits n) := by
  by_cases zero : n = 0
  · exact .inl (by rw [zero]; exact Nat.toDigits_zero 10)
  · exact List.append_nil (Decimal.digits n) ▸ whole_append zero (by simp)

theorem readDigits_append (nonempty : ds ≠ []) (all : ∀ c ∈ ds, c.isDigit = true) (ends : NoDigit rest) :
    readDigits (ds ++ rest) = some (ds, rest) := by
  have stop : rest.takeWhile Char.isDigit = [] ∧ rest.dropWhile Char.isDigit = rest := by
    cases rest with
    | nil => simp
    | cons c rest => simp [ends c rfl]
  simp [readDigits, List.takeWhile_append_of_pos all, List.dropWhile_append_of_pos all, stop, nonempty]

theorem readWhole_append (whole : Whole ds) (ends : NoDigit rest) : readWhole (ds ++ rest) = some (ds, rest) := by
  rcases whole with rfl | ⟨nonempty, all, head⟩
  · rfl
  · unfold readWhole
    split
    · next tail same =>
      have first : (ds ++ rest).head? = ds.head? := List.head?_append_of_ne_nil ds nonempty
      simp [← first, same] at head
    · exact readDigits_append nonempty all ends

theorem readUnsigned_eq {whole fraction t u : List Char} {exponent : Option Int}
    (first : readWhole cs = some (whole, t)) (second : readFraction t = some (fraction, u))
    (third : readExponent u = some (exponent, rest)) :
    readUnsigned negative cs = some (⟨negative,
      ⟨Nat.ofDigitChars 10 (whole ++ fraction) 0, exponent.getD 0 - fraction.length⟩,
      fraction.isEmpty && exponent.isNone⟩, rest) := by
  simp [readUnsigned, first, second, third]

theorem readExponent_absent (ends : Ends rest) : readExponent rest = some (none, rest) := by
  unfold readExponent
  split
  · exact absurd rfl ends.exponent.1
  · exact absurd rfl ends.exponent.2
  · rfl

theorem readFraction_append (nonempty : ds ≠ []) (all : ∀ c ∈ ds, c.isDigit = true) (ends : NoDigit rest) :
    readFraction ('.' :: (ds ++ rest)) = some (ds, rest) :=
  readDigits_append nonempty all ends

theorem readExponent_append {e : Int} (ends : NoDigit rest) :
    readExponent ('e' :: (if e < 0 then '-' else '+') :: (Decimal.digits e.natAbs ++ rest)) =
      some (some e, rest) := by
  have read : readDigits (Decimal.digits e.natAbs ++ rest) = some (Decimal.digits e.natAbs, rest) :=
    readDigits_append Nat.toDigits_ne_nil (fun _ => Decimal.isDigit_of_mem_digits) ends
  have back : Nat.ofDigitChars 10 (Decimal.digits e.natAbs) 0 = e.natAbs := Nat.ofDigitChars_ten_toDigits
  split_ifs with negative
  · simp [readExponent, read, back, abs_of_neg negative]
  · simp [readExponent, read, back, abs_of_nonneg (not_lt.1 negative)]

/-- A numeral with a fraction and no exponent. -/
theorem readUnsigned_positional {whole fraction : List Char} (whole_digits : Whole whole)
    (nonempty : fraction ≠ []) (all : ∀ c ∈ fraction, c.isDigit = true) (ends : Ends rest) :
    readUnsigned negative (whole ++ '.' :: (fraction ++ rest)) = some (⟨negative,
      ⟨Nat.ofDigitChars 10 (whole ++ fraction) 0, -fraction.length⟩, false⟩, rest) := by
  rw [readUnsigned_eq (readWhole_append whole_digits (noDigit_cons rfl))
    (readFraction_append nonempty all ends.digit) (readExponent_absent ends)]
  simp [nonempty]

theorem whole_take {n k : Nat} (nonzero : n ≠ 0) (positive : 0 < k) : Whole ((Decimal.digits n).take k) := by
  have some_digit : Decimal.digits n ≠ [] := Nat.toDigits_ne_nil
  refine .inr ⟨by simp [some_digit, positive.ne'], ?_, ?_⟩
  · exact fun c member => Decimal.isDigit_of_mem_digits (List.mem_of_mem_take member)
  · rw [List.head?_take, if_neg positive.ne']
    exact Decimal.digits_head nonzero

/-- What stands before the point is a whole number, also where zeros fill the places after the point. -/
theorem whole_take_padded {n places : Nat} (positive : 0 < places) :
    Whole ((padded 10 (places + 1) n).take ((padded 10 (places + 1) n).length - places)) := by
  have filled : (padded 10 (places + 1) n).length =
      places + 1 - (Decimal.digits n).length + (Decimal.digits n).length := by
    simp [padded, Decimal.digits]
  by_cases short : (Decimal.digits n).length ≤ places
  · have one : (padded 10 (places + 1) n).length - places = 1 := by omega
    obtain ⟨k, more⟩ : ∃ k, places + 1 - (Nat.toDigits 10 n).length = k + 1 :=
      ⟨places - (Nat.toDigits 10 n).length, by unfold Decimal.digits at short; omega⟩
    rw [one]
    exact .inl (by simp [padded, more, List.replicate_succ])
  · have bare : padded 10 (places + 1) n = Decimal.digits n := by
      have none : places + 1 - (Nat.toDigits 10 n).length = 0 := by unfold Decimal.digits at short; omega
      simp [padded, none, Decimal.digits]
    have nonzero : n ≠ 0 := by
      rintro rfl
      have one : (Decimal.digits 0).length = 1 := by simp [Decimal.digits]
      omega
    rw [bare]
    exact whole_take nonzero (by omega)

theorem positionalText_read (zero : x.coefficient = 0 → x.exponent = 0) (ends : Ends rest) :
    ∃ decimal, readUnsigned negative (numeralLayout.positionalText x ++ rest) =
      some (⟨negative, decimal, false⟩, rest) ∧ decimal.value = x.value := by
  obtain ⟨c, e⟩ := x
  by_cases whole : 0 ≤ e
  · obtain ⟨k, rfl⟩ := Int.eq_ofNat_of_zero_le whole
    have digits : Whole (Decimal.digits c ++ List.replicate k '0') := by
      by_cases nothing : c = 0
      · have none : k = 0 := by simpa using zero nothing
        simpa [none] using whole_digits c
      · refine whole_append nothing fun d member => ?_
        rw [List.eq_of_mem_replicate member]
        rfl
    have laid : numeralLayout.positionalText ⟨c, k⟩ ++ rest =
        Decimal.digits c ++ List.replicate k '0' ++ '.' :: (['0'] ++ rest) := by
      simp [Double.Layout.positionalText, numeralLayout]
    rw [laid, readUnsigned_positional digits (by simp) (by simp) ends]
    refine ⟨_, rfl, ?_⟩
    have back : Nat.ofDigitChars 10 (Decimal.digits c) 0 = c := Nat.ofDigitChars_ten_toDigits
    have shifted :
        Nat.ofDigitChars 10 (Decimal.digits c ++ List.replicate k '0' ++ ['0']) 0 = 10 ^ k * c * 10 := by
      simp [Nat.ofDigitChars_append, Nat.ofDigitChars_replicate_zero, back, Nat.ofDigitChars_cons, mul_comm]
    simp only [Decimal.value, shifted, List.length_singleton, zpow_natCast]
    push_cast
    rw [zpow_neg_one]
    field_simp
  · obtain ⟨places, rfl⟩ : ∃ places : Nat, e = -places := ⟨(-e).toNat, by omega⟩
    have positive : 0 < places := by omega
    have laid : numeralLayout.positionalText ⟨c, -places⟩ ++ rest =
        (padded 10 (places + 1) c).take ((padded 10 (places + 1) c).length - places) ++ '.' ::
          ((padded 10 (places + 1) c).drop ((padded 10 (places + 1) c).length - places) ++ rest) := by
      simp [Double.Layout.positionalText, positive.ne', padded, Decimal.digits]
    have long : places < (padded 10 (places + 1) c).length := by
      simp only [padded, List.length_append, List.length_replicate]
      omega
    have fraction : ((padded 10 (places + 1) c).drop ((padded 10 (places + 1) c).length - places)).length =
        places := by
      simp
      omega
    rw [laid, readUnsigned_positional (whole_take_padded positive) ?_ ?_ ends]
    · refine ⟨_, rfl, ?_⟩
      rw [List.take_append_drop, ofDigitChars_padded, fraction]
    · rw [← List.length_pos_iff_ne_nil, fraction]
      exact positive
    · exact fun d member => isDigit_of_mem_padded (List.mem_of_mem_drop member)

theorem whole_singleton {d : Char} (digit : d.isDigit = true) : Whole [d] := by
  by_cases zero : d = '0'
  · exact .inl (by rw [zero])
  · exact .inr (by simpa [digit] using zero)

/-- With an exponent the very numeral is read that was written. -/
theorem scientificText_read (ends : Ends rest) :
    readUnsigned negative (Double.Layout.scientificText x ++ rest) = some (⟨negative, x, false⟩, rest) := by
  have back : Nat.ofDigitChars 10 (Decimal.digits x.coefficient) 0 = x.coefficient :=
    Nat.ofDigitChars_ten_toDigits
  have all (c : Char) (member : c ∈ Decimal.digits x.coefficient) : c.isDigit = true :=
    Decimal.isDigit_of_mem_digits member
  have last : readExponent ('e' :: ((if x.leading < 0 then '-' else '+') ::
      Decimal.digits x.leading.natAbs ++ rest)) = some (some x.leading, rest) := readExponent_append ends.digit
  have leading : x.leading = (Decimal.digits x.coefficient).length - 1 + x.exponent := rfl
  unfold Double.Layout.scientificText
  simp only
  generalize (if x.leading < 0 then '-' else '+') :: Decimal.digits x.leading.natAbs = written at last ⊢
  generalize digits : Decimal.digits x.coefficient = ds at back all leading ⊢
  match ds with
  | [] => exact absurd digits Nat.toDigits_ne_nil
  | [d] =>
    have first : readWhole (d :: 'e' :: (written ++ rest)) = some ([d], 'e' :: (written ++ rest)) :=
      readWhole_append (whole_singleton (all d (by simp))) (noDigit_cons rfl)
    have exponent : x.leading = x.exponent := by simpa using leading
    simpa [back, exponent] using readUnsigned_eq first rfl last
  | d :: e :: ds =>
    have first : readWhole (d :: '.' :: (e :: ds ++ 'e' :: (written ++ rest))) = some ([d], _) :=
      readWhole_append (whole_singleton (all d (by simp))) (noDigit_cons rfl)
    have second : readFraction ('.' :: (e :: ds ++ 'e' :: (written ++ rest))) = some (e :: ds, _) :=
      readFraction_append (by simp) (fun c member => all c (by simp [member])) (noDigit_cons rfl)
    have exponent : x.leading - (ds.length + 1) = x.exponent := by
      simp only [List.length_cons] at leading
      omega
    simpa [back, exponent] using readUnsigned_eq first second last

/-- A numeral without a sign starts with a digit. -/
theorem head_of_readUnsigned {n : Numeral} (read : readUnsigned negative cs = some (n, rest)) :
    ∃ c, cs.head? = some c ∧ c.isDigit = true := by
  obtain ⟨⟨whole, t⟩, first, -⟩ := Option.bind_eq_some_iff.1 read
  unfold readWhole at first
  split at first
  · exact ⟨'0', rfl, rfl⟩
  · cases cs with
    | nil => cases first
    | cons c cs =>
      refine ⟨c, rfl, ?_⟩
      by_contra other
      simp [readDigits, other] at first

/-- A numeral starts with a sign or a digit. -/
theorem head_of_readNumeral {n : Numeral} (read : readNumeral cs = some (n, rest)) :
    ∃ c, cs.head? = some c ∧ (c = '-' ∨ c.isDigit = true) := by
  unfold readNumeral at read
  split at read
  · exact ⟨'-', rfl, .inl rfl⟩
  · obtain ⟨c, head, digit⟩ := head_of_readUnsigned read
    exact ⟨c, head, .inr digit⟩

theorem readNumeral_of_readUnsigned {n : Numeral} (read : readUnsigned false cs = some (n, rest)) :
    readNumeral cs = some (n, rest) := by
  obtain ⟨c, head, digit⟩ := head_of_readUnsigned read
  unfold readNumeral
  split
  · cases head
    cases digit
  · exact read

theorem readUnsigned_digits (negative : Bool) (n : Nat) (ends : Ends rest) :
    readUnsigned negative (Decimal.digits n ++ rest) = some (⟨negative, ⟨n, 0⟩, true⟩, rest) := by
  have back : Nat.ofDigitChars 10 (Decimal.digits n) 0 = n := Nat.ofDigitChars_ten_toDigits
  have second : readFraction rest = some ([], rest) := by
    unfold readFraction
    split
    · exact absurd rfl ends.point
    · rfl
  simpa [back] using readUnsigned_eq (readWhole_append (whole_digits n) ends.digit) second
    (readExponent_absent ends)

theorem readNumeral_int (n : Int) (ends : Ends rest) :
    readNumeral (n.repr.toList ++ rest) = some (⟨decide (n < 0), ⟨n.natAbs, 0⟩, true⟩, rest) := by
  rw [Int.repr_eq_if]
  split_ifs with sign
  · have digits : n.toNat = n.natAbs := by omega
    have read := readUnsigned_digits false n.natAbs ends
    simpa [digits, not_lt.2 sign, Decimal.digits] using readNumeral_of_readUnsigned read
  · have digits : (-n).toNat = n.natAbs := by omega
    have read := readUnsigned_digits true n.natAbs ends
    simpa [digits, not_le.1 sign, Decimal.digits, readNumeral] using read

/-- The digits of a double in the layout of the exchange format, with its sign. -/
theorem readNumeral_double {d : Double} (finite : d.isFinite = true) (ends : Ends rest) :
    ∃ decimal, readNumeral (numeralLayout.text d ++ rest) = some (⟨d.isNegative, decimal, false⟩, rest) ∧
      decimal.magnitude = d.magnitude := by
  have bound : d.magnitude < Double.infinityBits := by simpa [Double.isFinite] using finite
  have shortest := Double.shortest_magnitude numeralLayout.tie bound
  have zero := Double.shortest_exponent numeralLayout.tie bound
  unfold Double.Layout.text
  simp only
  generalize Double.shortest numeralLayout.tie d.magnitude = x at shortest zero ⊢
  obtain ⟨decimal, read, same⟩ : ∃ decimal, readUnsigned d.isNegative
      ((if numeralLayout.positional x.leading = true then numeralLayout.positionalText x
        else Double.Layout.scientificText x) ++ rest) = some (⟨d.isNegative, decimal, false⟩, rest) ∧
      decimal.value = x.value := by
    split_ifs
    · exact positionalText_read zero ends
    · exact ⟨x, scientificText_read ends, rfl⟩
  refine ⟨decimal, ?_, by rw [Decimal.magnitude_congr same, shortest]⟩
  cases sign : d.isNegative with
  | false =>
    rw [sign] at read
    exact readNumeral_of_readUnsigned read
  | true =>
    rw [sign] at read
    exact read

/-- The text of a number is read to its end and evaluated to the number. -/
theorem readNumeral_text (n : Number) (ends : Ends rest) :
    ∃ numeral, readNumeral (n.text ++ rest) = some (numeral, rest) ∧ numeral.eval? = some n := by
  cases n with
  | integer n fits =>
    refine ⟨_, readNumeral_int n ends, ?_⟩
    have value : (if n < 0 then -(n.natAbs : Int) else n.natAbs) = n := by omega
    have whole : ¬(n < 0 ∧ n.natAbs = 0) := by omega
    simp only [Numeral.eval?, decide_eq_true_eq, value]
    rw [dif_pos ⟨trivial, whole, fits⟩]
  | double d finite =>
    obtain ⟨decimal, read, same⟩ := readNumeral_double finite ends
    refine ⟨_, read, ?_⟩
    simp [Numeral.eval?, Decimal.toDouble, same, Double.ofMagnitude_magnitude, finite]

end Json
end EntityGraph
