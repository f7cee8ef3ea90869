import EntityGraph.Proofs.Decoding
import Mathlib.Algebra.Order.Field.Power
import Mathlib.Data.Int.Log
import Mathlib.Data.Rat.Floor
import Mathlib.Tactic.FieldSimp
import Mathlib.Tactic.Positivity
import Mathlib.Tactic.Ring

/-! # Numerals that stand for doubles

A numeral is read as the double nearest to its number, and the digits that are written for a double are
read as that double again: candidates are tried by reading them, and the numeral that is written when
none of them will do equals the double exactly. -/
namespace EntityGraph

/-- A natural power by parts, whatever the sign of the exponent. -/
theorem pow_toNat {b : ℚ} (nonzero : b ≠ 0) (e : Int) : b ^ e.toNat = b ^ e * b ^ (-e).toNat := by
  rw [← zpow_natCast, ← zpow_natCast, ← zpow_add₀ nonzero]
  congr 1
  omega

namespace Double
variable {num den m : Nat}

/-- The number that a finite magnitude stands for. -/
def value (m : Nat) : ℚ := (significand m).1 * 2 ^ (significand m).2

/-- A comparison with a power of two is a comparison of shifted naturals. -/
theorem shift_le_shift_iff (positive : 0 < den) (e : Int) :
    den <<< e.toNat ≤ num <<< (-e).toNat ↔ (2 : ℚ) ^ e ≤ num / den := by
  have scale : (0 : ℚ) < 2 ^ (-e).toNat := by positivity
  rw [Nat.shiftLeft_eq, Nat.shiftLeft_eq, ← Nat.cast_le (α := ℚ), le_div_iff₀ (by exact_mod_cast positive)]
  push_cast
  rw [pow_toNat two_ne_zero, ← mul_assoc, mul_comm (den : ℚ), mul_le_mul_iff_left₀ scale]

/-- The binary logarithm of a ratio is the difference of those of its parts, or one less. -/
theorem log_ratio_bounds (num_pos : 0 < num) (den_pos : 0 < den) :
    (2 : ℚ) ^ ((num.log2 : Int) - den.log2 - 1) ≤ num / den ∧
      (num / den : ℚ) < 2 ^ ((num.log2 : Int) - den.log2 + 1) := by
  have num_low : (2 : ℚ) ^ num.log2 ≤ num := by exact_mod_cast Nat.log2_self_le num_pos.ne'
  have num_high : (num : ℚ) < 2 ^ (num.log2 + 1) := by exact_mod_cast Nat.lt_log2_self
  have den_low : (2 : ℚ) ^ den.log2 ≤ den := by exact_mod_cast Nat.log2_self_le den_pos.ne'
  have den_high : (den : ℚ) < 2 ^ (den.log2 + 1) := by exact_mod_cast Nat.lt_log2_self
  have den_cast : (0 : ℚ) < den := by exact_mod_cast den_pos
  constructor
  · rw [le_div_iff₀ den_cast]
    calc (2 : ℚ) ^ ((num.log2 : Int) - den.log2 - 1) * den
        ≤ 2 ^ ((num.log2 : Int) - den.log2 - 1) * 2 ^ (den.log2 + 1) := by gcongr
      _ = 2 ^ num.log2 := by
        rw [← zpow_natCast, ← zpow_natCast, ← zpow_add₀ two_ne_zero]
        congr 1
        push_cast
        ring
      _ ≤ num := num_low
  · rw [div_lt_iff₀ den_cast]
    calc (num : ℚ) < 2 ^ (num.log2 + 1) := num_high
      _ = 2 ^ ((num.log2 : Int) - den.log2 + 1) * 2 ^ den.log2 := by
        rw [← zpow_natCast, ← zpow_natCast, ← zpow_add₀ two_ne_zero]
        congr 1
        push_cast
        ring
      _ ≤ 2 ^ ((num.log2 : Int) - den.log2 + 1) * den := by gcongr

theorem lastBit_eq (num_pos : 0 < num) (den_pos : 0 < den) :
    lastBit num den = max (Int.log 2 (num / den : ℚ) - 52) (-1074) := by
  have positive : (0 : ℚ) < num / den := by positivity
  obtain ⟨lower, upper⟩ := log_ratio_bounds num_pos den_pos
  have least := (Int.zpow_le_iff_le_log (b := 2) (by decide) positive).1 lower
  have most := (Int.lt_zpow_iff_log_lt (b := 2) (by decide) positive).1 upper
  unfold lastBit
  simp only [shift_le_shift_iff den_pos]
  split_ifs with exact
  · have reached := (Int.zpow_le_iff_le_log (b := 2) (by decide) positive).1 exact
    omega
  · have missed : ¬(num.log2 : Int) - den.log2 ≤ Int.log 2 (num / den : ℚ) := fun reached =>
      exact ((Int.zpow_le_iff_le_log (b := 2) (by decide) positive).2 reached)
    omega

theorem roundEven_mul (positive : 0 < den) (s : Nat) : roundEven (s * den) den = s := by
  simp [roundEven, Nat.mul_div_cancel _ positive, positive]

/-- The parts of a finite magnitude: a significand of at most 53 bits, which has fewer only if the exponent
is the least one. -/
theorem significand_spec (nonzero : m ≠ 0) (finite : m < infinityBits) :
    0 < (significand m).1 ∧ (significand m).1 < 2 ^ 53 ∧ -1074 ≤ (significand m).2 ∧
      (significand m).2 ≤ 971 ∧ ((significand m).1 < 2 ^ 52 → (significand m).2 = -1074) ∧
      ((significand m).2 + 1074).toNat <<< 52 + (significand m).1 = m := by
  have bits : hiddenBit = 4503599627370496 := by decide
  have bound : infinityBits = 2047 * 4503599627370496 := by decide
  unfold significand
  rw [bound] at finite
  rw [Nat.shiftLeft_eq, bits]
  split_ifs with subnormal
  · exact ⟨by omega, by omega, le_rfl, by simp only; omega, fun _ => rfl, by simp⟩
  · simp only
    omega

theorem value_pos (nonzero : m ≠ 0) (finite : m < infinityBits) : 0 < value m := by
  have positive : (0 : ℚ) < (significand m).1 := by exact_mod_cast (significand_spec nonzero finite).1
  unfold value
  positivity

theorem value_lt (nonzero : m ≠ 0) (finite : m < infinityBits) : value m < 2 ^ (53 + (significand m).2) := by
  have high : ((significand m).1 : ℚ) < 2 ^ 53 := by exact_mod_cast (significand_spec nonzero finite).2.1
  rw [zpow_add₀ two_ne_zero]
  exact mul_lt_mul_of_pos_right high (by positivity)

theorem le_value (nonzero : m ≠ 0) (finite : m < infinityBits) : 2 ^ (significand m).2 ≤ value m := by
  have low : (1 : ℚ) ≤ (significand m).1 := by exact_mod_cast (significand_spec nonzero finite).1
  exact le_mul_of_one_le_left (by positivity) low

/-- The logarithm of a magnitude, up to the least exponent, gives back the exponent of its last bit. -/
theorem log_value (nonzero : m ≠ 0) (finite : m < infinityBits) :
    max (Int.log 2 (value m) - 52) (-1074) = (significand m).2 := by
  obtain ⟨-, -, least, -, subnormal, -⟩ := significand_spec nonzero finite
  have positive := value_pos nonzero finite
  have most := (Int.lt_zpow_iff_log_lt (b := 2) (by decide) positive).1 (value_lt nonzero finite)
  unfold value at positive most ⊢
  generalize (significand m).1 = s at *
  generalize (significand m).2 = q at *
  have scale : (0 : ℚ) < 2 ^ q := by positivity
  by_cases normal : 2 ^ 52 ≤ s
  · have reached : 52 + q ≤ Int.log 2 ((s : ℚ) * 2 ^ q) := by
      refine (Int.zpow_le_iff_le_log (b := 2) (by decide) positive).1 ?_
      rw [Nat.cast_ofNat, zpow_add₀ two_ne_zero]
      exact mul_le_mul_of_nonneg_right (by exact_mod_cast normal) scale.le
    omega
  · have small : Int.log 2 ((s : ℚ) * 2 ^ q) < 52 + q := by
      refine (Int.lt_zpow_iff_log_lt (b := 2) (by decide) positive).1 ?_
      rw [Nat.cast_ofNat, zpow_add₀ two_ne_zero]
      exact mul_lt_mul_of_pos_right (by exact_mod_cast not_le.1 normal) scale
    have bottom := subnormal (not_le.1 normal)
    omega

/-- A ratio that equals a finite magnitude is rounded to it. -/
theorem roundRatio_of_eq_value (nonzero : m ≠ 0) (finite : m < infinityBits) (positive : 0 < den)
    (same : (num / den : ℚ) = value m) : roundRatio num den = m := by
  have num_pos : 0 < num := by
    rcases Nat.eq_zero_or_pos num with rfl | found
    · have contra := value_pos nonzero finite
      simp [← same] at contra
    · exact found
  have bit : lastBit num den = (significand m).2 := by
    rw [lastBit_eq num_pos positive, same, log_value nonzero finite]
  obtain ⟨-, -, -, -, -, parts⟩ := significand_spec nonzero finite
  have den_ne : (den : ℚ) ≠ 0 := by exact_mod_cast positive.ne'
  -- shifted to the last bit, the quotient is the significand itself
  have exact : num <<< (-(significand m).2).toNat = (significand m).1 * den <<< (significand m).2.toNat := by
    rw [div_eq_iff den_ne, value] at same
    rw [← Nat.cast_inj (R := ℚ), Nat.shiftLeft_eq, Nat.shiftLeft_eq]
    push_cast
    rw [same, pow_toNat two_ne_zero (significand m).2]
    ring
  have shifted : 0 < den <<< (significand m).2.toNat := by
    rw [Nat.shiftLeft_eq]
    positivity
  unfold roundRatio
  rw [if_neg num_pos.ne']
  simp only [bit, exact, roundEven_mul shifted, parts]
  omega

/-- A datum is its sign and its magnitude. -/
theorem ofMagnitude_magnitude (d : Double) : ofMagnitude d.isNegative d.magnitude = d := by
  obtain ⟨bits⟩ := d
  have word : bits.toNat < 2 ^ 64 := bits.toNat_lt
  have sign : signBit = 9223372036854775808 := by decide
  have same : (if signBit ≤ bits.toNat then signBit + bits.toNat % signBit else bits.toNat % signBit) =
      bits.toNat := by
    rw [sign]
    split_ifs <;> omega
  simp only [ofMagnitude, isNegative, magnitude, decide_eq_true_eq, same]
  simp

end Double

namespace Decimal
variable {x y : Decimal} {m : Nat}

/-- The number that a numeral stands for. -/
def value (x : Decimal) : ℚ := x.coefficient * 10 ^ x.exponent

theorem value_eq_zero_iff : x.value = 0 ↔ x.coefficient = 0 := by
  have scale : (10 : ℚ) ^ x.exponent ≠ 0 := by positivity
  simp [value, scale]

theorem dropZeros_value (fuel : Nat) (x : Decimal) : (dropZeros fuel x).value = x.value := by
  induction fuel generalizing x with
  | zero => rfl
  | succ fuel ih =>
    unfold dropZeros
    split_ifs with zero
    · obtain ⟨c, rest⟩ := Nat.dvd_of_mod_eq_zero zero
      rw [ih]
      simp only [value, rest, Nat.mul_div_cancel_left c (by decide : 0 < 10),
        zpow_add_one₀ (by decide : (10 : ℚ) ≠ 0)]
      push_cast
      ring
    · rfl

/-- With fuel enough the last digit that is left is not zero. -/
theorem dropZeros_coefficient {fuel : Nat} (nonzero : x.coefficient ≠ 0) (enough : x.coefficient ≤ fuel) :
    (dropZeros fuel x).coefficient % 10 ≠ 0 := by
  induction fuel generalizing x with
  | zero => omega
  | succ fuel ih =>
    unfold dropZeros
    split_ifs with zero
    · exact ih (x := ⟨x.coefficient / 10, x.exponent + 1⟩) (by dsimp only; omega) (by dsimp only; omega)
    · exact zero

theorem trim_value (x : Decimal) : x.trim.value = x.value := dropZeros_value _ x

theorem coefficient_eq (same : x.value = y.value) (ordered : x.exponent ≤ y.exponent) :
    x.coefficient = y.coefficient * 10 ^ (y.exponent - x.exponent).toNat := by
  have scale : (10 : ℚ) ^ x.exponent ≠ 0 := by positivity
  have split : (10 : ℚ) ^ y.exponent = 10 ^ (y.exponent - x.exponent).toNat * 10 ^ x.exponent := by
    rw [← zpow_natCast, ← zpow_add₀ (by decide)]
    congr 1
    omega
  rw [← Nat.cast_inj (R := ℚ)]
  push_cast
  refine mul_right_cancel₀ scale ?_
  rw [mul_assoc, ← split]
  exact same

theorem exponent_le (same : x.value = y.value) (last : x.coefficient % 10 ≠ 0) : y.exponent ≤ x.exponent := by
  by_contra later
  rw [coefficient_eq same (by omega)] at last
  refine last (Nat.mod_eq_zero_of_dvd (Dvd.dvd.mul_left (dvd_pow_self 10 ?_) _))
  omega

/-- Of the numerals for a number only one does not end with a zero. -/
theorem eq_of_value_eq (same : x.value = y.value) (last : x.coefficient % 10 ≠ 0)
    (other : y.coefficient % 10 ≠ 0) : x = y := by
  have exponents : x.exponent = y.exponent :=
    le_antisymm (exponent_le same.symm other) (exponent_le same last)
  have coefficients := coefficient_eq same exponents.le
  rw [exponents] at coefficients
  cases x
  cases y
  simp_all

/-- Reading depends on the number only. -/
theorem magnitude_congr (same : x.value = y.value) : x.magnitude = y.magnitude := by
  by_cases zero : x.coefficient = 0
  · have other : y.coefficient = 0 := by rw [← value_eq_zero_iff, ← same, value_eq_zero_iff, zero]
    simp [magnitude, trim, dropZeros, zero, other]
  · have other : y.coefficient ≠ 0 := by rwa [Ne, ← value_eq_zero_iff, ← same, value_eq_zero_iff]
    have trimmed : x.trim = y.trim :=
      eq_of_value_eq (by rw [trim_value, trim_value, same]) (dropZeros_coefficient zero le_rfl)
        (dropZeros_coefficient other le_rfl)
    unfold magnitude
    rw [trimmed]

theorem trim_magnitude (x : Decimal) : x.trim.magnitude = x.magnitude := magnitude_congr x.trim_value

/-- The exponent of the leading digit is the decimal logarithm. -/
theorem leading_eq (nonzero : x.coefficient ≠ 0) : x.leading = Int.log 10 x.value := by
  have scale : (0 : ℚ) < 10 ^ x.exponent := by positivity
  have positive : 0 < x.value := mul_pos (by exact_mod_cast Nat.pos_of_ne_zero nonzero) scale
  have some_digit : 0 < (digits x.coefficient).length := Nat.length_toDigits_pos
  have high : x.coefficient < 10 ^ (digits x.coefficient).length :=
    (Nat.length_toDigits_le_iff (by decide) some_digit).1 le_rfl
  have low : 10 ^ ((digits x.coefficient).length - 1) ≤ x.coefficient := by
    by_cases one : (digits x.coefficient).length = 1
    · rw [one]
      exact Nat.pos_of_ne_zero nonzero
    · by_contra small
      have fewer := (Nat.length_toDigits_le_iff (b := 10) (by decide) (by omega)).2 (not_le.1 small)
      unfold digits at *
      omega
  unfold leading
  generalize (digits x.coefficient).length = length at *
  refine le_antisymm ?_ (Int.lt_add_one_iff.1 ?_)
  · refine (Int.zpow_le_iff_le_log (b := 10) (by decide) positive).1 ?_
    rw [Nat.cast_ofNat, zpow_add₀ (by decide), value]
    refine mul_le_mul_of_nonneg_right ?_ scale.le
    have whole : ((length : Int) - 1) = ((length - 1 : Nat) : Int) := by omega
    rw [whole, zpow_natCast]
    exact_mod_cast low
  · refine (Int.lt_zpow_iff_log_lt (b := 10) (by decide) positive).1 ?_
    have whole : (length : Int) - 1 + x.exponent + 1 = length + x.exponent := by omega
    rw [Nat.cast_ofNat, whole, zpow_add₀ (by decide), value, zpow_natCast]
    exact mul_lt_mul_of_pos_right (by exact_mod_cast high) scale

end Decimal

/-- The largest finite datum has 309 digits. -/
theorem two_pow_lt_ten_pow : 2 ^ 1024 < 10 ^ 311 := by decide +kernel

/-- The least positive datum has its first digit in the place 324 after the point. -/
theorem two_pow_le_ten_pow : 2 ^ 1074 ≤ 10 ^ 330 := by decide +kernel

theorem Double.log_ten_value {m : Nat} (nonzero : m ≠ 0) (finite : m < infinityBits) :
    -330 ≤ Int.log 10 (value m) ∧ Int.log 10 (value m) < 311 := by
  obtain ⟨-, -, least, most, -, -⟩ := significand_spec nonzero finite
  have positive := value_pos nonzero finite
  have tiny : ((10 : Nat) : ℚ) ^ (-330 : Int) ≤ 2 ^ (-1074 : Int) := by
    have powers : (2 : ℚ) ^ 1074 ≤ 10 ^ 330 := by exact_mod_cast two_pow_le_ten_pow
    simpa [zpow_neg] using inv_anti₀ (by positivity) powers
  have huge : (2 : ℚ) ^ (1024 : Int) < ((10 : Nat) : ℚ) ^ (311 : Int) := by exact_mod_cast two_pow_lt_ten_pow
  constructor
  · refine (Int.zpow_le_iff_le_log (by decide) positive).1 (tiny.trans ?_)
    exact (zpow_le_zpow_right₀ one_le_two least).trans (le_value nonzero finite)
  · refine (Int.lt_zpow_iff_log_lt (by decide) positive).1 (lt_trans ?_ huge)
    exact (value_lt nonzero finite).trans_le (zpow_le_zpow_right₀ one_le_two (by omega))

namespace Decimal
variable {x : Decimal} {m : Nat}

/-- A numeral that equals a finite magnitude is read as it. -/
theorem magnitude_of_value_eq (nonzero : m ≠ 0) (finite : m < Double.infinityBits)
    (same : x.value = Double.value m) : x.magnitude = m := by
  have trimmed : x.trim.value = Double.value m := by rw [trim_value, same]
  have some_digit : x.trim.coefficient ≠ 0 := by
    rw [Ne, ← value_eq_zero_iff, trimmed]
    exact (Double.value_pos nonzero finite).ne'
  obtain ⟨least, most⟩ := Double.log_ten_value nonzero finite
  rw [← trimmed, ← leading_eq some_digit] at least most
  unfold magnitude
  simp only
  rw [if_neg some_digit, if_neg (by omega), if_neg (by omega)]
  refine Double.roundRatio_of_eq_value nonzero finite (Nat.pow_pos (by decide)) ?_
  rw [← trimmed, value]
  simp only [Nat.pow_eq]
  push_cast
  rw [pow_toNat (by decide)]
  field_simp

end Decimal

namespace Double
variable {tie : Tie} {m : Nat} {e : Int} {x : Decimal}

theorem onGrid?_magnitude (found : onGrid? tie m e = some x) : x.magnitude = m := by
  unfold onGrid? at found
  simp only at found
  split at found
  · next lower upper =>
    cases found
    split_ifs
    · exact beq_iff_eq.1 upper
    · exact beq_iff_eq.1 lower
  · next lower _ =>
    cases found
    exact beq_iff_eq.1 lower
  · next _ upper =>
    cases found
    exact beq_iff_eq.1 upper
  · cases found

theorem exactDecimal_value (m : Nat) : (exactDecimal m).value = value m := by
  have split (k : Nat) : (10 : ℚ) ^ k = 5 ^ k * 2 ^ k := by
    rw [← mul_pow]
    norm_num
  unfold exactDecimal Decimal.value value
  simp only [Nat.shiftLeft_eq, Nat.pow_eq]
  generalize (significand m).1 = s
  generalize (significand m).2 = q
  push_cast
  rcases le_total 0 q with whole | part
  · obtain ⟨k, rfl⟩ := Int.eq_ofNat_of_zero_le whole
    simp
  · obtain ⟨k, rfl⟩ : ∃ k : Nat, q = -k := ⟨(-q).toNat, by omega⟩
    simp [split]
    field_simp

/-- The numeral that is written for a finite magnitude is read as it. -/
theorem shortest_magnitude (tie : Tie) (finite : m < infinityBits) : (shortest tie m).magnitude = m := by
  unfold shortest
  split_ifs with zero
  · rw [zero]
    rfl
  · simp only [Decimal.trim_magnitude]
    generalize found : List.findSome? _ _ = candidate
    cases candidate with
    | none => exact Decimal.magnitude_of_value_eq zero finite (exactDecimal_value m)
    | some x =>
      obtain ⟨n, -, tried⟩ := List.exists_of_findSome?_eq_some found
      exact onGrid?_magnitude tried

/-- Only zero is written with no other digit, and then without an exponent. -/
theorem shortest_exponent (tie : Tie) (finite : m < infinityBits) (zero : (shortest tie m).coefficient = 0) :
    (shortest tie m).exponent = 0 := by
  have read := shortest_magnitude tie finite
  have nothing : m = 0 := by
    rw [← read]
    simp [Decimal.magnitude, Decimal.trim, Decimal.dropZeros, zero]
  rw [nothing]
  rfl

end Double
end EntityGraph
