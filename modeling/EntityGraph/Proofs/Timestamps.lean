import EntityGraph.Timestamp
import Mathlib.Tactic.Common
import Mathlib.Tactic.IntervalCases

/-! # Moments and their written form

The calendar counts every day once, so a moment has one date and one time of day. A reader gets the
moment back from what is written of it while its year has four digits; a year with a sign is not read. -/
namespace EntityGraph

namespace Date

/-- The year of an era to which a day of the era belongs. -/
def yearOfEra (day : Int) : Int := (day - day / 1460 + day / 36524 - day / 146096) / 365

/-- A year of an era that starts in March, counted in centuries, spans of four years, and years. Its
leap day is day 365: only the last year of a span has one, and the last span of a century lacks it
unless the century ends the era. -/
structure InYear (century span year dayOfYear : Int) : Prop where
  centuries : 0 ≤ century ∧ century ≤ 3
  spans : 0 ≤ span ∧ span ≤ 24
  years : 0 ≤ year ∧ year ≤ 3
  days : 0 ≤ dayOfYear ∧ dayOfYear ≤ 365
  leapDay : dayOfYear = 365 → year = 3 ∧ (span = 24 → century = 3)

theorem yearOfEra_eq {day : Int} (lower : 0 ≤ day) (upper : day < daysPerEra) :
    ∃ century span year, yearOfEra day = 100 * century + 4 * span + year ∧
      InYear century span year (day - (36524 * century + 1461 * span + 365 * year)) := by
  unfold daysPerEra at upper
  unfold yearOfEra
  by_cases last : day = 146096
  · subst last
    exact ⟨3, 24, 3, by decide, by constructor <;> decide⟩
  · obtain ⟨century, hc⟩ : ∃ century, century = day / 36524 := ⟨_, rfl⟩
    obtain ⟨span, hs⟩ : ∃ span, span = day % 36524 / 1461 := ⟨_, rfl⟩
    obtain ⟨rest, hr⟩ : ∃ rest, rest = day % 36524 % 1461 := ⟨_, rfl⟩
    have split : day = 36524 * century + 1461 * span + rest := by omega
    have bounds : 0 ≤ century ∧ century ≤ 3 ∧ 0 ≤ span ∧ span ≤ 24 ∧ 0 ≤ rest ∧ rest ≤ 1460 := by omega
    -- the quotient by 1460 runs ahead of the spans, but only in the last year of a span
    have carry : day / 1460 = 25 * century + span ∨
        day / 1460 = 25 * century + span + 1 ∧ 1364 ≤ rest := by omega
    have whole : day / 146096 = 0 := by omega
    -- the leap day is the day of a span that its quotient by 365 puts in no year
    obtain ⟨year, hy⟩ : ∃ year, year = if rest = 1460 then 3 else rest / 365 := ⟨_, rfl⟩
    refine ⟨century, span, year, ?_, by omega, by omega, by omega, by omega, by omega⟩
    rw [whole, ← hc]
    omega

/-- The month, counted from March, in which a day of a year lies. -/
def marchMonth (dayOfYear : Int) : Int := (5 * dayOfYear + 2) / 153

theorem marchMonth_spec {day : Int} (lower : 0 ≤ day) (upper : day ≤ 365) :
    0 ≤ marchMonth day ∧ marchMonth day ≤ 11 ∧ daysBeforeMonth (marchMonth day) ≤ day ∧
      day < daysBeforeMonth (marchMonth day + 1) := by
  unfold marchMonth daysBeforeMonth
  omega

/-- Day and month of a year that starts in March make a date of the calendar year in which they lie. -/
def ofMarch (year dayOfYear : Int) : Date :=
  let month := if marchMonth dayOfYear < 10 then marchMonth dayOfYear + 3 else marchMonth dayOfYear - 9
  { year := if month ≤ 2 then year + 1 else year
    month := month.toNat
    day := (dayOfYear - daysBeforeMonth (marchMonth dayOfYear) + 1).toNat }

theorem ofDays_eq (days : Int) :
    let shifted := days + epochOffset
    let day := shifted % daysPerEra
    ofDays days =
      ofMarch (shifted / daysPerEra * 400 + yearOfEra day) (day - daysBeforeYear (yearOfEra day)) := rfl

theorem isLeapYear_iff {year : Int} :
    isLeapYear year = true ↔ year % 4 = 0 ∧ (year % 100 ≠ 0 ∨ year % 400 = 0) := by
  simp [isLeapYear]

theorem ofMarch_isValid {year day : Int} (lower : 0 ≤ day) (upper : day ≤ 365)
    (leap : day = 365 → isLeapYear (year + 1) = true) : (ofMarch year day).isValid = true := by
  obtain ⟨low, high, starts, ends⟩ := marchMonth_spec lower upper
  unfold ofMarch
  generalize marchMonth day = month at *
  unfold daysBeforeMonth at *
  have short : isLeapYear (year + 1) = false → day ≤ 364 := by
    intro common
    by_contra last
    rw [leap (by omega)] at common
    cases common
  unfold isValid daysInMonth
  cases hl : isLeapYear (year + 1) <;> interval_cases month <;> simp [hl] at short ⊢ <;> omega

theorem toDays_ofMarch {year day : Int} (lower : 0 ≤ day) (upper : day ≤ 365) :
    (ofMarch year day).toDays =
      year / 400 * daysPerEra + daysBeforeYear (year % 400) + day - epochOffset := by
  obtain ⟨low, high, starts, ends⟩ := marchMonth_spec lower upper
  unfold ofMarch toDays
  generalize marchMonth day = month at *
  by_cases early : month < 10
  · have later : ¬(month + 3).toNat ≤ 2 := by omega
    have later' : ¬month + 3 ≤ 2 := by omega
    have back : ((month + 3).toNat : Int) - 3 = month := by omega
    simp only [early, if_true, later, later', if_false, back]
    omega
  · have later : (month - 9).toNat ≤ 2 := by omega
    have later' : month - 9 ≤ 2 := by omega
    have back : ((month - 9).toNat : Int) + 9 = month := by omega
    simp only [early, if_true, later, later', if_false, back, Int.add_sub_cancel]
    omega

/-- A day of an era by its year and its day of that year. -/
theorem dayOfEra_spec {day : Int} (lower : 0 ≤ day) (upper : day < daysPerEra) :
    (0 ≤ yearOfEra day ∧ yearOfEra day < 400) ∧
      (0 ≤ day - daysBeforeYear (yearOfEra day) ∧ day - daysBeforeYear (yearOfEra day) ≤ 365) ∧
      (day - daysBeforeYear (yearOfEra day) = 365 →
        (yearOfEra day + 1) % 4 = 0 ∧ ((yearOfEra day + 1) % 100 ≠ 0 ∨ (yearOfEra day + 1) % 400 = 0)) := by
  obtain ⟨century, span, year, split, inYear⟩ := yearOfEra_eq lower upper
  obtain ⟨centuries, spans, years, days, leapDay⟩ := inYear
  have before : daysBeforeYear (yearOfEra day) = 36524 * century + 1461 * span + 365 * year := by
    unfold daysBeforeYear
    omega
  rw [before, split]
  exact ⟨by omega, days, by omega⟩

/-- The era of a day, the year of that era and the day of that year. -/
theorem ofDays_eq_ofMarch (days : Int) :
    ∃ era year day, ofDays days = ofMarch (era * 400 + year) day ∧
      days = era * daysPerEra + daysBeforeYear year + day - epochOffset ∧ (0 ≤ year ∧ year < 400) ∧
      (0 ≤ day ∧ day ≤ 365) ∧ (day = 365 → isLeapYear (era * 400 + year + 1) = true) := by
  have parts := Int.mul_ediv_add_emod (days + epochOffset) daysPerEra
  have lower := Int.emod_nonneg (days + epochOffset) (b := daysPerEra) (by decide)
  have upper := Int.emod_lt_of_pos (days + epochOffset) (b := daysPerEra) (by decide)
  obtain ⟨years, days', leap⟩ := dayOfEra_spec lower upper
  refine ⟨_, _, _, ofDays_eq days, ?_, years, days', fun last => ?_⟩
  · rw [Int.mul_comm] at parts
    omega
  · have leap := leap last
    rw [isLeapYear_iff]
    generalize yearOfEra ((days + epochOffset) % daysPerEra) = year at leap ⊢
    omega

/-- Every day has a date in the calendar. -/
theorem ofDays_isValid (days : Int) : (ofDays days).isValid = true := by
  obtain ⟨era, year, day, date, -, -, ⟨lower, upper⟩, leap⟩ := ofDays_eq_ofMarch days
  rw [date]
  exact ofMarch_isValid lower upper leap

/-- The date of a day is that day. -/
theorem toDays_ofDays (days : Int) : (ofDays days).toDays = days := by
  obtain ⟨era, year, day, date, split, years, ⟨lower, upper⟩, -⟩ := ofDays_eq_ofMarch days
  have ofEra : (era * 400 + year) / 400 = era ∧ (era * 400 + year) % 400 = year := by omega
  rw [date, toDays_ofMarch lower upper, ofEra.1, ofEra.2, split]

theorem isValid_iff {date : Date} : date.isValid = true ↔ (1 ≤ date.month ∧ date.month ≤ 12) ∧
    1 ≤ date.day ∧ date.day ≤ daysInMonth date.year date.month := by
  simp [isValid, and_assoc]

theorem day_le_of_isValid {date : Date} (valid : date.isValid = true) : date.month ≤ 12 ∧ date.day ≤ 31 := by
  obtain ⟨⟨-, months⟩, -, days⟩ := isValid_iff.1 valid
  unfold daysInMonth at days
  split_ifs at days <;> omega

end Date

section Digits
variable {width n : Nat}

theorem length_padded (positive : 0 < width) (fits : n < 10 ^ width) : (padded 10 width n).length = width := by
  have digits := (Nat.length_toDigits_le_iff (by decide) positive).2 fits
  simp only [padded, List.length_append, List.length_replicate]
  omega

theorem isDigit_of_mem_padded {c : Char} (member : c ∈ padded 10 width n) : c.isDigit = true := by
  rcases List.mem_append.1 member with zero | digit
  · rw [List.eq_of_mem_replicate zero]
    decide
  · exact Nat.isDigit_of_mem_toDigits (by decide) (by decide) digit

@[simp]
theorem ofDigitChars_padded : Nat.ofDigitChars 10 (padded 10 width n) 0 = n := by
  simp [padded, Nat.ofDigitChars_append, Nat.ofDigitChars_replicate_zero]

end Digits

namespace Timestamp
variable {rest : List Char}

theorem readDigits_padded {width n : Nat} (positive : 0 < width) (fits : n < 10 ^ width) :
    readDigits width (padded 10 width n ++ rest) = some (n, rest) := by
  have exactly := length_padded positive fits
  have digits : (padded 10 width n).all Char.isDigit = true :=
    List.all_eq_true.2 fun _ member => isDigit_of_mem_padded member
  simp only [readDigits, List.take_left' exactly, List.drop_left' exactly]
  simp [exactly, digits]

theorem readChar_cons {accepted : List Char} {c : Char} (listed : accepted.contains c = true) :
    readChar accepted (c :: rest) = some ((), rest) := by
  rw [readChar, if_pos listed]

/-- A date with a year of four digits is read back. -/
theorem readDate_dateText {date : Date} (valid : date.isValid = true) (lower : 0 ≤ date.year)
    (upper : date.year ≤ 9999) : readDate (dateText date ++ rest) = some (date, rest) := by
  obtain ⟨months, days⟩ := Date.day_le_of_isValid valid
  have unsigned : ((date.year.toNat : Nat) : Int) = date.year := by omega
  have year := fun rest => @readDigits_padded rest 4 date.year.toNat (by decide) (by omega)
  have month := fun rest => @readDigits_padded rest 2 date.month (by decide) (by omega)
  have day := fun rest => @readDigits_padded rest 2 date.day (by decide) (by omega)
  have dash := fun rest => @readChar_cons rest ['-'] '-' (by decide)
  simp [readDate, dateText, yearText, lower, upper, year, dash, month, day, unsigned, valid]

theorem readFraction_padded {milli : Nat} (fits : milli < 1000) :
    readFraction ('.' :: padded 10 3 milli ++ 'Z' :: rest) = some (milli, 'Z' :: rest) := by
  have exactly := length_padded (by decide : 0 < 3) fits
  have digits : ∀ c ∈ padded 10 3 milli, c.isDigit = true := fun _ member => isDigit_of_mem_padded member
  have taken : (padded 10 3 milli ++ 'Z' :: rest).takeWhile Char.isDigit = padded 10 3 milli := by
    rw [List.takeWhile_append_of_pos digits]
    simp
  have dropped : (padded 10 3 milli ++ 'Z' :: rest).dropWhile Char.isDigit = 'Z' :: rest := by
    rw [List.dropWhile_append_of_pos digits]
    simp
  have written : ¬(padded 10 3 milli).isEmpty = true := by
    rw [List.isEmpty_iff, ← List.length_eq_zero_iff, exactly]
    decide
  simp only [readFraction, List.cons_append, taken, dropped, if_neg written, List.take_left' exactly,
    ofDigitChars_padded]

/-- A time of day is read back, a leap second too. -/
theorem readClock_clockText {second milli : Nat} (day : second < 86400) (bound : milli < 2000)
    (leap : 1000 ≤ milli → second % 60 = 59) :
    readClock (clockText second milli ++ 'Z' :: rest) = some ((second, milli), 'Z' :: rest) := by
  have hours := fun rest => @readDigits_padded rest 2 (second / 3600) (by decide) (by omega)
  have minutes := fun rest => @readDigits_padded rest 2 (second / 60 % 60) (by decide) (by omega)
  have seconds := fun rest => @readDigits_padded rest 2 (second % 60 + milli / 1000) (by decide) (by omega)
  have fraction := @readFraction_padded rest (milli % 1000) (by omega)
  have colon := fun rest => @readChar_cons rest [':'] ':' (by decide)
  rw [List.cons_append] at fraction
  simp only [readClock, clockText, List.append_assoc, List.cons_append, hours, colon, minutes, seconds, fraction,
    Option.bind_eq_bind, Option.bind_some]
  rw [if_pos (by omega)]
  by_cases leaps : 1000 ≤ milli
  · have last := leap leaps
    rw [if_neg (by omega), if_pos (by omega)]
    simp only [Option.some.injEq, Prod.mk.injEq, and_true]
    omega
  · rw [if_pos (by omega)]
    simp only [Option.some.injEq, Prod.mk.injEq, and_true]
    omega

/-- The year of a moment in UTC. -/
def year (t : Timestamp) : Int := (Date.ofDays (t.second / 86400)).year

/-- RFC 3339 writes years with four digits. -/
def Exchangeable (t : Timestamp) : Prop := 0 ≤ t.year ∧ t.year ≤ 9999

instance (t : Timestamp) : Decidable t.Exchangeable := inferInstanceAs (Decidable (_ ∧ _))

theorem ofParts?_self (t : Timestamp) : ofParts? t.second t.milli = some t :=
  dif_pos ⟨t.milli_lt, t.leap_last⟩

theorem read?_text_of_exchangeable {t : Timestamp} (exchangeable : t.Exchangeable) : read? t.text = some t := by
  have positive : 0 ≤ t.second % 86400 ∧ t.second % 86400 < 86400 := by omega
  have leap : 1000 ≤ t.milli → (t.second % 86400).toNat % 60 = 59 := by
    have last := t.leap_last
    omega
  have date := fun rest =>
    @readDate_dateText rest _ (Date.ofDays_isValid (t.second / 86400)) exchangeable.1 exchangeable.2
  have clock := @readClock_clockText [] (t.second % 86400).toNat t.milli (by omega) t.milli_lt leap
  have letter := fun rest => @readChar_cons rest ['T', 't', ' '] 'T' (by decide)
  have offset : readOffset ['Z'] = some (0, []) := rfl
  have moment : t.second / 86400 * 86400 + ((t.second % 86400).toNat : Int) - 0 * 60 = t.second := by omega
  simp only [read?, text, List.append_assoc, List.cons_append, date, letter, clock, offset, Option.bind_eq_bind,
    Option.bind_some, List.isEmpty_nil, if_true, Date.toDays_ofDays, moment, ofParts?_self]

theorem readDigits_of_not_isDigit {count : Nat} {c : Char} (other : c.isDigit = false) :
    readDigits (count + 1) (c :: rest) = none := by
  simp [readDigits, other]

/-- A year that is written with a sign is not read. -/
theorem read?_text_of_not_exchangeable {t : Timestamp} (unexchangeable : ¬t.Exchangeable) :
    read? t.text = none := by
  obtain ⟨sign, digits, notDigit, signed⟩ : ∃ sign digits, sign.isDigit = false ∧
      yearText t.year = sign :: digits := by
    have outside : ¬(0 ≤ t.year ∧ t.year ≤ 9999) := unexchangeable
    rw [yearText, if_neg outside]
    split_ifs
    · exact ⟨'-', _, rfl, rfl⟩
    · exact ⟨'+', _, rfl, rfl⟩
  unfold year at signed
  simp [read?, text, readDate, dateText, signed, readDigits_of_not_isDigit notDigit]

/-- A moment is read back from its written form if and only if its year has four digits. -/
theorem read?_text_iff {t : Timestamp} : read? t.text = some t ↔ t.Exchangeable := by
  refine ⟨fun back => ?_, read?_text_of_exchangeable⟩
  by_contra unexchangeable
  rw [read?_text_of_not_exchangeable unexchangeable] at back
  cases back

end Timestamp
end EntityGraph
