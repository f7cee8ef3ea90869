import EntityGraph.Calendar
import EntityGraph.Digits

/-! # Timestamps

A moment in UTC with millisecond precision. A leap second belongs to the last second of its minute and
counts its milliseconds on from 1000, so it differs from the second that follows it although both have
the same distance from the epoch. -/
namespace EntityGraph

structure Timestamp where
  /-- Seconds since 1970-01-01T00:00:00Z. -/
  second : Int
  milli : Nat
  milli_lt : milli < 2000
  leap_last : 1000 ≤ milli → second % 60 = 59
  deriving DecidableEq, Repr

namespace Timestamp

def epochMillis (t : Timestamp) : Int := t.second * 1000 + t.milli

/-- A moment given by its distance from the epoch, within the years that calendar arithmetic covers. -/
def ofEpochMillis? (millis : Int) : Option Timestamp :=
  if -8334601228800000 ≤ millis ∧ millis ≤ 8210266876799999 then
    some ⟨millis / 1000, (millis % 1000).toNat, by omega, by omega⟩
  else none

/-- Four digits for the years 0 to 9999; other years have a sign. -/
def yearText (year : Int) : List Char :=
  if 0 ≤ year ∧ year ≤ 9999 then padded 10 4 year.toNat
  else (if year < 0 then '-' else '+') :: padded 10 4 year.natAbs

def dateText (date : Date) : List Char :=
  yearText date.year ++ '-' :: padded 10 2 date.month ++ '-' :: padded 10 2 date.day

/-- The time of day, a leap second as second 60. -/
def clockText (second milli : Nat) : List Char :=
  padded 10 2 (second / 3600) ++ ':' :: padded 10 2 (second / 60 % 60) ++
    ':' :: padded 10 2 (second % 60 + milli / 1000) ++ '.' :: padded 10 3 (milli % 1000)

def text (t : Timestamp) : List Char :=
  dateText (Date.ofDays (t.second / 86400)) ++ 'T' :: clockText (t.second % 86400).toNat t.milli ++ ['Z']

/-- Exactly `count` digits. -/
def readDigits (count : Nat) : Reader Nat := fun cs =>
  let ds := cs.take count
  if ds.length = count ∧ ds.all Char.isDigit then some (Nat.ofDigitChars 10 ds 0, cs.drop count)
  else none

def readChar (accepted : List Char) : Reader Unit
  | c :: cs => if accepted.contains c then some ((), cs) else none
  | [] => none

def readDate : Reader Date := fun cs => do
  let (year, cs) ← readDigits 4 cs
  let ((), cs) ← readChar ['-'] cs
  let (month, cs) ← readDigits 2 cs
  let ((), cs) ← readChar ['-'] cs
  let (day, cs) ← readDigits 2 cs
  let date : Date := ⟨year, month, day⟩
  if date.isValid then some (date, cs) else none

/-- An optional fraction of a second in whole milliseconds; digits after the third are dropped. -/
def readFraction : Reader Nat
  | '.' :: cs =>
    let ds := cs.takeWhile Char.isDigit
    if ds.isEmpty then none
    else some (Nat.ofDigitChars 10 ((ds ++ ['0', '0']).take 3) 0, cs.dropWhile Char.isDigit)
  | cs => some (0, cs)

/-- A second of the day and its milliseconds. Second 60 is a leap second at any minute. -/
def readClock : Reader (Nat × Nat) := fun cs => do
  let (hour, cs) ← readDigits 2 cs
  let ((), cs) ← readChar [':'] cs
  let (minute, cs) ← readDigits 2 cs
  let ((), cs) ← readChar [':'] cs
  let (second, cs) ← readDigits 2 cs
  let (milli, cs) ← readFraction cs
  if hour ≤ 23 ∧ minute ≤ 59 then
    if second ≤ 59 then some ((hour * 3600 + minute * 60 + second, milli), cs)
    else if second = 60 then some ((hour * 3600 + minute * 60 + 59, 1000 + milli), cs)
    else none
  else none

/-- The offset from UTC in minutes. The minus sign may be a hyphen or U+2212. -/
def readOffset : Reader Int
  | [] => none
  | c :: cs =>
    if c = 'Z' ∨ c = 'z' then some (0, cs)
    else if c = '+' ∨ c = '-' ∨ c = '\u2212' then do
      let (hours, cs) ← readDigits 2 cs
      let ((), cs) ← readChar [':'] cs
      let (minutes, cs) ← readDigits 2 cs
      let offset : Int := hours * 60 + minutes
      if hours ≤ 23 ∧ minutes ≤ 59 then some (if c = '+' then offset else -offset, cs) else none
    else none

/-- The moment with these seconds and milliseconds, if they can be a moment. -/
def ofParts? (second : Int) (milli : Nat) : Option Timestamp :=
  if h : milli < 2000 ∧ (1000 ≤ milli → second % 60 = 59) then some ⟨second, milli, h.1, h.2⟩
  else none

/-- Reads an RFC 3339 date and time. -/
def read? (cs : List Char) : Option Timestamp := do
  let (date, cs) ← readDate cs
  let ((), cs) ← readChar ['T', 't', ' '] cs
  let ((second, milli), cs) ← readClock cs
  let (offset, cs) ← readOffset cs
  if cs.isEmpty then ofParts? (date.toDays * 86400 + second - offset * 60) milli else none

end Timestamp
end EntityGraph
