import Bookkeeping.Text.Digits
/-!
Moments of universal time to the nanosecond, kept as a date of the proleptic Gregorian calendar
and a time of day in which a minute may have a leap second.
-/
namespace Bookkeeping

namespace Calendar

def isLeapYear (year : Int) : Bool := year % 4 = 0 && (year % 100 != 0 || year % 400 = 0)

def daysInMonth (year : Int) (month : Nat) : Nat :=
  match month with
  | 2 => if isLeapYear year then 29 else 28
  | 4 | 6 | 9 | 11 => 30
  | _ => 31

def minYear : Int := -262143

def maxYear : Int := 262142

end Calendar

/-- A day between the first of the least year and the last of the greatest. -/
structure Date where
  year : Int
  month : Nat
  day : Nat
  year_range : Calendar.minYear ≤ year ∧ year ≤ Calendar.maxYear
  month_range : 1 ≤ month ∧ month ≤ 12
  day_range : 1 ≤ day ∧ day ≤ Calendar.daysInMonth year month
  deriving DecidableEq, Repr

namespace Date

def ofParts? (year : Int) (month day : Nat) : Option Date :=
  if h : (Calendar.minYear ≤ year ∧ year ≤ Calendar.maxYear) ∧ (1 ≤ month ∧ month ≤ 12) ∧
      1 ≤ day ∧ day ≤ Calendar.daysInMonth year month then
    some ⟨year, month, day, h.1, h.2.1, h.2.2⟩
  else none

def next (d : Date) : Option Date :=
  if d.day < Calendar.daysInMonth d.year d.month then ofParts? d.year d.month (d.day + 1)
  else if d.month < 12 then ofParts? d.year (d.month + 1) 1
  else ofParts? (d.year + 1) 1 1

def previous (d : Date) : Option Date :=
  if 1 < d.day then ofParts? d.year d.month (d.day - 1)
  else if 1 < d.month then
    ofParts? d.year (d.month - 1) (Calendar.daysInMonth d.year (d.month - 1))
  else ofParts? (d.year - 1) 12 31

theorem ofParts?_self (d : Date) : ofParts? d.year d.month d.day = some d := by
  simp [ofParts?, d.year_range, d.month_range, d.day_range]

end Date

/-- A second of a day and the nanoseconds since it began; in a leap second they go on from the
last second of its minute, from 10 ^ 9 to less than twice that. -/
structure Moment where
  date : Date
  second : Nat
  nano : Nat
  second_lt : second < 86400
  nano_lt : nano < if second % 60 = 59 then 2000000000 else 1000000000
  deriving DecidableEq, Repr

namespace Moment

def epoch : Moment :=
  ⟨⟨1970, 1, 1, by decide, by decide, by decide⟩, 0, 0, by decide, by decide⟩

/-- The moment as a clock at the given offset east of universal time, in minutes, shows it; the
other way round, what such a clock shows as a moment, with the offset negated. -/
def shifted (m : Moment) (minutes : Int) : Option Moment :=
  let s : Int := m.second + 60 * minutes
  let date := if s < 0 then m.date.previous else if 86400 ≤ s then m.date.next else some m.date
  let second := (s % 86400).toNat
  date.bind fun d =>
    if h : second < 86400 ∧ m.nano < if second % 60 = 59 then 2000000000 else 1000000000 then
      some ⟨d, second, m.nano, h.1, h.2⟩
    else none

def ofUnix? (seconds nano : Nat) : Option Moment :=
  let days := seconds / 86400 + 719468
  let era := days / 146097
  let dayOfEra := days % 146097
  let yearOfEra := (dayOfEra - dayOfEra / 1460 + dayOfEra / 36524 - dayOfEra / 146096) / 365
  let dayOfYear := dayOfEra - (365 * yearOfEra + yearOfEra / 4 - yearOfEra / 100)
  let shiftedMonth := (5 * dayOfYear + 2) / 153
  let day := dayOfYear - (153 * shiftedMonth + 2) / 5 + 1
  let month := if shiftedMonth < 10 then shiftedMonth + 3 else shiftedMonth - 9
  let year := yearOfEra + 400 * era + if month ≤ 2 then 1 else 0
  (Date.ofParts? year month day).bind fun d =>
    if h : seconds % 86400 < 86400 ∧
        nano < if seconds % 86400 % 60 = 59 then 2000000000 else 1000000000 then
      some ⟨d, seconds % 86400, nano, h.1, h.2⟩
    else none

end Moment

end Bookkeeping
