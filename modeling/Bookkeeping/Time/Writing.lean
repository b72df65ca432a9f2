import Bookkeeping.Time.Basic
/-!
Moments written as RFC 3339 times: no fraction, or one of 3, 6 or 9 digits, whichever is the
shortest exact one. A year outside 0 to 9999 has a sign and at least four digits.
-/
namespace Bookkeeping

open Text (digits fixedDigits)

namespace Date

def yearChars (year : Int) : List Char :=
  if 0 ≤ year ∧ year ≤ 9999 then fixedDigits 4 year.toNat
  else
    (if year < 0 then '-' else '+') ::
      if year.natAbs < 10000 then fixedDigits 4 year.natAbs else digits year.natAbs

def chars (d : Date) : List Char :=
  yearChars d.year ++ '-' :: fixedDigits 2 d.month ++ '-' :: fixedDigits 2 d.day

end Date

namespace Moment

def fractionChars (nano : Nat) : List Char :=
  if nano = 0 then []
  else if nano % 1000000 = 0 then '.' :: fixedDigits 3 (nano / 1000000)
  else if nano % 1000 = 0 then '.' :: fixedDigits 6 (nano / 1000)
  else '.' :: fixedDigits 9 nano

/-- The seconds within the minute, 60 in a leap second. -/
def secondOfMinute (m : Moment) : Nat := m.second % 60 + m.nano / 1000000000

def timeChars (m : Moment) : List Char :=
  fixedDigits 2 (m.second / 3600) ++ ':' :: fixedDigits 2 (m.second / 60 % 60) ++
    ':' :: fixedDigits 2 m.secondOfMinute ++ fractionChars (m.nano % 1000000000)

def chars (m : Moment) : List Char := m.date.chars ++ 'T' :: m.timeChars ++ ['Z']

def text (m : Moment) : String := String.ofList m.chars

def offsetText (m : Moment) : String :=
  String.ofList (m.date.chars ++ 'T' :: m.timeChars ++ "+00:00".toList)

end Moment

end Bookkeeping
