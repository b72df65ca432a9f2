import Bookkeeping.Power
import Bookkeeping.Text.Blank
import Bookkeeping.Text.Utf8
import Bookkeeping.Time.Basic
/-!
Moments read from a relaxed form of RFC 3339: blanks may stand before every number and separator,
numbers may be shorter than usual, date and time are parted by `T` or one space, and universal
time is `Z`, `UTC` or an offset in hours and minutes.
-/
namespace Bookkeeping.Moment

inductive ReadError where
  | outOfRange
  | impossible
  | invalid
  | tooShort
  | tooLong
  deriving DecidableEq, Repr

def ReadError.message : ReadError → String
  | outOfRange => "input is out of range"
  | impossible => "no possible date and time matching input"
  | invalid => "input contains invalid characters"
  | tooShort => "premature end of input"
  | tooLong => "trailing input"

/-- What a reader makes of the start of a text, and the text after it. -/
abbrev Read (α : Type) := List Char → Except ReadError (α × List Char)

def number (most : Nat) : Read Nat := fun cs =>
  let ds := (cs.take most).takeWhile Text.isDigit
  match cs, ds with
  | [], _ => .error .tooShort
  | _, [] => .error .invalid
  | _, _ => .ok (Text.digitsValue ds, cs.drop ds.length)

def field (least greatest : Nat) : Read Nat := fun cs => do
  let (n, rest) ← number 2 (Text.trimStart cs)
  if least ≤ n ∧ n ≤ greatest then .ok (n, rest) else .error .outOfRange

/-- A year of at most four digits, or a signed one of any length that fits 32 bits. -/
def yearField : Read Int := fun cs => do
  let cs := Text.trimStart cs
  let (y, rest) ← match cs with
    | '-' :: cs => do
      let (n, rest) ← number cs.length cs
      pure (-(n : Int), rest)
    | '+' :: cs => do
      let (n, rest) ← number cs.length cs
      pure ((n : Int), rest)
    | cs => do
      let (n, rest) ← number 4 cs
      pure ((n : Int), rest)
  if -2147483648 ≤ y ∧ y ≤ 2147483647 then .ok (y, rest) else .error .outOfRange

def separator (c : Char) : Read Unit := fun cs =>
  match Text.trimStart cs with
  | [] => .error .tooShort
  | x :: rest => if x = c then .ok ((), rest) else .error .invalid

/-- The nanoseconds of an optional fraction; digits after the ninth are passed over. -/
def fraction : Read Nat := fun cs =>
  match cs with
  | '.' :: cs => do
    let ds := (cs.take 9).takeWhile Text.isDigit
    let (n, rest) ← number 9 cs
    .ok (n * tenTo (9 - ds.length), rest.dropWhile Text.isDigit)
  | _ => .ok (0, cs)

def twoDigits : Read (Nat × Nat) := fun cs =>
  match cs with
  | [] => .error .tooShort
  | [c] => .error (if Text.byteWidth c < 2 then .tooShort else .invalid)
  | a :: b :: rest =>
    if Text.isDigit a && Text.isDigit b then .ok ((Text.digitValue a, Text.digitValue b), rest)
    else .error .invalid

def offset : Read Int := fun cs =>
  if (cs.take 3).map Char.toUpper = "UTC".toList then .ok (0, cs.drop 3)
  else
    match cs with
    | [] => .error .tooShort
    | sign :: rest =>
      if sign = 'Z' || sign = 'z' then .ok (0, rest)
      else if sign = '+' || sign = '-' || sign = '−' then do
        let ((h, h'), rest) ← twoDigits rest
        let rest := rest.dropWhile fun c => c = ':' || Text.isBlank c
        let ((m, m'), rest) ← twoDigits rest
        if 5 < m then .error .outOfRange
        else
          let minutes : Int := 60 * (10 * h + h') + (10 * m + m')
          .ok (if sign = '+' then minutes else -minutes, rest)
      else .error .invalid

/-- The moment that a text spells. A minute may have a second 60. -/
def ofChars (cs : List Char) : Except ReadError Moment := do
  let (year, cs) ← yearField cs
  let ((), cs) ← separator '-' cs
  let (month, cs) ← field 1 12 cs
  let ((), cs) ← separator '-' cs
  let (day, cs) ← field 1 31 cs
  let cs ← match cs with
    | [] => .error ReadError.tooShort
    | c :: rest => if c = 'T' || c = 't' || c = ' ' then .ok rest else .error .invalid
  let (hour, cs) ← field 0 23 cs
  let ((), cs) ← separator ':' cs
  let (minute, cs) ← field 0 59 cs
  let ((), cs) ← separator ':' cs
  let (second, cs) ← field 0 60 cs
  let (nano, cs) ← fraction cs
  let (minutes, cs) ← offset (Text.trimStart cs)
  if Text.trimStart cs ≠ [] then .error .tooLong
  else
    match Date.ofParts? year month day with
    | none => .error .outOfRange
    | some date =>
      if 1440 ≤ minutes.natAbs then .error .outOfRange
      else
        let s := 3600 * hour + 60 * minute + min second 59
        let n := nano + if second = 60 then 1000000000 else 0
        if h : s < 86400 ∧ n < if s % 60 = 59 then 2000000000 else 1000000000 then
          match shifted ⟨date, s, n, h.1, h.2⟩ (-minutes) with
          | some m => .ok m
          | none => .error .impossible
        else .error .outOfRange

end Bookkeeping.Moment
