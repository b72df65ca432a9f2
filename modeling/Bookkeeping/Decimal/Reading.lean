import Bookkeeping.Decimal.Basic
import Bookkeeping.Power
/-!
Decimals read from text: an optional sign, digits with at most one point, and an optional
exponent. Underscores may stand after the first digit. Digits after the point that no longer fit
are rounded off at the first of them, half up; those that follow it must be digits still, but
count no more. So it is with the digits that a negative exponent moves out of the last place.
-/
namespace Bookkeeping.Decimal

inductive ReadError where
  | empty
  | unknownCharacter
  | leadingSeparator
  | secondPoint
  | noDigits
  | tooManyDigits
  | roundedTooLarge
  | badExponent
  | scaleTooLarge (scale : Nat)
  | tooLarge
  deriving DecidableEq, Repr

def ReadError.message : ReadError → String
  | empty => "Invalid decimal: empty"
  | unknownCharacter => "Invalid decimal: unknown character"
  | leadingSeparator => "Invalid decimal: must start lead with a number"
  | secondPoint => "Invalid decimal: two decimal points"
  | noDigits => "Invalid decimal: no digits found"
  | tooManyDigits => "Invalid decimal: overflow from too many digits"
  | roundedTooLarge => "Invalid decimal: overflow from mantissa after rounding"
  | badExponent => "Failed to parse"
  | scaleTooLarge scale =>
    "Scale exceeds the maximum precision allowed: " ++ Text.natText scale ++ " > 28"
  | tooLarge => "Number exceeds maximum value that can be represented."

/-- What the digits read so far stand for. -/
structure Digits where
  coefficient : Nat
  scale : Nat
  point : Bool
  started : Bool
  coefficient_lt : coefficient < twoTo 96
  scale_le : scale ≤ 28

namespace Digits

def start : Digits := ⟨0, 0, false, false, zero.coefficient_lt, zero.scale_le⟩

/-- The number with the given sign; a zero is not negative. -/
def finish (negative : Bool) (n : Digits) : Decimal :=
  ⟨negative && n.coefficient != 0, n.coefficient, n.scale, n.coefficient_lt, n.scale_le⟩

/-- The number after a further digit that has no place: it rounds the last one half up, and a
coefficient that outgrows 96 bits by that gives up one place. -/
def roundedBy (n : Digits) (digit : Nat) : Except ReadError Digits :=
  let c := if digit < 5 then n.coefficient else n.coefficient + 1
  if hc : c < twoTo 96 then .ok { n with coefficient := c, coefficient_lt := hc }
  else if n.scale = 0 then .error .roundedTooLarge
  else .ok
    { n with
      coefficient := (twoTo 96 + 4) / 10, coefficient_lt := by decide
      scale := n.scale - 1, scale_le := Nat.le_trans (Nat.sub_le ..) n.scale_le }

inductive Pushed where
  | more (n : Digits)
  | last (n : Except ReadError Digits)

/-- Adds a digit. A whole number that outgrows 96 bits is not read any further. -/
def push (n : Digits) (digit : Nat) : Except ReadError Pushed :=
  let c := 10 * n.coefficient + digit
  if n.point then
    if h : c < twoTo 96 ∧ n.scale < 28 then
      .ok (.more { n with
        coefficient := c, coefficient_lt := h.1, scale := n.scale + 1, scale_le := h.2,
        started := true })
    else .ok (.last (n.roundedBy digit))
  else if h : c < twoTo 96 then
    .ok (.more { n with coefficient := c, coefficient_lt := h, started := true })
  else .error .tooManyDigits

def isFull (n : Digits) : Bool := n.point && n.scale == 28

/-- The coefficient without its last digit is so far from 2 ^ 64 that a further digit fits. -/
def isShort (n : Digits) : Bool := n.coefficient / 10 + 255 < (twoTo 64 - 1) / 10

def surplusError? : List Char → Option ReadError
  | [] => none
  | c :: rest =>
    if Text.isDigit c || c = '_' then surplusError? rest
    else some (if c = '.' then .secondPoint else .unknownCharacter)

def closed (n : Except ReadError Digits) (rest : List Char) : Except ReadError Digits :=
  match surplusError? rest with
  | some e => .error e
  | none => n

/-- Reads further digits. Underscores between them are passed over. A digit that has no place is
the last one that counts, and so is an underscore in its stead after a short coefficient. -/
def read (n : Digits) : List Char → Except ReadError Digits
  | [] => if n.started then .ok n else .error .noDigits
  | c :: rest =>
    if Text.isDigit c then
      match n.push (Text.digitValue c) with
      | .error e => .error e
      | .ok (.more n) => n.read rest
      | .ok (.last n) => closed n rest
    else if c = '.' then
      if n.point then .error .secondPoint else { n with point := true }.read rest
    else if c = '_' then
      if n.isFull && n.isShort then closed (.ok n) rest
      else if n.started then n.read rest
      else .error .leadingSeparator
    else .error .unknownCharacter

end Digits

def readPlain : List Char → Except ReadError Decimal
  | [] => .error .empty
  | '-' :: rest => (·.finish true) <$> Digits.start.read rest
  | '+' :: rest => (·.finish false) <$> Digits.start.read rest
  | cs => (·.finish false) <$> Digits.start.read cs

def readExponentSize (cs : List Char) : Except ReadError Nat :=
  let ds := if cs.head? = some '+' then cs.tail else cs
  if ds.isEmpty || !ds.all Text.isDigit then .error .badExponent
  else if Text.digitsValue ds < twoTo 32 then .ok (Text.digitsValue ds)
  else .error .badExponent

/-- A coefficient without its last `k + 1` digits, of which the first rounds it half up. -/
def withoutLast (c k : Nat) : Nat := (c / tenTo k + 5) / 10

theorem withoutLast_lt {c n : Nat} (k : Nat) (h : c < n) : withoutLast c k < n := by
  have := Nat.div_le_self c (tenTo k)
  unfold withoutLast
  omega

def shiftDown (d : Decimal) (n : Nat) : Except ReadError Decimal :=
  if 28 < n then .error (.scaleTooLarge n)
  else if h : d.scale + n ≤ 28 then .ok { d with scale := d.scale + n, scale_le := h }
  else .ok
    { d with
      coefficient := withoutLast d.coefficient (d.scale + n - 29)
      coefficient_lt := withoutLast_lt _ d.coefficient_lt
      scale := 28, scale_le := Nat.le_refl 28 }

/-- The number multiplied by a power of ten: the scale shrinks, and the coefficient grows once
the scale is used up. -/
def shiftUp (d : Decimal) (n : Nat) : Except ReadError Decimal :=
  if n ≤ d.scale then
    .ok { d with scale := d.scale - n, scale_le := Nat.le_trans (Nat.sub_le ..) d.scale_le }
  else if 28 < n then .error (.scaleTooLarge n)
  else if h : d.coefficient * tenTo (n - d.scale) < twoTo 96 then
    .ok ⟨d.negative, d.coefficient * tenTo (n - d.scale), 0, h, zero.scale_le⟩
  else .error .tooLarge

def isExponentMark (c : Char) : Bool := c = 'e' || c = 'E'

def ofChars (cs : List Char) : Except ReadError Decimal :=
  match cs.dropWhile (!isExponentMark ·) with
  | [] => readPlain cs
  | _ :: exponent => do
    let d ← readPlain (cs.takeWhile (!isExponentMark ·))
    match exponent with
    | '-' :: size => shiftDown d (← readExponentSize size)
    | size => shiftUp d (← readExponentSize size)

def ofText (s : String) : Except ReadError Decimal := ofChars s.toList

end Bookkeeping.Decimal
