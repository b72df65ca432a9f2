import Bookkeeping.Binary64.Basic
import Bookkeeping.Power
import Bookkeeping.Text.Digits
/-!
The shortest decimal digits that read back as a given binary64 number, and the two ways they are
written out: with the point always in place, or with an exponent for very large and small numbers.
-/
namespace Bookkeeping.Binary64

structure DecimalDigits where
  digits : List Char
  exponent : Int
  deriving DecidableEq, Repr

/-- Which of two candidates is taken when both are equally near. -/
inductive Tie where
  | toEven
  | up
  deriving DecidableEq, Repr

/-- How many digits the whole part of a fraction has; for one below a tenth, minus the number of
zeros after the point. -/
def magnitude (n d : Nat) : Int :=
  if d ≤ n then (Text.digits (n / d)).length
  else
    match (List.range 400).find? fun k => d ≤ n * tenTo (k + 1) with
    | some k => -(k : Int)
    | none => -400

/-- The ends of the interval of numbers that round to `x`, in quarters of its last place, and
whether they belong to it. -/
def interval (x : Binary64) : Nat × Nat × Bool :=
  let m := x.significand
  let low := if m = twoTo 52 ∧ x.exponent ≠ -1074 then 4 * m - 1 else 4 * m - 2
  (low, 4 * m + 2, m % 2 == 0)

/-- A number of so many digits that reads back as `x`, the nearer of the two neighbours of `x`
that have them, if one does. -/
def nearestOf (tie : Tie) (x : Binary64) (count : Nat) : Option DecimalDigits :=
  let top := magnitude x.numerator x.denominator
  let place : Int := top - count
  let (low, high, closed) := x.interval
  -- all in units of a quarter of the last place of `x`, times `unit`
  let unit := tenTo (-place).toNat * twoTo (x.exponent - 2).toNat
  let step := tenTo place.toNat * twoTo (2 - x.exponent).toNat
  let value := 4 * x.significand * unit
  let inside (c : Nat) : Bool :=
    if closed then low * unit ≤ c * step && c * step ≤ high * unit
    else low * unit < c * step && c * step < high * unit
  let below := value / step
  let above := below + 1
  let choose (c : Nat) : DecimalDigits :=
    let ds := Text.digits c
    ⟨ds, place + ds.length⟩
  match inside below, inside above with
  | false, false => none
  | true, false => some (choose below)
  | false, true => some (choose above)
  | true, true =>
    let d := value - below * step
    let u := above * step - value
    some (choose (if d < u then below else if u < d then above else
      if tie = .toEven ∧ below % 2 = 0 then below else above))

def shortest (tie : Tie) (x : Binary64) : DecimalDigits :=
  if x.isZero then ⟨['0'], 1⟩
  else
    match (List.range 17).findSome? fun k => nearestOf tie x (k + 1) with
    | some r => { r with digits := (r.digits.reverse.dropWhile (· = '0')).reverse }
    | none => ⟨['0'], 1⟩

namespace DecimalDigits

def positional (r : DecimalDigits) : List Char :=
  if r.exponent ≤ 0 then '0' :: '.' :: List.replicate (-r.exponent).toNat '0' ++ r.digits
  else
    let whole := r.exponent.toNat
    if r.digits.length ≤ whole then r.digits ++ List.replicate (whole - r.digits.length) '0'
    else r.digits.take whole ++ '.' :: r.digits.drop whole

/-- All digits in place with at least one after the point, or, outside 10 ^ -5 to 10 ^ 16, one
digit before the point and an exponent with its sign. -/
def scientific (r : DecimalDigits) : List Char :=
  if -5 < r.exponent ∧ r.exponent ≤ 16 then
    if r.digits.length ≤ r.exponent.toNat then r.positional ++ ['.', '0'] else r.positional
  else
    r.digits.take 1 ++ (if r.digits.length = 1 then [] else '.' :: r.digits.drop 1) ++
      'e' :: (if r.exponent ≤ 0 then '-' else '+') :: Text.digits (r.exponent - 1).natAbs

end DecimalDigits

end Bookkeeping.Binary64
