import Bookkeeping.Power
import Bookkeeping.Text.Digits
/-!
Decimal numbers with a 96-bit coefficient, a scale of at most 28 places and a sign of their own,
so that 1.5 and 1.50 are two numbers of one value and a negative zero exists.
-/
namespace Bookkeeping

/-- The number `coefficient / 10 ^ scale`, negated if `negative`. -/
structure Decimal where
  negative : Bool
  coefficient : Nat
  scale : Nat
  coefficient_lt : coefficient < twoTo 96
  scale_le : scale ≤ 28
  deriving DecidableEq, Repr

namespace Decimal

def zero : Decimal := ⟨false, 0, 0, by decide, by decide⟩

instance : Inhabited Decimal := ⟨zero⟩

def ofWord (negative : Bool) (n : UInt64) : Decimal :=
  ⟨negative, n.toNat, 0, Nat.lt_trans n.toNat_lt (by decide), by decide⟩

def isZero (d : Decimal) : Bool := d.coefficient == 0

def isPositive (d : Decimal) : Bool := !d.negative && !d.isZero

def signed (d : Decimal) : Int := if d.negative then -(d.coefficient : Int) else d.coefficient

/-- The same digits with the other sign, for zero too. -/
def negate (d : Decimal) : Decimal := { d with negative := !d.negative }

@[simp] theorem signed_negate (d : Decimal) : d.negate.signed = -d.signed := by
  cases h : d.negative <;> simp [negate, signed, h]

theorem signed_eq_zero {d : Decimal} : d.signed = 0 ↔ d.isZero = true := by
  cases h : d.negative <;> simp [signed, isZero, h]

def chars (d : Decimal) : List Char :=
  (if d.negative then ['-'] else []) ++ Text.digits (d.coefficient / tenTo d.scale) ++
    (if d.scale = 0 then [] else '.' :: Text.fixedDigits d.scale (d.coefficient % tenTo d.scale))

def text (d : Decimal) : String := String.ofList d.chars

end Decimal

end Bookkeeping
