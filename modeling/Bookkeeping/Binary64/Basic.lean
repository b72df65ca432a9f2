import Bookkeeping.Power
import Bookkeeping.Rounding
/-!
The finite numbers of the binary64 format that are not negative, as exact pairs of a significand
and an exponent, with products and quotients rounded to the nearest, ties to even.
-/
namespace Bookkeeping

/-- The number `significand * 2 ^ exponent`. -/
structure Binary64 where
  significand : Nat
  exponent : Int
  deriving DecidableEq, Repr

namespace Binary64

def zero : Binary64 := ⟨0, -1074⟩

def isZero (x : Binary64) : Bool := x.significand == 0

def numerator (x : Binary64) : Nat := x.significand * twoTo x.exponent.toNat

def denominator (x : Binary64) : Nat := twoTo (-x.exponent).toNat

/-- The nearest number to a fraction, unless that is beyond the greatest finite one. -/
def ofFraction? (n d : Nat) : Option Binary64 :=
  if n = 0 then some zero
  else
    let atExponent (e : Int) := roundHalfEven (n * twoTo (-e).toNat) (d * twoTo e.toNat)
    let floorAt (e : Int) := n * twoTo (-e).toNat / (d * twoTo e.toNat)
    let low : Int := max (n.log2 - d.log2 - 53) (-1074)
    let e := if floorAt low < twoTo 53 then low else low + 1
    let m := atExponent e
    let (m, e) := if m = twoTo 53 then (twoTo 52, e + 1) else (m, e)
    if e ≤ 971 then some ⟨m, e⟩ else none

def ofNat? (n : Nat) : Option Binary64 := ofFraction? n 1

def powerOfTen? (k : Nat) : Option Binary64 := ofNat? (tenTo k)

def mul? (x y : Binary64) : Option Binary64 :=
  ofFraction? (x.numerator * y.numerator) (x.denominator * y.denominator)

def div? (x y : Binary64) : Option Binary64 :=
  ofFraction? (x.numerator * y.denominator) (x.denominator * y.numerator)

end Binary64

end Bookkeeping
