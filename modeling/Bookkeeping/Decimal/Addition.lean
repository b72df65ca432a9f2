import Bookkeeping.Decimal.Basic
import Bookkeeping.Power
import Bookkeeping.Rounding
/-!
Addition. The sum is exact at the larger of the two scales; a sum too long for 96 bits gives up
its last digits, rounded half to even, and one too large without them has no result.
-/
namespace Bookkeeping.Decimal

/-- The least number of digits, at most `most`, without which a coefficient fits 96 bits. -/
def surplusDigits (coefficient most : Nat) : Option Nat :=
  (List.range (most + 1)).find? fun k => coefficient / tenTo k < twoTo 96

/-- A coefficient of any length brought into range by giving up places. -/
def fitted (negative : Bool) (coefficient scale : Nat) (hs : scale ≤ 28) : Option Decimal :=
  match surplusDigits coefficient scale with
  | none => none
  | some k =>
    let c := roundHalfEven coefficient (tenTo k)
    if hc : c < twoTo 96 then some ⟨negative, c, scale - k, hc, by omega⟩
    else if scale - k = 0 then none
    else
      let c := roundHalfEven c 10
      if hc : c < twoTo 96 then some ⟨negative, c, scale - k - 1, hc, by omega⟩ else none

/-- The sum, unless it is too large. A zero leaves the other number as it is, scale and sign
included, and a sum of zero is not negative. -/
def add (a b : Decimal) : Option Decimal :=
  if a.isZero then some b
  else if b.isZero then some a
  else
    let scale := max a.scale b.scale
    let sum :=
      a.signed * (tenTo (scale - a.scale) : Nat) + b.signed * (tenTo (scale - b.scale) : Nat)
    fitted (decide (sum < 0)) sum.natAbs scale
      (Nat.max_le.2 ⟨a.scale_le, b.scale_le⟩)

def sum (ds : List Decimal) : Option Decimal := ds.foldlM add zero

theorem surplusDigits_of_lt {c most : Nat} (h : c < twoTo 96) : surplusDigits c most = some 0 := by
  unfold surplusDigits
  rw [List.range_succ_eq_map, List.find?_cons_of_pos]
  rw [tenTo_zero, Nat.div_one]
  exact decide_eq_true h

theorem fitted_of_lt {negative : Bool} {c scale : Nat} (hs : scale ≤ 28) (hc : c < twoTo 96) :
    fitted negative c scale hs = some ⟨negative, c, scale, hc, hs⟩ := by
  have hr : roundHalfEven c (tenTo 0) = c := roundHalfEven_one c
  have hlt : roundHalfEven c (tenTo 0) < twoTo 96 := by rw [hr]; exact hc
  unfold fitted
  rw [surplusDigits_of_lt hc]
  exact (dif_pos hlt).trans (by simp only [hr, Nat.sub_zero])

end Bookkeeping.Decimal
