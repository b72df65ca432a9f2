import Mathlib.Algebra.Field.Rat
import Mathlib.Algebra.Order.BigOperators.Group.List
import Mathlib.Algebra.Order.Ring.Rat
import Mathlib.Tactic.FieldSimp
import Mathlib.Tactic.Linarith
import Mathlib.Tactic.Ring
import Bookkeeping.Decimal.Addition

/-! Sums without rounding. Decimals of at most so many places are whole numbers of units in the last
of them; as long as these stay below 2 ^ 96 a sum is exact, whatever the order of its terms. -/
namespace Bookkeeping

theorem tenTo_add (m n : Nat) : tenTo (m + n) = tenTo m * tenTo n := Nat.pow_add ..

namespace Decimal

/-- The number that a decimal stands for. -/
def value (d : Decimal) : ℚ := d.signed / tenTo d.scale

theorem value_negate (d : Decimal) : d.negate.value = -d.value := by
  have hscale : d.negate.scale = d.scale := rfl
  rw [value, signed_negate, hscale, value, Int.cast_neg, neg_div]

/-- How many units in the last of so many places a decimal amounts to, if it has no more places. -/
def units (places : Nat) (d : Decimal) : Int := d.signed * tenTo (places - d.scale)

variable {places : Nat} {a b d acc : Decimal} {ds : List Decimal}

theorem value_eq_units (h : d.scale ≤ places) : d.value = d.units places / tenTo places := by
  have hten (n : Nat) : (tenTo n : ℚ) ≠ 0 := Nat.cast_ne_zero.2 (tenTo_pos n).ne'
  have hsplit : tenTo places = tenTo (places - d.scale) * tenTo d.scale := by
    rw [← tenTo_add, Nat.sub_add_cancel h]
  have h₁ := hten (places - d.scale)
  have h₂ := hten d.scale
  rw [value, units, hsplit]
  push_cast
  field_simp

theorem sum_value_eq (h : ∀ d ∈ ds, d.scale ≤ places) :
    (ds.map value).sum = (ds.map (units places)).sum / tenTo places := by
  induction ds with
  | nil => simp
  | cons d ds ih =>
    obtain ⟨hd, hds⟩ := List.forall_mem_cons.1 h
    rw [List.map_cons, List.sum_cons, List.map_cons, List.sum_cons, ih hds, value_eq_units hd]
    push_cast
    ring

theorem units_of_isZero (h : d.isZero = true) : d.units places = 0 := by
  rw [units, signed_eq_zero.2 h, Int.zero_mul]

theorem units_zero : zero.units places = 0 := units_of_isZero rfl

theorem units_negate (d : Decimal) : d.negate.units places = -d.units places := by
  have hscale : d.negate.scale = d.scale := rfl
  rw [units, signed_negate, hscale, Int.neg_mul, units]

theorem signed_mk (negative : Bool) (c : Nat) (scale : Nat) (hc : c < twoTo 96) (hs : scale ≤ 28) :
    (⟨negative, c, scale, hc, hs⟩ : Decimal).signed = if negative then -(c : Int) else c := rfl

theorem add_exact (ha : a.scale ≤ places) (hb : b.scale ≤ places)
    (hfits : (a.units places + b.units places).natAbs < twoTo 96) :
    ∃ d, a.add b = some d ∧ d.scale ≤ places ∧
      d.units places = a.units places + b.units places := by
  unfold add
  split
  · next hzero => exact ⟨b, rfl, hb, by rw [units_of_isZero hzero, Int.zero_add]⟩
  · split
    · next hzero => exact ⟨a, rfl, ha, by rw [units_of_isZero hzero, Int.add_zero]⟩
    · -- the sum in units is the sum at the larger scale, times a power of ten
      have hscale : max a.scale b.scale ≤ places := Nat.max_le.2 ⟨ha, hb⟩
      have hsplit {c : Decimal} (hc : c.scale ≤ max a.scale b.scale) : c.units places =
          c.signed * tenTo (max a.scale b.scale - c.scale) *
            tenTo (places - max a.scale b.scale) := by
        have hplaces : places - c.scale =
            max a.scale b.scale - c.scale + (places - max a.scale b.scale) := by omega
        rw [units, hplaces, tenTo_add]
        push_cast
        ring
      have hsum := congrArg₂ (· + ·) (hsplit (Nat.le_max_left ..)) (hsplit (Nat.le_max_right ..))
      simp only [← Int.add_mul] at hsum
      simp only
      generalize a.signed * (tenTo (max a.scale b.scale - a.scale) : Nat) +
        b.signed * (tenTo (max a.scale b.scale - b.scale) : Nat) = sum at hsum ⊢
      have hlt : sum.natAbs < twoTo 96 := by
        rw [hsum, Int.natAbs_mul, Int.natAbs_natCast] at hfits
        exact Nat.lt_of_le_of_lt (Nat.le_mul_of_pos_right _ (tenTo_pos _)) hfits
      rw [fitted_of_lt _ hlt]
      refine ⟨_, rfl, hscale, ?_⟩
      rw [hsum, units, signed_mk]
      congr 1
      simp only [decide_eq_true_eq]
      split <;> omega

def gains (places : Nat) (ds : List Decimal) : Int := (ds.map fun d => max (d.units places) 0).sum

def losses (places : Nat) (ds : List Decimal) : Int := (ds.map fun d => max (-d.units places) 0).sum

theorem gains_cons (d : Decimal) (ds : List Decimal) :
    gains places (d :: ds) = max (d.units places) 0 + gains places ds := List.sum_cons

theorem losses_cons (d : Decimal) (ds : List Decimal) :
    losses places (d :: ds) = max (-d.units places) 0 + losses places ds := List.sum_cons

theorem gains_nonneg (places : Nat) (ds : List Decimal) : 0 ≤ gains places ds := by
  refine List.sum_nonneg fun x hx => ?_
  obtain ⟨d, -, rfl⟩ := List.mem_map.1 hx
  exact le_max_right ..

theorem losses_nonneg (places : Nat) (ds : List Decimal) : 0 ≤ losses places ds := by
  refine List.sum_nonneg fun x hx => ?_
  obtain ⟨d, -, rfl⟩ := List.mem_map.1 hx
  exact le_max_right ..

/-- A sum of terms is exact if neither those above zero nor those below it alone would lead it out
of range, in whatever order they come. -/
theorem foldlM_add_exact (hacc : acc.scale ≤ places) (hds : ∀ d ∈ ds, d.scale ≤ places)
    (habove : acc.units places + gains places ds < twoTo 96)
    (hbelow : losses places ds - acc.units places < twoTo 96) :
    ∃ d, ds.foldlM add acc = some d ∧ d.scale ≤ places ∧
      d.units places = acc.units places + (ds.map (units places)).sum := by
  induction ds generalizing acc with
  | nil => exact ⟨acc, rfl, hacc, by simp⟩
  | cons d ds ih =>
    obtain ⟨hd, hrest⟩ := List.forall_mem_cons.1 hds
    rw [gains_cons] at habove
    rw [losses_cons] at hbelow
    have hgains := gains_nonneg places ds
    have hlosses := losses_nonneg places ds
    obtain ⟨acc', hadd, hacc', hunits⟩ := add_exact hacc hd (by omega)
    obtain ⟨z, hsum, hz, hzunits⟩ := ih hacc' hrest (by omega) (by omega)
    refine ⟨z, ?_, hz, ?_⟩
    · rw [List.foldlM_cons, hadd]
      exact hsum
    · rw [hzunits, hunits, List.map_cons, List.sum_cons, Int.add_assoc]

end Decimal

end Bookkeeping
