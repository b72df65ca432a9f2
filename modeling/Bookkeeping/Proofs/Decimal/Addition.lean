import Bookkeeping.Decimal.Addition

/-! Sums that come back to zero. -/
namespace Bookkeeping.Decimal

theorem isZero_negate (d : Decimal) : d.negate.isZero = d.isZero := rfl

theorem add_of_isZero {a : Decimal} (b : Decimal) (h : a.isZero = true) : a.add b = some b :=
  if_pos h

theorem add_negate (d : Decimal) : ∃ z, d.negate.add d = some z ∧ z.isZero = true := by
  by_cases hd : d.isZero = true
  · exact ⟨d, add_of_isZero d hd, hd⟩
  · have hsum : d.negate.signed * (tenTo (max d.negate.scale d.scale - d.negate.scale) : Nat) +
        d.signed * (tenTo (max d.negate.scale d.scale - d.scale) : Nat) = 0 := by
      have hscale : d.negate.scale = d.scale := rfl
      rw [signed_negate, hscale, Int.neg_mul]
      exact Int.add_left_neg _
    unfold add
    rw [if_neg (by rwa [isZero_negate]), if_neg hd]
    simp only [hsum]
    exact ⟨_, fitted_of_lt _ (by decide), rfl⟩

/-- Numbers, each right after its opposite, add up to zero: the sum is back at zero after each. -/
theorem foldlM_add_negate (ds : List Decimal) {acc : Decimal} (h : acc.isZero = true) :
    ∃ z, (ds.flatMap fun d => [d.negate, d]).foldlM add acc = some z ∧ z.isZero = true := by
  induction ds generalizing acc with
  | nil => exact ⟨acc, rfl, h⟩
  | cons d ds ih =>
    obtain ⟨z, hadd, hz⟩ := add_negate d
    obtain ⟨z', hsum, hz'⟩ := ih hz
    refine ⟨z', ?_, hz'⟩
    rw [List.flatMap_cons, List.cons_append, List.foldlM_cons, add_of_isZero _ h,
      Option.bind_eq_bind, Option.bind_some, List.cons_append, List.foldlM_cons, hadd]
    exact hsum

end Bookkeeping.Decimal
