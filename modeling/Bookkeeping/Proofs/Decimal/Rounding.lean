import Mathlib.Algebra.Order.Field.Basic
import Mathlib.Tactic.NormNum
import Mathlib.Tactic.Positivity
import Bookkeeping.Proofs.Decimal.Addition
import Bookkeeping.Proofs.Decimal.Exact

/-! Sums that do not fit. A sum is exact if some decimal stands for it. Otherwise it gives up as
many places as it must and is rounded to the nearest decimal with the places that are left, and it
has no result just if it is too large without any. -/
namespace Bookkeeping

theorem roundHalfEven_spec (n : Nat) {d : Nat} (hd : 0 < d) :
    2 * n ≤ 2 * (roundHalfEven n d * d) + d ∧ 2 * (roundHalfEven n d * d) ≤ 2 * n + d ∧
      (2 * n = 2 * (roundHalfEven n d * d) + d ∨ 2 * (roundHalfEven n d * d) = 2 * n + d →
        roundHalfEven n d % 2 = 0) := by
  have hn : n / d * d + n % d = n := Nat.div_add_mod' n d
  have hr : n % d < d := Nat.mod_lt n hd
  have hsucc : (n / d + 1) * d = n / d * d + d := Nat.succ_mul ..
  unfold roundHalfEven
  simp only
  split_ifs <;> (try rw [hsucc]) <;> omega

theorem abs_roundHalfEven_sub (n : Nat) {d : Nat} (hd : 0 < d) :
    |(roundHalfEven n d : ℚ) - n / d| ≤ 1 / 2 := by
  obtain ⟨hlow, hhigh, -⟩ := roundHalfEven_spec n hd
  have hd' : (0 : ℚ) < d := Nat.cast_pos.2 hd
  have hlow' : (2 * n : ℚ) ≤ 2 * (roundHalfEven n d * d) + d := by exact_mod_cast hlow
  have hhigh' : (2 * (roundHalfEven n d * d) : ℚ) ≤ 2 * n + d := by exact_mod_cast hhigh
  rw [abs_sub_le_iff]
  constructor
  · have : (roundHalfEven n d - 1 / 2 : ℚ) ≤ n / d := (le_div_iff₀ hd').2 (by linarith)
    linarith
  · have : (n / d : ℚ) ≤ roundHalfEven n d + 1 / 2 := (div_le_iff₀ hd').2 (by linarith)
    linarith

theorem roundHalfEven_even {n d : Nat} (hd : 0 < d)
    (h : |(roundHalfEven n d : ℚ) - n / d| = 1 / 2) : roundHalfEven n d % 2 = 0 := by
  obtain ⟨-, -, heven⟩ := roundHalfEven_spec n hd
  have hd' : (d : ℚ) ≠ 0 := Nat.cast_ne_zero.2 hd.ne'
  apply heven
  rcases (abs_eq (by norm_num)).1 h with hup | hdown
  · right
    have : (2 * (roundHalfEven n d * d) : ℚ) = 2 * n + d := by
      field_simp at hup
      linarith
    exact_mod_cast this
  · left
    have : (2 * n : ℚ) = 2 * (roundHalfEven n d * d) + d := by
      field_simp at hdown
      linarith
    exact_mod_cast this

theorem roundHalfEven_lt_iff {n d m : Nat} (hd : 0 < d) (hm : m % 2 = 0) :
    roundHalfEven n d < m ↔ (n / d : ℚ) < m - 1 / 2 := by
  obtain ⟨hdown, hup⟩ := abs_sub_le_iff.1 (abs_roundHalfEven_sub n hd)
  constructor
  · intro hlt
    by_contra hge
    have hle : (roundHalfEven n d : ℚ) ≤ m - 1 := by
      have : (roundHalfEven n d + 1 : ℚ) ≤ m := by exact_mod_cast hlt
      linarith
    -- only a tie could end at the odd number below
    have htie : (roundHalfEven n d : ℚ) - n / d = -(1 / 2) := by linarith
    have heven := roundHalfEven_even (n := n) hd (by rw [htie]; norm_num)
    have hlast : (roundHalfEven n d + 1 : ℚ) = m := by linarith
    have hlast' : roundHalfEven n d + 1 = m := by exact_mod_cast hlast
    omega
  · intro hlt
    by_contra hge
    have hle : (m : ℚ) ≤ roundHalfEven n d := by exact_mod_cast not_lt.1 hge
    linarith

namespace Decimal

theorem surplusDigits_eq_some {c most k : Nat} (h : surplusDigits c most = some k) :
    k ≤ most ∧ c / tenTo k < twoTo 96 ∧ ∀ j < k, twoTo 96 ≤ c / tenTo j := by
  unfold surplusDigits at h
  obtain ⟨hfits, hmem, hleast⟩ := List.find?_range_eq_some.1 h
  refine ⟨Nat.lt_succ_iff.1 (List.mem_range.1 hmem), of_decide_eq_true hfits, fun j hj => ?_⟩
  simpa using hleast j hj

theorem surplusDigits_eq_none {c most : Nat} (h : surplusDigits c most = none) :
    twoTo 96 ≤ c / tenTo most := by
  unfold surplusDigits at h
  simpa using List.find?_eq_none.1 h most (List.mem_range.2 (Nat.lt_succ_self most))

/-- A decimal stands for a number as well as its places allow: it is off by half a unit in the last
of them at most, where a tie goes to the even coefficient; and if it is off, the number is too long
for one place more. -/
structure Rounds (d : Decimal) (x : ℚ) : Prop where
  near : |d.value - x| * tenTo d.scale ≤ 1 / 2
  even : |d.value - x| * tenTo d.scale = 1 / 2 → d.coefficient % 2 = 0
  full : d.value = x ∨ twoTo 96 - 1 / 2 ≤ |x| * tenTo (d.scale + 1)

variable {a b d e : Decimal} {x : ℚ} {negative : Bool} {c scale : Nat}

theorem tenTo_cast_pos (n : Nat) : (0 : ℚ) < tenTo n := Nat.cast_pos.2 (tenTo_pos n)

theorem le_mul_tenTo (hx : 0 ≤ x) (n : Nat) : x ≤ x * tenTo n :=
  le_mul_of_one_le_right hx (by exact_mod_cast tenTo_pos n)

theorem value_mul_tenTo (d : Decimal) : d.value * tenTo d.scale = d.signed :=
  div_mul_cancel₀ _ (tenTo_cast_pos d.scale).ne'

theorem abs_signed (d : Decimal) : |(d.signed : ℚ)| = d.coefficient := by
  unfold signed
  split <;> simp

theorem abs_value_mul_tenTo (d : Decimal) : |d.value| * tenTo d.scale = d.coefficient := by
  rw [← abs_signed, ← value_mul_tenTo, abs_mul, abs_of_pos (tenTo_cast_pos d.scale)]

theorem abs_value_sub_mul (d : Decimal) (x : ℚ) :
    |d.value - x| * tenTo d.scale = |d.signed - x * tenTo d.scale| := by
  rw [← value_mul_tenTo, ← sub_mul, abs_mul, abs_of_pos (tenTo_cast_pos d.scale)]

theorem rounds_value (d : Decimal) : d.Rounds d.value where
  near := by simp
  even h := by norm_num at h
  full := .inl rfl

/-- No decimal of at most so many places comes near the numbers that are too long for them. -/
theorem abs_value_lt {places : Nat} (h : places ≤ d.scale) :
    |d.value| * tenTo places < twoTo 96 - 1 / 2 := by
  have hcoefficient : (d.coefficient : ℚ) ≤ twoTo 96 - 1 := by
    have : (d.coefficient + 1 : ℚ) ≤ twoTo 96 := by exact_mod_cast d.coefficient_lt
    linarith
  have hten : (tenTo places : ℚ) ≤ tenTo d.scale := by
    obtain ⟨i, hi⟩ := Nat.exists_eq_add_of_le h
    rw [hi, tenTo_add]
    exact_mod_cast Nat.le_mul_of_pos_right _ (tenTo_pos i)
  calc |d.value| * tenTo places ≤ |d.value| * tenTo d.scale := by gcongr
    _ = d.coefficient := d.abs_value_mul_tenTo
    _ < twoTo 96 - 1 / 2 := by linarith

theorem Rounds.exact (h : d.Rounds e.value) : d.value = e.value := by
  rcases h.full with heq | hlong
  · exact heq
  · -- the decimal has no more places than there are, so both are whole numbers of units in the last
    have hscale : e.scale ≤ d.scale := by
      by_contra hmore
      exact absurd (abs_value_lt (Nat.lt_of_not_le hmore)) (not_lt.2 hlong)
    have hunits : e.value * tenTo d.scale = e.units d.scale := by
      rw [value_eq_units hscale]
      exact div_mul_cancel₀ _ (tenTo_cast_pos d.scale).ne'
    have hnear := h.near
    rw [abs_value_sub_mul, hunits] at hnear
    have hsame : d.signed = e.units d.scale := by
      have hlt : |((d.signed - e.units d.scale : Int) : ℚ)| < 1 := by
        push_cast
        linarith
      have hlt' : |d.signed - e.units d.scale| < 1 := by exact_mod_cast hlt
      have := Int.abs_lt_one_iff.1 hlt'
      omega
    have hboth : d.value * tenTo d.scale = e.value * tenTo d.scale := by
      rw [value_mul_tenTo, hunits, hsame]
    exact mul_right_cancel₀ (tenTo_cast_pos d.scale).ne' hboth

def withSign (negative : Bool) (x : ℚ) : ℚ := if negative then -x else x

theorem abs_withSign (negative : Bool) (x : ℚ) : |withSign negative x| = |x| := by
  cases negative <;> simp [withSign]

theorem signed_eq_withSign (d : Decimal) : (d.signed : ℚ) = withSign d.negative d.coefficient := by
  cases h : d.negative <;> simp [signed, withSign, h]

theorem withSign_mul (b : Bool) (x y : ℚ) : withSign b x * y = withSign b (x * y) := by
  cases b <;> simp [withSign]

theorem abs_withSign_sub (b : Bool) (x y : ℚ) : |withSign b x - withSign b y| = |x - y| := by
  cases b
  · rfl
  · rw [withSign, if_pos rfl, withSign, if_pos rfl, neg_sub_neg, abs_sub_comm]

theorem value_eq_withSign (d : Decimal) :
    d.value = withSign d.negative (d.coefficient / tenTo d.scale) := by
  rw [value, signed_eq_withSign, div_eq_mul_inv, withSign_mul, div_eq_mul_inv]

/-- What a coefficient makes of a size in units of the last place, it makes of the number. -/
theorem rounds_of_coefficient (hx : 0 ≤ x)
    (hnear : |(d.coefficient : ℚ) - x * tenTo d.scale| ≤ 1 / 2)
    (heven : |(d.coefficient : ℚ) - x * tenTo d.scale| = 1 / 2 → d.coefficient % 2 = 0)
    (hfull : (d.coefficient : ℚ) = x * tenTo d.scale ∨
      twoTo 96 - 1 / 2 ≤ x * tenTo (d.scale + 1)) : d.Rounds (withSign d.negative x) := by
  have hoff : |d.value - withSign d.negative x| * tenTo d.scale =
      |(d.coefficient : ℚ) - x * tenTo d.scale| := by
    rw [abs_value_sub_mul, signed_eq_withSign, withSign_mul, abs_withSign_sub]
  refine ⟨by rwa [hoff], fun h => heven (by rwa [hoff] at h), ?_⟩
  rcases hfull with heq | hlong
  · left
    rw [heq, sub_self, abs_zero, mul_eq_zero, abs_eq_zero, sub_eq_zero] at hoff
    exact hoff.resolve_right (tenTo_cast_pos d.scale).ne'
  · right
    rwa [abs_withSign, abs_of_nonneg hx]

theorem div_tenTo_mul (c : Nat) {k s : Nat} (h : s + k = scale) :
    (c / tenTo scale : ℚ) * tenTo s = c / tenTo k := by
  have hs := tenTo_cast_pos s
  have hk := tenTo_cast_pos k
  rw [← h, tenTo_add]
  push_cast
  field_simp

theorem div_tenTo_lt {k : Nat} (h : c / tenTo k < twoTo 96) : (c / tenTo k : ℚ) < twoTo 96 := by
  rw [div_lt_iff₀ (tenTo_cast_pos k)]
  exact_mod_cast (Nat.div_lt_iff_lt_mul (tenTo_pos k)).1 h

theorem le_div_tenTo {k : Nat} (h : twoTo 96 ≤ c / tenTo k) : (twoTo 96 : ℚ) ≤ c / tenTo k := by
  rw [le_div_iff₀ (tenTo_cast_pos k)]
  exact_mod_cast (Nat.le_div_iff_mul_le (tenTo_pos k)).1 h

theorem rounds_of_lt {k : Nat} (hk : surplusDigits c scale = some k)
    (hc : roundHalfEven c (tenTo k) < twoTo 96) (hs : scale - k ≤ 28) :
    (c / tenTo scale : ℚ) < twoTo 96 - 1 / 2 ∧
      Rounds ⟨negative, roundHalfEven c (tenTo k), scale - k, hc, hs⟩
        (withSign negative (c / tenTo scale)) := by
  obtain ⟨hle, hfits, hleast⟩ := surplusDigits_eq_some hk
  have hsplit : (c / tenTo scale : ℚ) * tenTo (scale - k) = c / tenTo k :=
    div_tenTo_mul c (Nat.sub_add_cancel hle)
  have hsize : (0 : ℚ) ≤ c / tenTo scale := by positivity
  have hlt := (roundHalfEven_lt_iff (tenTo_pos k) (by decide)).1 hc
  constructor
  · calc (c / tenTo scale : ℚ) ≤ c / tenTo scale * tenTo (scale - k) := le_mul_tenTo hsize _
      _ < twoTo 96 - 1 / 2 := by rwa [hsplit]
  · refine rounds_of_coefficient hsize ?_ ?_ ?_
    · simpa only [hsplit] using abs_roundHalfEven_sub c (tenTo_pos k)
    · simpa only [hsplit] using roundHalfEven_even (tenTo_pos k)
    · simp only [hsplit]
      cases k with
      | zero => exact .inl (by simp [tenTo_zero, roundHalfEven_one])
      | succ k =>
        have hlong := le_div_tenTo (hleast k (Nat.lt_succ_self k))
        have hmore : scale - (k + 1) + 1 + k = scale := by omega
        refine .inr ?_
        rw [div_tenTo_mul c hmore]
        linarith

/-- What is left can be rounded up to one more than the longest coefficient, but no further. -/
theorem roundHalfEven_surplus {k : Nat} (hk : surplusDigits c scale = some k)
    (hc : twoTo 96 ≤ roundHalfEven c (tenTo k)) : roundHalfEven c (tenTo k) = twoTo 96 := by
  have hfits : (c / tenTo k : ℚ) < twoTo 96 := div_tenTo_lt (surplusDigits_eq_some hk).2.1
  have hnear := (abs_sub_le_iff.1 (abs_roundHalfEven_sub c (tenTo_pos k))).1
  have hlt : (roundHalfEven c (tenTo k) : ℚ) < twoTo 96 + 1 := by linarith
  have hlt' : roundHalfEven c (tenTo k) < twoTo 96 + 1 := by exact_mod_cast hlt
  omega

theorem rounds_of_le {k : Nat} (hk : surplusDigits c scale = some k)
    (hc : twoTo 96 ≤ roundHalfEven c (tenTo k)) (hscale : scale - k ≠ 0)
    (hc' : roundHalfEven (roundHalfEven c (tenTo k)) 10 < twoTo 96) (hs : scale - k - 1 ≤ 28) :
    (c / tenTo scale : ℚ) < twoTo 96 - 1 / 2 ∧
      Rounds ⟨negative, roundHalfEven (roundHalfEven c (tenTo k)) 10, scale - k - 1, hc', hs⟩
        (withSign negative (c / tenTo scale)) := by
  obtain ⟨hle, hfits, -⟩ := surplusDigits_eq_some hk
  have hlow : (twoTo 96 : ℚ) - 1 / 2 ≤ c / tenTo k := by
    rw [← not_lt, ← roundHalfEven_lt_iff (tenTo_pos k) (by decide)]
    exact not_lt.2 hc
  have hhigh : (c / tenTo k : ℚ) < twoTo 96 := div_tenTo_lt hfits
  have hsize : (0 : ℚ) ≤ c / tenTo scale := by positivity
  have hsplit : (c / tenTo scale : ℚ) * tenTo (scale - k - 1) = c / tenTo k / 10 := by
    have hsum : scale - k - 1 + (k + 1) = scale := by omega
    rw [div_tenTo_mul c hsum, tenTo_succ]
    push_cast
    field_simp
  have hlast : (c / tenTo scale : ℚ) * tenTo (scale - k - 1 + 1) = c / tenTo k :=
    div_tenTo_mul c (by omega)
  have htwo : (twoTo 96 : ℚ) = 79228162514264337593543950336 := by exact_mod_cast rfl
  have htenth : (roundHalfEven (twoTo 96) 10 : ℚ) = 7922816251426433759354395034 := by
    exact_mod_cast (by decide : roundHalfEven (twoTo 96) 10 = 7922816251426433759354395034)
  -- the rest is less than half below 2 ^ 96, a tenth of which is no tie
  have hoff : |(roundHalfEven (roundHalfEven c (tenTo k)) 10 : ℚ) - c / tenTo k / 10| < 1 / 2 := by
    rw [roundHalfEven_surplus hk hc, htenth, abs_sub_lt_iff]
    constructor <;> linarith
  constructor
  · calc (c / tenTo scale : ℚ) ≤ c / tenTo scale * tenTo (scale - k - 1) := le_mul_tenTo hsize _
      _ < twoTo 96 - 1 / 2 := by rw [hsplit]; linarith
  · refine rounds_of_coefficient hsize ?_ ?_ (.inr ?_)
    · simpa only [hsplit] using hoff.le
    · intro htie
      simp only [hsplit] at htie
      exact absurd htie hoff.ne
    · simpa only [hlast] using hlow

/-- A size has no decimal just if it is too large as a whole number. -/
theorem fitted_cases (negative : Bool) (c : Nat) (hs : scale ≤ 28) :
    (fitted negative c scale hs = none ∧ (twoTo 96 : ℚ) - 1 / 2 ≤ c / tenTo scale) ∨
      ∃ d, fitted negative c scale hs = some d ∧ (c / tenTo scale : ℚ) < twoTo 96 - 1 / 2 ∧
        d.Rounds (withSign negative (c / tenTo scale)) := by
  unfold fitted
  cases hk : surplusDigits c scale with
  | none =>
    have hlong := le_div_tenTo (surplusDigits_eq_none hk)
    exact .inl ⟨rfl, by linarith⟩
  | some k =>
    simp only
    by_cases hc : roundHalfEven c (tenTo k) < twoTo 96
    · rw [dif_pos hc]
      exact .inr ⟨_, rfl, rounds_of_lt hk hc _⟩
    · rw [dif_neg hc]
      by_cases hscale : scale - k = 0
      · have hall : k = scale := by
          have := (surplusDigits_eq_some hk).1
          omega
        subst hall
        rw [if_pos hscale]
        exact .inl ⟨rfl, not_lt.1 fun hlt =>
          hc ((roundHalfEven_lt_iff (tenTo_pos k) (by decide)).2 hlt)⟩
      · rw [if_neg hscale]
        have hgrown := roundHalfEven_surplus hk (not_lt.1 hc)
        have hc' : roundHalfEven (roundHalfEven c (tenTo k)) 10 < twoTo 96 := by
          rw [hgrown]
          decide
        rw [dif_pos hc']
        exact .inr ⟨_, rfl, rounds_of_le hk (not_lt.1 hc) hscale hc' _⟩

theorem value_of_isZero (h : a.isZero = true) : a.value = 0 := by
  rw [value, signed_eq_zero.2 h]
  simp

theorem abs_value_lt_whole (d : Decimal) : |d.value| < twoTo 96 - 1 / 2 := by
  have h := d.abs_value_lt (Nat.zero_le d.scale)
  rwa [tenTo_zero, Nat.cast_one, mul_one] at h

theorem add_eq_fitted (ha : a.isZero = false) (hb : b.isZero = false) {sum : Int}
    (hsum : sum = a.units (max a.scale b.scale) + b.units (max a.scale b.scale)) :
    a.add b = fitted (decide (sum < 0)) sum.natAbs (max a.scale b.scale)
      (Nat.max_le.2 ⟨a.scale_le, b.scale_le⟩) := by
  subst hsum
  unfold add
  rw [if_neg (by simp [ha]), if_neg (by simp [hb])]
  rfl

theorem withSign_natAbs (sum : Int) (x : ℚ) :
    withSign (decide (sum < 0)) (sum.natAbs / x) = sum / x := by
  by_cases h : sum < 0
  · have habs : (sum.natAbs : ℚ) = -sum := by
      rw [Nat.cast_natAbs, abs_of_neg h, Int.cast_neg]
    rw [decide_eq_true h, withSign, if_pos rfl, habs, neg_div, neg_neg]
  · have habs : (sum.natAbs : ℚ) = sum := by
      rw [Nat.cast_natAbs, abs_of_nonneg (not_lt.1 h)]
    rw [decide_eq_false h, withSign, if_neg Bool.false_ne_true, habs]

/-- A sum of two has no decimal just if it is too large as a whole number, and otherwise is rounded
no more than it must be. -/
theorem add_cases (a b : Decimal) :
    (a.add b = none ∧ twoTo 96 - 1 / 2 ≤ |a.value + b.value|) ∨
      ∃ d, a.add b = some d ∧ |a.value + b.value| < twoTo 96 - 1 / 2 ∧
        d.Rounds (a.value + b.value) := by
  by_cases ha : a.isZero = true
  · rw [add_of_isZero b ha, value_of_isZero ha, zero_add]
    exact .inr ⟨b, rfl, b.abs_value_lt_whole, b.rounds_value⟩
  by_cases hb : b.isZero = true
  · have hadd : a.add b = some a := by rw [add, if_neg ha, if_pos hb]
    rw [hadd, value_of_isZero hb, add_zero]
    exact .inr ⟨a, rfl, a.abs_value_lt_whole, a.rounds_value⟩
  -- neither is zero, and the sum is made of the units of the larger scale
  obtain ⟨sum, hsum⟩ : ∃ sum : Int,
      sum = a.units (max a.scale b.scale) + b.units (max a.scale b.scale) := ⟨_, rfl⟩
  have hvalue : a.value + b.value =
      withSign (decide (sum < 0)) (sum.natAbs / tenTo (max a.scale b.scale)) := by
    rw [withSign_natAbs, hsum, value_eq_units (Nat.le_max_left ..),
      value_eq_units (Nat.le_max_right ..), Int.cast_add, add_div]
  rw [Bool.not_eq_true] at ha hb
  rw [add_eq_fitted ha hb hsum, hvalue, abs_withSign, abs_of_nonneg (by positivity)]
  exact fitted_cases ..

end Decimal

end Bookkeeping
