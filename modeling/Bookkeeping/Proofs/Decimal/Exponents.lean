import Bookkeeping.Proofs.Decimal.Written

/-! Exponents, which move the point. To the right the number is never rounded again, to the left it is
where it runs out of places. So a text is read right just if the digits before its exponent and the
whole number both have a decimal: the first must not have been rounded, nor the second. -/
namespace Bookkeeping.Decimal

variable {x : ℚ} {b : Bool} {d e : Decimal} {cs : List Char}

/-- A decimal for the number that is written `w`, found by way of the number `x` before the
exponent. -/
structure Approximates (d : Decimal) (x w : ℚ) : Prop where
  near : |d.value - w| * tenTo d.scale < 1
  eq_iff : d.value = w ↔ IsDecimal x ∧ IsDecimal w

theorem Approximates.abs_lt {w : ℚ} (h : d.Approximates x w) : |w| < twoTo 96 := by
  have htriangle : |w| ≤ |d.value| + |d.value - w| := by
    have hdiff := abs_sub_abs_le_abs_sub w d.value
    rw [abs_sub_comm] at hdiff
    linarith
  have hsum : |w| * tenTo d.scale < d.coefficient + 1 := by
    calc |w| * tenTo d.scale
        ≤ (|d.value| + |d.value - w|) * tenTo d.scale := by gcongr
      _ = d.coefficient + |d.value - w| * tenTo d.scale := by rw [add_mul, abs_value_mul_tenTo]
      _ < d.coefficient + 1 := by linarith [h.near]
  have hcoefficient : (d.coefficient + 1 : ℚ) ≤ twoTo 96 := by exact_mod_cast d.coefficient_lt
  linarith [le_mul_tenTo (abs_nonneg w) d.scale]

theorem Reads.scaled {k : ℚ} (hr : d.Reads x) (hk : 0 < k) (hvalue : e.value = d.value * k)
    (hscale : d.value = x ∨ k * tenTo e.scale = tenTo d.scale) : e.Approximates x (x * k) where
  near := by
    rcases hscale with heq | hscale
    · simp [hvalue, heq]
    · rw [hvalue, ← sub_mul, abs_mul, abs_of_pos hk, mul_assoc, hscale]
      exact hr.near
  eq_iff := by
    have hsame : e.value = x * k ↔ IsDecimal x := by
      rw [hvalue, mul_left_inj' hk.ne', hr.value_eq_iff]
    exact ⟨fun h => ⟨hsame.1 h, h ▸ isDecimal_value e⟩, fun h => hsame.2 h.1⟩

theorem Reads.approximates (hr : d.Reads x) : d.Approximates x x := by
  simpa using hr.scaled one_pos (mul_one _).symm (.inr (one_mul _))

theorem shiftUp_cases {n : Nat} (h : d.shiftUp n = .ok e) :
    e.value = d.value * tenTo n ∧
      (e.scale + n = d.scale ∨ d.scale < 28 ∧ 10 * d.coefficient < twoTo 96) := by
  unfold shiftUp at h
  split at h
  · next hle =>
    cases h
    refine ⟨?_, .inl (Nat.sub_add_cancel hle)⟩
    have hsplit : tenTo d.scale = tenTo (d.scale - n) * tenTo n := by
      rw [← tenTo_add, Nat.sub_add_cancel hle]
    have h₁ := (tenTo_cast_pos (d.scale - n)).ne'
    have h₂ := (tenTo_cast_pos n).ne'
    rw [value, value, hsplit]
    push_cast
    field_simp
    rfl
  · next hmore =>
    split_ifs at h with hn hlt
    cases h
    have hsplit : tenTo n = tenTo (n - d.scale) * tenTo d.scale := by
      rw [← tenTo_add, Nat.sub_add_cancel (Nat.le_of_not_le hmore)]
    constructor
    · have hten := (tenTo_cast_pos d.scale).ne'
      rw [value_eq_withSign, value_eq_withSign, withSign_mul, hsplit, tenTo_zero]
      push_cast
      field_simp
    · have hten : 10 ≤ tenTo (n - d.scale) := Nat.le_self_pow (by omega) 10
      have := Nat.mul_le_mul_left d.coefficient hten
      omega

theorem shiftUp_approximates {n : Nat} (hr : d.Reads x) (h : d.shiftUp n = .ok e) :
    e.Approximates x (x * tenTo n) := by
  obtain ⟨hvalue, hscale⟩ := shiftUp_cases h
  refine hr.scaled (tenTo_cast_pos n) hvalue ?_
  rcases hscale with hscale | ⟨hplaces, hshort⟩
  · exact .inr (by rw [← hscale, tenTo_add, Nat.cast_mul, mul_comm])
  · cases hr with
    | same eq => exact .inl eq
    | rounded _ full _ => omega

theorem isDecimal_value_mul {n : Nat} (hn : n ≤ d.scale) : IsDecimal (d.value * tenTo n) := by
  have h : d.shiftUp n = .ok { d with
      scale := d.scale - n, scale_le := Nat.le_trans (Nat.sub_le ..) d.scale_le } := if_pos hn
  exact (shiftUp_cases h).1 ▸ isDecimal_value _

theorem withoutLast_near (c k : Nat) :
    |(withoutLast c k : ℚ) - c / tenTo (k + 1)| ≤ 1 / 2 := by
  have hpos := tenTo_cast_pos k
  have hlow : ((c / tenTo k : Nat) : ℚ) ≤ c / tenTo k := by
    rw [le_div_iff₀ hpos]
    exact_mod_cast Nat.div_mul_le_self c (tenTo k)
  have hhigh : (c / tenTo k : ℚ) < (c / tenTo k : Nat) + 1 := by
    rw [div_lt_iff₀ hpos, mul_comm]
    exact_mod_cast Nat.lt_mul_div_succ c (tenTo_pos k)
  have htenth : (c / tenTo (k + 1) : ℚ) = c / tenTo k / 10 := by
    rw [tenTo_succ, Nat.cast_mul, Nat.cast_ofNat, div_div]
  have hdown : (10 * withoutLast c k : ℚ) ≤ (c / tenTo k : Nat) + 5 := by
    exact_mod_cast (by unfold withoutLast; omega : 10 * withoutLast c k ≤ c / tenTo k + 5)
  have hup : ((c / tenTo k : Nat) : ℚ) + 1 ≤ 10 * withoutLast c k + 5 := by
    exact_mod_cast (by unfold withoutLast; omega : c / tenTo k + 1 ≤ 10 * withoutLast c k + 5)
  rw [htenth, abs_sub_le_iff]
  constructor <;> linarith

theorem withoutLast_mul (a k : Nat) : withoutLast (a * tenTo (k + 1)) k = a := by
  have hdiv : a * tenTo (k + 1) / tenTo k = a * 10 := by
    rw [tenTo_succ, Nat.mul_comm (tenTo k), ← Nat.mul_assoc, Nat.mul_div_cancel _ (tenTo_pos k)]
  rw [withoutLast, hdiv]
  omega

theorem withoutLast_exact {c k : Nat} {n : Int} (h : withSign b (c / tenTo (k + 1)) = n) :
    withSign b (withoutLast c k) = n := by
  have habs : (c / tenTo (k + 1) : ℚ) = n.natAbs := by
    rw [Nat.cast_natAbs, Int.cast_abs, ← h, abs_withSign, abs_of_nonneg (by positivity)]
  have hc : (c : ℚ) = n.natAbs * tenTo (k + 1) := (div_eq_iff (tenTo_cast_pos _).ne').1 habs
  have hc' : c = n.natAbs * tenTo (k + 1) := by exact_mod_cast hc
  rw [← h, habs, hc', withoutLast_mul]

theorem shiftDown_cases {n : Nat} (h : d.shiftDown n = .ok e) :
    (e.value = d.value * (tenTo n : ℚ)⁻¹ ∧ e.scale = d.scale + n) ∨
      ∃ m k, m + n = 28 ∧ d.scale = m + (k + 1) ∧ e.scale = 28 ∧
        (e.signed : ℚ) = withSign d.negative (withoutLast d.coefficient k) := by
  unfold shiftDown at h
  split_ifs at h with hn hfits
  · cases h
    refine .inl ⟨?_, rfl⟩
    have h₁ := (tenTo_cast_pos d.scale).ne'
    have h₂ := (tenTo_cast_pos n).ne'
    rw [value, value, tenTo_add]
    push_cast
    field_simp
    rfl
  · cases h
    exact .inr ⟨28 - n, d.scale + n - 29, by omega, by omega, rfl, signed_eq_withSign _⟩

/-- Where digits are given up, what is off in the last of them is less than a tenth. -/
theorem Reads.near_tenth {m k : Nat} (hr : d.Reads x) (hd : d.scale = m + (k + 1)) :
    |(d.value - x) * tenTo m| < 1 / 10 := by
  have hm := tenTo_cast_pos m
  have hten : (10 : ℚ) ≤ tenTo (k + 1) := by
    exact_mod_cast (Nat.le_self_pow (by omega) 10 : 10 ≤ tenTo (k + 1))
  rw [lt_div_iff₀ (by norm_num)]
  calc |(d.value - x) * tenTo m| * 10
      ≤ |(d.value - x) * tenTo m| * tenTo (k + 1) := by gcongr
    _ = |d.value - x| * tenTo d.scale := by
        rw [abs_mul, abs_of_pos hm, hd, tenTo_add m, Nat.cast_mul, mul_assoc]
    _ < 1 := hr.near

/-- Where digits are given up, what is written has a decimal just if these are zeros. -/
theorem shiftDown_rounded {m n k : Nat} (hr : d.Reads x) (hmn : m + n = 28)
    (hd : d.scale = m + (k + 1)) (he : e.scale = 28)
    (hsigned : (e.signed : ℚ) = withSign d.negative (withoutLast d.coefficient k)) :
    e.Approximates x (x / tenTo n) := by
  have hn := (tenTo_cast_pos n).ne'
  have hunits : x / tenTo n * tenTo 28 = x * tenTo m := by
    rw [← hmn, tenTo_add, Nat.cast_mul]
    field_simp
  have hbase : d.value * tenTo m = withSign d.negative (d.coefficient / tenTo (k + 1)) := by
    rw [value_eq_withSign, withSign_mul, div_tenTo_mul _ hd.symm]
  refine ⟨?_, fun heq => ?_, ?_⟩
  · have hround : |(e.signed : ℚ) - d.value * tenTo m| ≤ 1 / 2 := by
      rw [hsigned, hbase, abs_withSign_sub]
      exact withoutLast_near _ k
    have hrest := hr.near_tenth hd
    rw [abs_value_sub_mul, he, hunits]
    calc |(e.signed : ℚ) - x * tenTo m|
        = |(e.signed - d.value * tenTo m) + (d.value - x) * tenTo m| := by ring_nf
      _ ≤ |(e.signed : ℚ) - d.value * tenTo m| + |(d.value - x) * tenTo m| := abs_add_le ..
      _ < 1 := by linarith
  · have hx : x = e.value * tenTo n := by rw [heq, div_mul_cancel₀ _ hn]
    exact ⟨hx ▸ isDecimal_value_mul (by omega), heq ▸ isDecimal_value e⟩
  · rintro ⟨hx, hw⟩
    have hexact := hr.value_eq_iff.2 hx
    -- the units of what is written are whole, so the digits that are given up are zeros
    obtain ⟨u, hu⟩ := hw.units
    rw [hunits, ← hexact, hbase] at hu
    have hsame : e.value * tenTo e.scale = x / tenTo n * tenTo e.scale := by
      rw [value_mul_tenTo, hsigned, withoutLast_exact hu, he, hunits, ← hexact, hbase, hu]
    exact mul_right_cancel₀ (tenTo_cast_pos _).ne' hsame

theorem shiftDown_approximates {n : Nat} (hr : d.Reads x) (h : d.shiftDown n = .ok e) :
    e.Approximates x (x / tenTo n) := by
  rcases shiftDown_cases h with ⟨hvalue, hscale⟩ | ⟨m, k, hmn, hd, he, hsigned⟩
  · rw [div_eq_mul_inv]
    refine hr.scaled (inv_pos.2 (tenTo_cast_pos n)) hvalue (.inr ?_)
    rw [hscale, tenTo_add, Nat.cast_mul, mul_left_comm, inv_mul_cancel₀ (tenTo_cast_pos n).ne',
      mul_one]
  · exact shiftDown_rounded hr hmn hd he hsigned

theorem mantissa_eq_self (h : cs.dropWhile (!isExponentMark ·) = []) : mantissa cs = cs := by
  have happend := List.takeWhile_append_dropWhile (p := (!isExponentMark ·)) (l := cs)
  rwa [h, List.append_nil] at happend

/-- Whatever text is accepted, the decimal read for it is off by less than one unit in its last
place, and it is the number that is written just if the digits before the exponent and the whole
number both have a decimal. -/
theorem ofChars_approximates (h : ofChars cs = .ok d) :
    d.Approximates (significand (mantissa cs)) (written cs) := by
  unfold ofChars at h
  unfold written
  split at h
  · next hplain =>
    rw [hplain, mantissa_eq_self hplain]
    exact (readPlain_reads h).approximates
  · next mark exponent hmark =>
    rw [hmark]
    cases hd : readPlain (cs.takeWhile (!isExponentMark ·)) with
    | error e =>
      rw [hd] at h
      cases h
    | ok d₀ =>
      rw [hd] at h
      have hr : d₀.Reads (significand (mantissa cs)) := readPlain_reads hd
      simp only [Except.bind, bind] at h
      split at h
      · split at h
        · cases h
        · next n hn =>
          rw [readExponentSize_eq_ok hn] at h
          exact shiftDown_approximates hr h
      · next hneg =>
        split at h
        · cases h
        · next n hn =>
          rw [readExponentSize_eq_ok hn] at h
          split
          · next heq => cases heq
          · next size heq => exact (hneg size (List.cons.inj heq).2).elim
          · next heq =>
            rw [← (List.cons.inj heq).2]
            exact shiftUp_approximates hr h

end Bookkeeping.Decimal
