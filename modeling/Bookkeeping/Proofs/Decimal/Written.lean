import Bookkeeping.Proofs.Decimal.RoundTrip
import Bookkeeping.Proofs.Decimal.Rounding

/-! Numbers as they are written, with a sign, a point and an exponent, and what is read of them up to
the exponent. Digits that have no place are rounded off, and then the number that is written has no
decimal. -/
namespace Bookkeeping.Decimal

def digitsIn (cs : List Char) : List Char := cs.filter Text.isDigit

def placesIn (cs : List Char) : Nat := (digitsIn (cs.dropWhile (· != '.'))).length

/-- The number that a text without an exponent writes. -/
def significand (cs : List Char) : ℚ :=
  withSign (cs.head? = some '-') (Text.digitsValue (digitsIn cs) / tenTo (placesIn cs))

def mantissa (cs : List Char) : List Char := cs.takeWhile (!isExponentMark ·)

/-- The number that a text writes. -/
def written (cs : List Char) : ℚ :=
  match cs.dropWhile (!isExponentMark ·) with
  | [] => significand (mantissa cs)
  | _ :: '-' :: size => significand (mantissa cs) / tenTo (Text.digitsValue (digitsIn size))
  | _ :: size => significand (mantissa cs) * tenTo (Text.digitsValue (digitsIn size))

example : written "-1_2.50e1".toList = -125 := by decide +kernel

theorem digitsIn_cons (c : Char) (cs : List Char) :
    digitsIn (c :: cs) = if Text.isDigit c then c :: digitsIn cs else digitsIn cs :=
  List.filter_cons

theorem digitsIn_cons_of_not {c : Char} (h : Text.isDigit c = false) (cs : List Char) :
    digitsIn (c :: cs) = digitsIn cs := by
  simp [digitsIn_cons, h]

theorem digitsIn_eq_self {cs : List Char} (h : cs.all Text.isDigit = true) : digitsIn cs = cs :=
  List.filter_eq_self.2 (List.all_eq_true.1 h)

theorem placesIn_cons {c : Char} (h : c ≠ '.') (cs : List Char) :
    placesIn (c :: cs) = placesIn cs := by
  simp [placesIn, h]

theorem placesIn_point (cs : List Char) : placesIn ('.' :: cs) = (digitsIn cs).length := by
  simp [placesIn, digitsIn_cons_of_not (c := '.') (by decide)]

theorem digitsValue_cons (c : Char) (ds : List Char) :
    Text.digitsValue (c :: ds) = Text.digitValue c * tenTo ds.length + Text.digitsValue ds := by
  refine (foldl_digits_eq (10 * 0 + Text.digitValue c) ds).trans ?_
  rw [Nat.mul_zero, Nat.zero_add]
  rfl

def fraction (cs : List Char) : ℚ :=
  Text.digitsValue (digitsIn cs) / tenTo (digitsIn cs).length

theorem fraction_nonneg (cs : List Char) : 0 ≤ fraction cs := by
  unfold fraction
  positivity

theorem fraction_lt_one (cs : List Char) : fraction cs < 1 := by
  rw [fraction, div_lt_one (tenTo_cast_pos _)]
  exact_mod_cast Text.digitsValue_lt _

theorem ten_mul_fraction {c : Char} (h : Text.isDigit c = true) (cs : List Char) :
    10 * fraction (c :: cs) = Text.digitValue c + fraction cs := by
  have hten := (tenTo_cast_pos (digitsIn cs).length).ne'
  rw [fraction, fraction, digitsIn_cons, if_pos h, digitsValue_cons, List.length_cons, tenTo_succ]
  push_cast
  field_simp

variable {x : ℚ} {b : Bool} {d e : Decimal} {cs rest : List Char}

/-- Some decimal stands for the number. -/
def IsDecimal (x : ℚ) : Prop := ∃ d : Decimal, d.value = x

theorem isDecimal_value (d : Decimal) : IsDecimal d.value := ⟨d, rfl⟩

theorem IsDecimal.neg (h : IsDecimal x) : IsDecimal (-x) := by
  obtain ⟨d, rfl⟩ := h
  exact ⟨d.negate, d.value_negate⟩

theorem isDecimal_withSign : IsDecimal (withSign b x) ↔ IsDecimal x := by
  cases b with
  | false => exact Iff.rfl
  | true => exact ⟨fun h => neg_neg x ▸ h.neg, IsDecimal.neg⟩

theorem IsDecimal.units (h : IsDecimal x) : ∃ n : Int, x * tenTo 28 = n := by
  obtain ⟨d, rfl⟩ := h
  exact ⟨d.units 28, by rw [value_eq_units d.scale_le, div_mul_cancel₀ _ (tenTo_cast_pos 28).ne']⟩

/-- A number between two units of the last place has no decimal if there is no place more. -/
theorem not_isDecimal_of_between {c s : Nat} (hlow : (c : ℚ) < x * tenTo s)
    (hhigh : x * tenTo s < c + 1) (hfull : 28 ≤ s ∨ (twoTo 96 : ℚ) ≤ x * tenTo (s + 1)) :
    ¬ IsDecimal x := by
  rintro ⟨e, rfl⟩
  have hpos : 0 < e.value :=
    pos_of_mul_pos_left ((Nat.cast_nonneg c).trans_lt hlow) (tenTo_cast_pos s).le
  have hscale : e.scale ≤ s := by
    by_contra hmore
    rcases hfull with hs | hlong
    · exact hmore (e.scale_le.trans hs)
    · have hlt := e.abs_value_lt (Nat.lt_of_not_le hmore)
      rw [abs_of_pos hpos] at hlt
      linarith
  -- so it is a whole number of these units
  rw [value_eq_units hscale, div_mul_cancel₀ _ (tenTo_cast_pos s).ne'] at hlow hhigh
  have hlow' : (c : Int) < e.units s := by exact_mod_cast hlow
  have hhigh' : e.units s < c + 1 := by exact_mod_cast hhigh
  omega

/-- A decimal that is read for a number: it stands for it, or the number has no decimal, all places
are in use and the last of them is off by less than one. -/
inductive Reads (d : Decimal) (x : ℚ) : Prop
  | same (eq : d.value = x)
  | rounded (near : |d.value - x| * tenTo d.scale < 1)
      (full : d.scale = 28 ∨ twoTo 96 ≤ 10 * d.coefficient) (unlike : ¬ IsDecimal x)

theorem Reads.near (h : d.Reads x) : |d.value - x| * tenTo d.scale < 1 := by
  cases h with
  | same eq => simp [eq]
  | rounded near => exact near

theorem Reads.value_eq_iff (h : d.Reads x) : d.value = x ↔ IsDecimal x := by
  constructor
  · rintro rfl
    exact isDecimal_value d
  · intro hx
    cases h with
    | same eq => exact eq
    | rounded _ _ unlike => exact absurd hx unlike

namespace Digits

variable {n m : Digits}

/-- The number that the digits read so far make together with those of the text that follows. -/
def spelled (n : Digits) (cs : List Char) : ℚ :=
  (n.coefficient * tenTo (digitsIn cs).length + Text.digitsValue (digitsIn cs)) /
    tenTo (n.scale + if n.point then (digitsIn cs).length else placesIn cs)

theorem spelled_start (cs : List Char) :
    start.spelled cs = Text.digitsValue (digitsIn cs) / tenTo (placesIn cs) := by
  simp [spelled, start]

theorem spelled_nil (n : Digits) : n.spelled [] = n.coefficient / tenTo n.scale := by
  simp [spelled, digitsIn, placesIn, Text.digitsValue, tenTo_zero]

theorem spelled_digit {c : Char} (hc : Text.isDigit c = true)
    (hcoefficient : m.coefficient = 10 * n.coefficient + Text.digitValue c)
    (hscale : m.scale = n.scale + if n.point then 1 else 0) (hpoint : m.point = n.point)
    (rest : List Char) : n.spelled (c :: rest) = m.spelled rest := by
  have hne : c ≠ '.' := by
    rintro rfl
    exact absurd hc (by decide)
  have hnumber : n.coefficient * tenTo (digitsIn (c :: rest)).length +
      Text.digitsValue (digitsIn (c :: rest)) =
      m.coefficient * tenTo (digitsIn rest).length + Text.digitsValue (digitsIn rest) := by
    rw [digitsIn_cons, if_pos hc, digitsValue_cons, List.length_cons, tenTo_succ, hcoefficient]
    ring
  have hplaces : (n.scale + if n.point then (digitsIn (c :: rest)).length else
      placesIn (c :: rest)) =
      m.scale + if m.point then (digitsIn rest).length else placesIn rest := by
    rw [digitsIn_cons, if_pos hc, placesIn_cons hne, hscale, hpoint, List.length_cons]
    split <;> omega
  unfold spelled
  rw [hplaces]
  congr 1
  exact_mod_cast hnumber

theorem spelled_skip {c : Char} (hc : Text.isDigit c = false) (hne : c ≠ '.') (n : Digits)
    (rest : List Char) : n.spelled (c :: rest) = n.spelled rest := by
  rw [spelled, digitsIn_cons_of_not hc, placesIn_cons hne, spelled]

theorem spelled_point (hp : n.point = false) (rest : List Char) :
    n.spelled ('.' :: rest) = { n with point := true }.spelled rest := by
  rw [spelled, digitsIn_cons_of_not (by decide), placesIn_point, hp]
  rfl

/-- After the point the digits that follow make a fraction of the last place. -/
theorem spelled_mul_tenTo (hp : n.point = true) (cs : List Char) :
    n.spelled cs * tenTo n.scale = n.coefficient + fraction cs := by
  have hscale := (tenTo_cast_pos n.scale).ne'
  have hlength := (tenTo_cast_pos (digitsIn cs).length).ne'
  rw [spelled, if_pos hp, tenTo_add, fraction]
  push_cast
  field_simp

theorem not_isDecimal_spelled (hp : n.point = true) (hpos : 0 < fraction cs)
    (hfull : n.scale = 28 ∨ (twoTo 96 : ℚ) ≤ 10 * (n.coefficient + fraction cs)) :
    ¬ IsDecimal (n.spelled cs) := by
  have hx := spelled_mul_tenTo hp cs
  have hlt := fraction_lt_one cs
  have hnext : n.spelled cs * tenTo (n.scale + 1) = 10 * (n.coefficient + fraction cs) := by
    rw [tenTo_succ, Nat.cast_mul, Nat.cast_ofNat, ← mul_assoc, hx, mul_comm]
  refine not_isDecimal_of_between (c := n.coefficient) (s := n.scale) (by linarith) (by linarith) ?_
  exact hfull.imp (·.ge) hnext.ge.trans'

theorem push_cases {digit : Nat} {p : Pushed} (h : n.push digit = .ok p) :
    (∃ m : Digits, p = .more m ∧ m.coefficient = 10 * n.coefficient + digit ∧
      m.scale = n.scale + (if n.point then 1 else 0) ∧ m.point = n.point) ∨
    (p = .last (n.roundedBy digit) ∧ n.point = true ∧
      (n.scale = 28 ∨ twoTo 96 ≤ 10 * n.coefficient + digit)) := by
  unfold push at h
  cases hp : n.point with
  | true =>
    simp only [hp, if_true] at h
    split at h
    · exact .inl ⟨_, (Except.ok.inj h).symm, rfl, rfl, rfl⟩
    · next hroom =>
      have := n.scale_le
      exact .inr ⟨(Except.ok.inj h).symm, rfl, by omega⟩
  | false =>
    simp only [hp, Bool.false_eq_true, if_false] at h
    split at h
    · exact .inl ⟨_, (Except.ok.inj h).symm, rfl, rfl, rfl⟩
    · cases h

theorem roundedBy_cases {digit : Nat} (h : n.roundedBy digit = .ok m) :
    (digit < 5 ∧ m.coefficient = n.coefficient ∧ m.scale = n.scale) ∨
    (5 ≤ digit ∧ m.coefficient = n.coefficient + 1 ∧ m.scale = n.scale) ∨
    (5 ≤ digit ∧ n.coefficient + 1 = twoTo 96 ∧ m.coefficient = (twoTo 96 + 4) / 10 ∧
      m.scale + 1 = n.scale) := by
  have hlt := n.coefficient_lt
  by_cases hdigit : digit < 5
  · simp only [roundedBy, if_pos hdigit, dif_pos hlt] at h
    cases h
    exact .inl ⟨hdigit, rfl, rfl⟩
  · simp only [roundedBy, if_neg hdigit] at h
    split at h
    · cases h
      exact .inr (.inl ⟨by omega, rfl, rfl⟩)
    · split_ifs at h with hscale
      cases h
      exact .inr (.inr ⟨by omega, by omega, rfl, Nat.sub_add_cancel (by omega)⟩)

theorem signed_finish (b : Bool) (n : Digits) :
    ((n.finish b).signed : ℚ) = withSign b n.coefficient := by
  by_cases hc : n.coefficient = 0 <;> cases b <;> simp [finish, signed, withSign, hc]

theorem abs_value_finish_sub (b : Bool) (n : Digits) (x : ℚ) :
    |(n.finish b).value - withSign b x| * tenTo n.scale = |n.coefficient - x * tenTo n.scale| := by
  have h := (n.finish b).abs_value_sub_mul (withSign b x)
  rw [signed_finish, withSign_mul, abs_withSign_sub] at h
  exact h

theorem finish_same (b : Bool) (h : x * tenTo n.scale = n.coefficient) :
    (n.finish b).Reads (withSign b x) := by
  have hoff := abs_value_finish_sub b n x
  rw [h, sub_self, abs_zero, mul_eq_zero, abs_eq_zero, sub_eq_zero] at hoff
  exact .same (hoff.resolve_right (tenTo_cast_pos n.scale).ne')

theorem finish_rounded (b : Bool) (near : |n.coefficient - x * tenTo n.scale| < 1)
    (full : n.scale = 28 ∨ twoTo 96 ≤ 10 * n.coefficient) (unlike : ¬ IsDecimal x) :
    (n.finish b).Reads (withSign b x) :=
  .rounded ((abs_value_finish_sub b n x).trans_lt near) full (mt isDecimal_withSign.1 unlike)

theorem finish_full (b : Bool) (hp : n.point = true) (hs : n.scale = 28) (cs : List Char) :
    (n.finish b).Reads (withSign b (n.spelled cs)) := by
  have hx := spelled_mul_tenTo hp cs
  have hlt := fraction_lt_one cs
  rcases (fraction_nonneg cs).eq_or_lt with hzero | hpos
  · exact finish_same b (by rw [hx, ← hzero, add_zero])
  · refine finish_rounded b ?_ (.inl hs) (not_isDecimal_spelled hp hpos (.inl hs))
    rw [hx, abs_sub_lt_iff]
    constructor <;> linarith

theorem finish_roundedBy (b : Bool) (hp : n.point = true) {c : Char}
    (hc : Text.isDigit c = true)
    (hfull : n.scale = 28 ∨ twoTo 96 ≤ 10 * n.coefficient + Text.digitValue c)
    (h : n.roundedBy (Text.digitValue c) = .ok m) (rest : List Char) :
    (m.finish b).Reads (withSign b (n.spelled (c :: rest))) := by
  have hx := spelled_mul_tenTo hp (c :: rest)
  have hten := ten_mul_fraction hc rest
  have hnonneg := fraction_nonneg rest
  have hlt := fraction_lt_one (c :: rest)
  have htwo : twoTo 96 = 79228162514264337593543950336 := rfl
  rcases (fraction_nonneg (c :: rest)).eq_or_lt with hzero | hpos
  · have hdigit : Text.digitValue c = 0 := by
      have hle : (Text.digitValue c : ℚ) ≤ 0 := by linarith
      exact Nat.le_zero.1 (by exact_mod_cast hle)
    obtain ⟨-, hcoefficient, hscale⟩ | ⟨hge, -⟩ | ⟨hge, -⟩ := roundedBy_cases h
    · exact finish_same b (by rw [hscale, hx, ← hzero, add_zero, hcoefficient])
    · omega
    · omega
  · -- what is written lies between two units of the last place
    have hunlike : ¬ IsDecimal (n.spelled (c :: rest)) := by
      refine not_isDecimal_spelled hp hpos (hfull.imp_right fun hlong => ?_)
      have hlong' : (twoTo 96 : ℚ) ≤ 10 * n.coefficient + Text.digitValue c := by
        exact_mod_cast hlong
      linarith
    obtain ⟨hdigit, hcoefficient, hscale⟩ | ⟨hdigit, hcoefficient, hscale⟩ |
      ⟨hdigit, hmost, hcoefficient, hscale⟩ := roundedBy_cases h
    · refine finish_rounded b ?_ (by rw [hscale, hcoefficient]; omega) hunlike
      rw [hscale, hcoefficient, hx, abs_sub_lt_iff]
      constructor <;> linarith
    · have hle := Text.digitValue_le c
      refine finish_rounded b ?_ (by rw [hscale, hcoefficient]; omega) hunlike
      rw [hscale, hcoefficient, hx, abs_sub_lt_iff]
      push_cast
      constructor <;> linarith
    · -- a tenth of 2 ^ 96 rounded up to a whole number, which is four tenths too many
      have hnear : n.spelled (c :: rest) * tenTo m.scale * 10 =
          n.coefficient + fraction (c :: rest) := by
        rw [← hx, ← hscale, tenTo_succ, Nat.cast_mul, Nat.cast_ofNat, mul_assoc]
      have hmost' : (n.coefficient + 1 : ℚ) = twoTo 96 := by exact_mod_cast hmost
      have htenth : (m.coefficient * 10 : ℚ) = twoTo 96 + 4 := by
        rw [hcoefficient]
        exact_mod_cast (by decide : (twoTo 96 + 4) / 10 * 10 = twoTo 96 + 4)
      refine finish_rounded b ?_ (.inr (by omega)) hunlike
      rw [abs_sub_lt_iff]
      constructor <;> linarith

theorem closed_eq_ok {r : Except ReadError Digits} (h : closed r rest = .ok m) : r = .ok m := by
  unfold closed at h
  split at h
  · cases h
  · exact h

/-- The digits that are read are read for the number that all of them make. -/
theorem finish_read (b : Bool) (h : n.read cs = .ok m) :
    (m.finish b).Reads (withSign b (n.spelled cs)) := by
  induction cs generalizing n with
  | nil =>
    rw [read] at h
    split at h
    · cases h
      exact finish_same b (by rw [spelled_nil, div_mul_cancel₀ _ (tenTo_cast_pos _).ne'])
    · cases h
  | cons c rest ih =>
    rw [read] at h
    by_cases hc : Text.isDigit c = true
    · rw [if_pos hc] at h
      split at h
      · cases h
      · next n' hpush =>
        obtain ⟨_, heq, hcoefficient, hscale, hpoint⟩ | ⟨heq, -⟩ := push_cases hpush
        · cases heq
          rw [spelled_digit hc hcoefficient hscale hpoint]
          exact ih h
        · cases heq
      · next r hpush =>
        obtain ⟨_, heq, -⟩ | ⟨heq, hpoint, hfull⟩ := push_cases hpush
        · cases heq
        · cases heq
          exact finish_roundedBy b hpoint hc hfull (closed_eq_ok h) rest
    · rw [if_neg hc] at h
      rw [Bool.not_eq_true] at hc
      by_cases hdot : c = '.'
      · subst hdot
        rw [if_pos rfl] at h
        split at h
        · cases h
        · next hp =>
          rw [spelled_point (by simpa using hp)]
          exact ih h
      · rw [if_neg hdot] at h
        rw [spelled_skip hc hdot]
        split at h
        · split at h
          · next hclosed =>
            obtain ⟨hp, hs⟩ : n.point = true ∧ n.scale = 28 := by
              simp only [isFull, Bool.and_eq_true, beq_iff_eq] at hclosed
              exact hclosed.1
            cases closed_eq_ok h
            exact finish_full b hp hs rest
          · split at h
            · exact ih h
            · cases h
        · cases h

end Digits

theorem readPlain_reads (h : readPlain cs = .ok d) : d.Reads (significand cs) := by
  have hread {b : Bool} {rest : List Char}
      (h : (·.finish b) <$> Digits.start.read rest = Except.ok d) :
      d.Reads (withSign b (Text.digitsValue (digitsIn rest) / tenTo (placesIn rest))) := by
    rw [← Digits.spelled_start]
    cases hm : Digits.start.read rest with
    | error e => rw [hm] at h; cases h
    | ok m =>
      rw [hm] at h
      cases h
      exact Digits.finish_read b hm
  unfold significand
  rw [readPlain.eq_def] at h
  split at h
  · cases h
  · rw [digitsIn_cons_of_not (by decide), placesIn_cons (by decide)]
    exact hread h
  · rw [digitsIn_cons_of_not (by decide), placesIn_cons (by decide)]
    exact hread h
  · next hneg _ =>
    have hsign : ¬ cs.head? = some '-' := fun hhead => by
      obtain ⟨rest, rfl⟩ := List.head?_eq_some_iff.1 hhead
      exact hneg rest rfl
    rw [decide_eq_false hsign]
    exact hread h

theorem readExponentSize_eq_ok {n : Nat} (h : readExponentSize cs = .ok n) :
    n = Text.digitsValue (digitsIn cs) := by
  have hdigits {ds : List Char} (h : (if ds.isEmpty || !ds.all Text.isDigit then .error .badExponent
      else if Text.digitsValue ds < twoTo 32 then .ok (Text.digitsValue ds)
      else .error .badExponent : Except ReadError Nat) = .ok n) :
      n = Text.digitsValue (digitsIn ds) := by
    split_ifs at h with hbad
    cases h
    rw [digitsIn_eq_self (by simp_all)]
  unfold readExponentSize at h
  simp only at h
  split at h
  · next hplus =>
    obtain ⟨rest, rfl⟩ := List.head?_eq_some_iff.1 hplus
    rw [digitsIn_cons_of_not (by decide)]
    exact hdigits h
  · exact hdigits h

end Bookkeeping.Decimal
