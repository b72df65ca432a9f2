import Bookkeeping.Decimal.Reading
import Bookkeeping.Proofs.Text.Digits
import Mathlib.Data.List.TakeWhile
import Mathlib.Tactic.Ring

/-! A decimal is read back from its text with the same value and scale. All that is lost is the
sign of a zero. -/
namespace Bookkeeping.Decimal

/-- The number as its text is read: a zero is not negative. -/
def plain (d : Decimal) : Decimal := { d with negative := d.negative && d.coefficient != 0 }

/-- Equal in value and in scale, which a zero of either sign can be. -/
def Same (a b : Decimal) : Prop := a.signed = b.signed ∧ a.scale = b.scale

theorem same_plain (d : Decimal) : d.plain.Same d := by
  refine ⟨?_, rfl⟩
  cases hn : d.negative with
  | false => simp [plain, signed, hn]
  | true => by_cases hc : d.coefficient = 0 <;> simp [plain, signed, hn, hc]

@[simp] theorem plain_plain (d : Decimal) : d.plain.plain = d.plain := by
  simp [plain]

theorem plain_eq_self {d : Decimal} (h : d.isZero = false) : d.plain = d := by
  have hc : (d.coefficient != 0) = true := by simpa [isZero] using h
  simp [plain, hc]

theorem foldl_digits_eq (a : Nat) (ds : List Char) :
    ds.foldl (fun n c => 10 * n + Text.digitValue c) a =
      a * 10 ^ ds.length + Text.digitsValue ds := by
  induction ds generalizing a with
  | nil => simp [Text.digitsValue]
  | cons c ds ih =>
    have h := ih (10 * 0 + Text.digitValue c)
    simp only [Text.digitsValue, List.foldl_cons] at h ⊢
    rw [ih, h, List.length_cons, Nat.pow_succ', Text.digitsValue, Nat.add_mul]
    ring

namespace Digits

theorem push_of_lt {n : Digits} {digit : Nat} (hc : 10 * n.coefficient + digit < twoTo 96)
    (hs : n.point = true → n.scale < 28) :
    ∃ n' : Digits, n.push digit = .ok (.more n') ∧ n'.coefficient = 10 * n.coefficient + digit ∧
      n'.scale = n.scale + (if n.point then 1 else 0) ∧ n'.point = n.point ∧
      n'.started = true := by
  unfold push
  cases hp : n.point with
  | true =>
    simp only [if_true, dif_pos (And.intro hc (hs hp))]
    exact ⟨_, rfl, rfl, rfl, rfl, rfl⟩
  | false =>
    simp only [Bool.false_eq_true, if_false, dif_pos hc]
    exact ⟨_, rfl, rfl, rfl, rfl, rfl⟩

theorem read_append_digits (ds rest : List Char) {n : Digits}
    (hd : ∀ c ∈ ds, Text.isDigit c = true)
    (hc : n.coefficient * 10 ^ ds.length + Text.digitsValue ds < twoTo 96)
    (hs : n.point = true → n.scale + ds.length ≤ 28) :
    ∃ n' : Digits, n.read (ds ++ rest) = n'.read rest ∧
      n'.coefficient = n.coefficient * 10 ^ ds.length + Text.digitsValue ds ∧
      n'.scale = n.scale + (if n.point then ds.length else 0) ∧ n'.point = n.point ∧
      n'.started = (n.started || !ds.isEmpty) := by
  induction ds generalizing n with
  | nil => exact ⟨n, by simp [Text.digitsValue]⟩
  | cons c ds ih =>
    have hv : n.coefficient * 10 ^ (c :: ds).length + Text.digitsValue (c :: ds) =
        (10 * n.coefficient + Text.digitValue c) * 10 ^ ds.length + Text.digitsValue ds := by
      rw [← foldl_digits_eq, ← foldl_digits_eq, List.foldl_cons]
    rw [hv] at hc ⊢
    have hle : 10 * n.coefficient + Text.digitValue c ≤
        (10 * n.coefficient + Text.digitValue c) * 10 ^ ds.length :=
      Nat.le_mul_of_pos_right _ (Nat.pow_pos (by decide))
    simp only [List.length_cons] at hs
    have hroom : 10 * n.coefficient + Text.digitValue c < twoTo 96 := by omega
    obtain ⟨m, hm, hmc, hms, hmp, hmt⟩ := push_of_lt hroom (fun hp => by have := hs hp; omega)
    obtain ⟨k, hk, hkc, hks, hkp, hkt⟩ := ih (n := m)
      (fun x hx => hd x (List.mem_cons_of_mem _ hx)) (by rwa [hmc])
      (fun hp => by have := hs (hmp ▸ hp); rw [hms]; split <;> omega)
    refine ⟨k, ?_, by rw [hkc, hmc], ?_, hkp.trans hmp, by simp [hkt, hmt]⟩
    · rw [List.cons_append, read, if_pos (hd c List.mem_cons_self), hm]
      exact hk
    · rw [hks, hms, hmp, List.length_cons]
      split <;> omega

theorem read_chars (d : Decimal) :
    ∃ n : Digits, start.read (Text.digits (d.coefficient / tenTo d.scale) ++
        (if d.scale = 0 then [] else
          '.' :: Text.fixedDigits d.scale (d.coefficient % tenTo d.scale))) = .ok n ∧
      n.coefficient = d.coefficient ∧ n.scale = d.scale := by
  have hlt := d.coefficient_lt
  have hdiv : tenTo d.scale * (d.coefficient / tenTo d.scale) + d.coefficient % tenTo d.scale =
      d.coefficient := Nat.div_add_mod ..
  have hle : d.coefficient / tenTo d.scale ≤ d.coefficient := Nat.div_le_self ..
  obtain ⟨n, hn, hnc, hns, hnp, hnt⟩ := read_append_digits (n := start)
    (Text.digits (d.coefficient / tenTo d.scale))
    (if d.scale = 0 then [] else
      '.' :: Text.fixedDigits d.scale (d.coefficient % tenTo d.scale))
    (fun c hc => Text.isDigit_of_mem_digits hc)
    (by rw [Text.digitsValue_digits]; simp only [start, Nat.zero_mul]; omega) (by simp [start])
  rw [Text.digitsValue_digits] at hnc
  simp only [start, Nat.zero_mul, Nat.zero_add, Bool.false_eq_true, if_false, Bool.false_or]
    at hnc hns hnp hnt
  have hst : n.started = true := by
    rw [hnt]
    cases h : Text.digits (d.coefficient / tenTo d.scale) with
    | nil => exact absurd h (Text.digits_ne_nil _)
    | cons c cs => rfl
  rw [hn]
  by_cases hs : d.scale = 0
  · simp only [hs, if_true, tenTo_zero, Nat.div_one] at hnc ⊢
    exact ⟨n, by simp [read, hst], hnc, hns⟩
  · have hlen : (Text.fixedDigits d.scale (d.coefficient % tenTo d.scale)).length = d.scale :=
      Text.fixedDigits_length ..
    have hval : Text.digitsValue (Text.fixedDigits d.scale (d.coefficient % tenTo d.scale)) =
        d.coefficient % tenTo d.scale := by
      rw [Text.digitsValue_fixedDigits]
      exact Nat.mod_mod ..
    have hsum : n.coefficient * 10 ^ d.scale + d.coefficient % tenTo d.scale = d.coefficient := by
      rw [hnc, Nat.mul_comm]
      exact hdiv
    obtain ⟨m, hm, hmc, hms, -, hmt⟩ := read_append_digits (n := { n with point := true })
      (Text.fixedDigits d.scale (d.coefficient % tenTo d.scale)) []
      (fun c hc => Text.isDigit_of_mem_fixedDigits hc) (by rw [hlen, hval]; simpa [hsum] using hlt)
      (fun _ => by simpa [hns, hlen] using d.scale_le)
    simp only [List.append_nil] at hm
    simp only [hlen, hval, hsum] at hmc
    simp only [hlen, hns, if_true, Nat.zero_add] at hms
    simp only [hst, Bool.true_or] at hmt
    refine ⟨m, ?_, hmc, hms⟩
    rw [if_neg hs, read, if_neg (by decide), if_pos rfl, hnp, if_neg (by decide), hm]
    simp [read, hmt]

end Digits

theorem isExponentMark_of_isDigit {c : Char} (h : Text.isDigit c = true) :
    isExponentMark c = false := by
  unfold isExponentMark
  by_contra hne
  simp only [Bool.or_eq_false_iff, decide_eq_false_iff_not, not_and_or, not_not] at hne
  rcases hne with rfl | rfl
  · exact absurd h (by decide)
  · exact absurd h (by decide)

theorem isExponentMark_of_mem_chars {d : Decimal} {c : Char} (h : c ∈ d.chars) :
    isExponentMark c = false := by
  simp only [chars, List.mem_append] at h
  rcases h with (h | h) | h
  · split at h
    · rw [List.mem_singleton.1 h]; decide
    · simp at h
  · exact isExponentMark_of_isDigit (Text.isDigit_of_mem_digits h)
  · split at h
    · simp at h
    · rcases List.mem_cons.1 h with rfl | h
      · decide
      · exact isExponentMark_of_isDigit (Text.isDigit_of_mem_fixedDigits h)

theorem readPlain_chars (d : Decimal) : readPlain d.chars = .ok d.plain := by
  obtain ⟨n, hn, hc, hs⟩ := Digits.read_chars d
  have hf (b : Bool) (hb : d.negative = b) : n.finish b = d.plain := by
    simp [Digits.finish, plain, hc, hs, hb]
  rw [chars, List.append_assoc]
  cases hneg : d.negative with
  | true =>
    simp only [if_true, List.singleton_append, readPlain, hn]
    rw [← hf true hneg]
    rfl
  | false =>
    simp only [Bool.false_eq_true, if_false, List.nil_append]
    -- the first character is a digit, and so no sign
    cases h : Text.digits (d.coefficient / tenTo d.scale) with
    | nil => exact absurd h (Text.digits_ne_nil _)
    | cons c cs =>
      have hdigit : Text.isDigit c = true :=
        Text.isDigit_of_mem_digits (n := d.coefficient / tenTo d.scale) (h ▸ List.mem_cons_self)
      rw [h] at hn
      rw [List.cons_append] at hn ⊢
      rw [readPlain.eq_def]
      split
      · simp_all
      · simp_all [Text.isDigit]
      · simp_all [Text.isDigit]
      · rw [hn, ← hf false hneg]
        rfl

theorem ofChars_chars (d : Decimal) : ofChars d.chars = .ok d.plain := by
  have h : d.chars.dropWhile (!isExponentMark ·) = [] := by
    rw [List.dropWhile_eq_nil_iff]
    intro c hc
    simp [isExponentMark_of_mem_chars hc]
  simp only [ofChars, h, readPlain_chars]

theorem ofText_text (d : Decimal) : ofText d.text = .ok d.plain := by
  rw [ofText, text, String.toList_ofList, ofChars_chars]

/-- A decimal is negative, which a zero can be too, just if its text has a minus sign. -/
theorem negative_iff {d : Decimal} : d.negative = true ↔ d.chars.head? = some '-' := by
  rw [chars, List.append_assoc]
  cases d.negative with
  | true => simp
  | false =>
    obtain ⟨c, cs, hcs⟩ := List.exists_cons_of_ne_nil
      (Text.digits_ne_nil (d.coefficient / tenTo d.scale))
    have hdigit : Text.isDigit c = true := Text.isDigit_of_mem_digits (hcs ▸ List.mem_cons_self)
    simp only [hcs, Bool.false_eq_true, if_false, List.nil_append, List.cons_append,
      List.head?_cons, Option.some.injEq, false_iff]
    rintro rfl
    exact absurd hdigit (by decide)

theorem text_inj {a b : Decimal} (h : a.text = b.text) : a = b := by
  have hplain : a.plain = b.plain := by
    have hread := ofText_text a
    rw [h, ofText_text] at hread
    exact (Except.ok.inj hread).symm
  have hsign : a.negative = b.negative := by
    rw [Bool.eq_iff_iff, negative_iff, negative_iff, String.ofList_injective h]
  cases a
  cases b
  simp only [plain, Decimal.mk.injEq] at hplain hsign ⊢
  exact ⟨hsign, hplain.2⟩

end Bookkeeping.Decimal
