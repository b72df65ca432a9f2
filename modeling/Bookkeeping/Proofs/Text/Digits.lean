import Mathlib.Algebra.Group.Nat.Defs
import Mathlib.Data.List.Induction
import Bookkeeping.Power
import Bookkeeping.Text.Integer

/-! Numbers written in digits, decimal or hexadecimal, have the value that is read back. -/
namespace Bookkeeping.Text

theorem isDigit_digitChar {n : Nat} (h : n < 10) : isDigit (Nat.digitChar n) = true := by
  revert n
  decide

theorem digitValue_digitChar {n : Nat} (h : n < 10) : digitValue (Nat.digitChar n) = n := by
  revert n
  decide

theorem isHexDigit_digitChar {n : Nat} (h : n < 16) : isHexDigit (Nat.digitChar n) = true := by
  revert n
  decide

theorem hexValue_digitChar {n : Nat} (h : n < 16) : hexValue (Nat.digitChar n) = n := by
  revert n
  decide

theorem isDigit_iff {c : Char} : isDigit c = true ↔ 48 ≤ c.toNat ∧ c.toNat ≤ 57 := by
  simp [isDigit, Char.le_def, UInt32.le_iff_toNat_le]

theorem digitValue_le (c : Char) : digitValue c ≤ 9 := by
  unfold digitValue
  split
  · next h =>
    have := isDigit_iff.1 h
    omega
  · exact Nat.zero_le 9

theorem isHexDigit_iff {c : Char} :
    isHexDigit c = true ↔ (48 ≤ c.toNat ∧ c.toNat ≤ 57) ∨ (97 ≤ c.toNat ∧ c.toNat ≤ 102) ∨
      (65 ≤ c.toNat ∧ c.toNat ≤ 70) := by
  simp [isHexDigit, isDigit, Char.le_def, UInt32.le_iff_toNat_le, or_assoc]

theorem isDigit_of_mem_fixedDigits {width n : Nat} {c : Char} (h : c ∈ fixedDigits width n) :
    isDigit c = true := by
  induction width generalizing n with
  | zero => simp [fixedDigits] at h
  | succ w ih =>
    simp only [fixedDigits, List.mem_append, List.mem_singleton] at h
    rcases h with h | rfl
    · exact ih h
    · exact isDigit_digitChar (by omega)

theorem digitsValue_append_singleton (cs : List Char) (c : Char) :
    digitsValue (cs ++ [c]) = 10 * digitsValue cs + digitValue c := by
  simp [digitsValue]

theorem digitsValue_lt (cs : List Char) : digitsValue cs < tenTo cs.length := by
  induction cs using List.reverseRecOn with
  | nil => exact tenTo_pos 0
  | append_singleton cs c ih =>
    have := digitValue_le c
    rw [digitsValue_append_singleton, List.length_append, List.length_singleton, tenTo_succ]
    omega

theorem digitsValue_fixedDigits (width n : Nat) :
    digitsValue (fixedDigits width n) = n % 10 ^ width := by
  induction width generalizing n with
  | zero => simp [fixedDigits, digitsValue, Nat.mod_one]
  | succ w ih =>
    rw [fixedDigits, digitsValue_append_singleton, ih, digitValue_digitChar (by omega),
      Nat.pow_succ', Nat.mod_mul]
    omega

theorem digits_of_lt {n : Nat} (h : n < 10) : digits n = [Nat.digitChar n] :=
  Nat.toDigits_of_lt_base h

theorem digits_of_le {n : Nat} (h : 10 ≤ n) :
    digits n = digits (n / 10) ++ [Nat.digitChar (n % 10)] :=
  Nat.toDigits_of_base_le (by decide) h

theorem isDigit_of_mem_digits {n : Nat} {c : Char} (h : c ∈ digits n) : isDigit c = true := by
  induction n using Nat.strongRecOn with
  | ind n ih =>
    by_cases hn : n < 10
    · rw [digits_of_lt hn, List.mem_singleton] at h
      exact h ▸ isDigit_digitChar hn
    · rw [digits_of_le (by omega), List.mem_append, List.mem_singleton] at h
      rcases h with h | rfl
      · exact ih (n / 10) (by omega) h
      · exact isDigit_digitChar (by omega)

theorem digitsValue_digits (n : Nat) : digitsValue (digits n) = n := by
  induction n using Nat.strongRecOn with
  | ind n ih =>
    by_cases hn : n < 10
    · simp [digits_of_lt hn, digitsValue, digitValue_digitChar hn]
    · rw [digits_of_le (by omega), digitsValue_append_singleton, ih (n / 10) (by omega),
        digitValue_digitChar (by omega)]
      omega

theorem digits_ne_nil (n : Nat) : digits n ≠ [] := Nat.toDigits_ne_nil

theorem takeWhile_isDigit_append {ds rest : List Char} (hd : ∀ c ∈ ds, isDigit c = true)
    (hr : ∀ c ∈ rest.head?, isDigit c = false) : (ds ++ rest).takeWhile isDigit = ds := by
  rw [List.takeWhile_append_of_pos hd]
  cases rest with
  | nil => simp
  | cons c rest => simp [hr c rfl]

theorem isHexDigit_of_mem_fixedHex {width n : Nat} {c : Char} (h : c ∈ fixedHex width n) :
    isHexDigit c = true := by
  induction width generalizing n with
  | zero => simp [fixedHex] at h
  | succ w ih =>
    simp only [fixedHex, List.mem_append, List.mem_singleton] at h
    rcases h with h | rfl
    · exact ih h
    · exact isHexDigit_digitChar (by omega)

theorem hexDigitsValue_append_singleton (cs : List Char) (c : Char) :
    hexDigitsValue (cs ++ [c]) = 16 * hexDigitsValue cs + hexValue c := by
  simp [hexDigitsValue]

theorem hexDigitsValue_fixedHex (width n : Nat) :
    hexDigitsValue (fixedHex width n) = n % 16 ^ width := by
  induction width generalizing n with
  | zero => simp [fixedHex, hexDigitsValue, Nat.mod_one]
  | succ w ih =>
    rw [fixedHex, hexDigitsValue_append_singleton, ih, hexValue_digitChar (by omega),
      Nat.pow_succ', Nat.mod_mul]
    omega

theorem fixedHex_add (a b n : Nat) :
    fixedHex (a + b) n = fixedHex a (n / 16 ^ b) ++ fixedHex b n := by
  induction b generalizing n with
  | zero => simp [fixedHex]
  | succ b ih =>
    rw [← Nat.add_assoc, fixedHex, fixedHex, ih, Nat.div_div_eq_div_mul, ← Nat.pow_succ',
      List.append_assoc]

theorem readDigits_append {base limit n m : Nat} {a b : List Char}
    (h : readDigits base limit n a = .ok m) :
    readDigits base limit n (a ++ b) = readDigits base limit m b := by
  induction a generalizing n with
  | nil =>
    simp only [readDigits, Except.ok.injEq] at h
    simp [h]
  | cons c a ih =>
    simp only [readDigits] at h
    simp only [List.cons_append, readDigits]
    split at h
    · rename_i hc
      split at h
      · rename_i hl
        simp only [hc, hl, if_true]
        exact ih h
      · simp at h
    · simp at h

theorem isHexDigit_of_readDigits {base limit n m : Nat} {cs : List Char}
    (h : readDigits base limit n cs = .ok m) : ∀ c ∈ cs, isHexDigit c = true := by
  induction cs generalizing n with
  | nil => simp
  | cons c cs ih =>
    simp only [readDigits] at h
    split at h
    · next hc =>
      rw [Bool.and_eq_true] at hc
      split at h
      · exact List.forall_mem_cons.2 ⟨hc.1, ih h⟩
      · cases h
    · cases h

theorem isHexDigit_of_readNatural {base limit n : Nat} {cs : List Char}
    (h : readNatural base limit cs = .ok n) : ∀ c ∈ cs, isHexDigit c = true ∨ c = '+' := by
  unfold readNatural at h
  split at h
  · cases h
  · cases h
  · intro c hc
    rcases List.mem_cons.1 hc with rfl | hc
    · exact .inr rfl
    · exact .inl (isHexDigit_of_readDigits h c hc)
  · exact fun c hc => .inl (isHexDigit_of_readDigits h c hc)

theorem readDigits_fixedHex {width n limit : Nat} (h : n % 16 ^ width < limit) :
    readDigits 16 limit 0 (fixedHex width n) = .ok (n % 16 ^ width) := by
  induction width generalizing n with
  | zero => simp [fixedHex, readDigits, Nat.mod_one]
  | succ w ih =>
    have hm : n % 16 ^ (w + 1) = 16 * (n / 16 % 16 ^ w) + n % 16 := by
      rw [Nat.pow_succ', Nat.mod_mul]
      omega
    have hd : n % 16 < 16 := by omega
    rw [hm] at h
    rw [fixedHex, readDigits_append (ih (n := n / 16) (by omega)), hm]
    simp [readDigits, isHexDigit_digitChar hd, hexValue_digitChar hd, h, hd]

theorem readNatural_fixedHex {width n limit : Nat} (hw : 0 < width) (hn : n < 16 ^ width)
    (hl : n < limit) : readNatural 16 limit (fixedHex width n) = .ok n := by
  have hm : n % 16 ^ width = n := Nat.mod_eq_of_lt hn
  have hr : readDigits 16 limit 0 (fixedHex width n) = .ok (n % 16 ^ width) :=
    readDigits_fixedHex (by rwa [hm])
  rw [hm] at hr
  have hmem {c : Char} (hc : c ∈ fixedHex width n) := isHexDigit_of_mem_fixedHex hc
  have hlen := fixedHex_length width n
  revert hr hmem hlen
  generalize fixedHex width n = cs
  intro hr hmem hlen
  cases cs with
  | nil => simp at hlen; omega
  | cons c cs =>
    have hc : c ≠ '+' := by
      rintro rfl
      exact absurd (hmem List.mem_cons_self) (by decide)
    rw [readNatural.eq_def]
    split
    · simp at *
    · simp_all
    · simp_all
    · exact hr

end Bookkeeping.Text
