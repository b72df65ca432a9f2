import Bookkeeping.Text.Utf8

/-! Bytes that encode a text are read back as that text, and a line feed among them stands for
the character itself. -/
namespace Bookkeeping.Text

theorem toNat_range (c : Char) :
    c.toNat < 0xD800 ∨ 0xDFFF < c.toNat ∧ c.toNat < 0x110000 := c.valid

theorem ofNat_eq_of_toNat {c : Char} {n : Nat} (h : n = c.toNat) : Char.ofNat n = c := by
  rw [h]
  exact Char.ofNat_toNat c

theorem toNat_byte {n : Nat} (h : n < 256) : (UInt8.ofNat n).toNat = n := by
  rw [UInt8.toNat_ofNat']
  exact Nat.mod_eq_of_lt h

@[simp] theorem encodeChars_nil : encodeChars [] = [] := rfl

theorem encodeChars_cons (c : Char) (cs : List Char) :
    encodeChars (c :: cs) = encodeChar c ++ encodeChars cs := by
  simp [encodeChars]

theorem encodeChars_append (a b : List Char) :
    encodeChars (a ++ b) = encodeChars a ++ encodeChars b := by
  simp [encodeChars]

theorem encodeChar_ne_nil (c : Char) : encodeChar c ≠ [] := by
  unfold encodeChar
  simp only
  split
  · simp
  · split
    · simp
    · split <;> simp

section Lengths

variable {c : Char} {i : Nat} {rest : List UInt8}

theorem decodeFrom_one (h : c.toNat < 0x80) :
    decodeFrom i (UInt8.ofNat c.toNat :: rest) = (c :: ·) <$> decodeFrom (i + 1) rest := by
  have ha : (UInt8.ofNat c.toNat).toNat = c.toNat := toNat_byte (by omega)
  have h₁ : UInt8.ofNat c.toNat < 0x80 := by simp [UInt8.lt_iff_toNat_lt, ha, h]
  rw [decodeFrom.eq_def]
  simp only [h₁, if_true, ha, Char.ofNat_toNat]

theorem decodeFrom_two (h : 0x80 ≤ c.toNat) (h' : c.toNat < 0x800) :
    decodeFrom i (UInt8.ofNat (0xC0 + c.toNat / 64) :: UInt8.ofNat (0x80 + c.toNat % 64) :: rest) =
      (c :: ·) <$> decodeFrom (i + 2) rest := by
  have ha : (UInt8.ofNat (0xC0 + c.toNat / 64)).toNat = 0xC0 + c.toNat / 64 :=
    toNat_byte (by omega)
  have hb : (UInt8.ofNat (0x80 + c.toNat % 64)).toNat = 0x80 + c.toNat % 64 :=
    toNat_byte (by omega)
  generalize UInt8.ofNat (0xC0 + c.toNat / 64) = a at ha ⊢
  generalize UInt8.ofNat (0x80 + c.toNat % 64) = b at hb ⊢
  have h₁ : ¬ a < 0x80 := by simp [UInt8.lt_iff_toNat_lt, ha]; omega
  have h₂ : (0xC2 ≤ a && a ≤ 0xDF) = true := by simp [UInt8.le_iff_toNat_le, ha]; omega
  have h₃ : isTail b = true := by simp [isTail, UInt8.le_iff_toNat_le, hb]; omega
  have hc : twoByteChar a b = c := ofNat_eq_of_toNat (by omega)
  rw [decodeFrom.eq_def]
  simp only [h₁, h₂, h₃, if_true, if_false, hc]

theorem decodeFrom_three (h : 0x800 ≤ c.toNat) (h' : c.toNat < 0x10000) :
    decodeFrom i (UInt8.ofNat (0xE0 + c.toNat / 4096) :: UInt8.ofNat (0x80 + c.toNat / 64 % 64) ::
      UInt8.ofNat (0x80 + c.toNat % 64) :: rest) = (c :: ·) <$> decodeFrom (i + 3) rest := by
  have hr := toNat_range c
  have ha : (UInt8.ofNat (0xE0 + c.toNat / 4096)).toNat = 0xE0 + c.toNat / 4096 :=
    toNat_byte (by omega)
  have hb : (UInt8.ofNat (0x80 + c.toNat / 64 % 64)).toNat = 0x80 + c.toNat / 64 % 64 :=
    toNat_byte (by omega)
  have hd : (UInt8.ofNat (0x80 + c.toNat % 64)).toNat = 0x80 + c.toNat % 64 :=
    toNat_byte (by omega)
  generalize UInt8.ofNat (0xE0 + c.toNat / 4096) = a at ha ⊢
  generalize UInt8.ofNat (0x80 + c.toNat / 64 % 64) = b at hb ⊢
  generalize UInt8.ofNat (0x80 + c.toNat % 64) = d at hd ⊢
  have h₁ : ¬ a < 0x80 := by simp [UInt8.lt_iff_toNat_lt, ha]; omega
  have h₂ : ¬ (0xC2 ≤ a && a ≤ 0xDF) = true := by simp [UInt8.le_iff_toNat_le, ha]; omega
  have h₃ : (0xE0 ≤ a && a ≤ 0xEF) = true := by simp [UInt8.le_iff_toNat_le, ha]; omega
  have h₄ : secondOfThree a b = true := by
    simp only [secondOfThree, isTail, beq_iff_eq, ← UInt8.toNat_inj]
    split
    · simp_all [UInt8.le_iff_toNat_le]; omega
    · split <;> simp_all [UInt8.le_iff_toNat_le] <;> omega
  have h₅ : isTail d = true := by simp [isTail, UInt8.le_iff_toNat_le, hd]; omega
  have hc : threeByteChar a b d = c := ofNat_eq_of_toNat (by omega)
  rw [decodeFrom.eq_def]
  simp only [h₁, h₂, h₃, h₄, h₅, if_true, if_false, Bool.not_true, Bool.false_eq_true, hc]

theorem decodeFrom_four (h : 0x10000 ≤ c.toNat) :
    decodeFrom i (UInt8.ofNat (0xF0 + c.toNat / 262144) ::
      UInt8.ofNat (0x80 + c.toNat / 4096 % 64) :: UInt8.ofNat (0x80 + c.toNat / 64 % 64) ::
      UInt8.ofNat (0x80 + c.toNat % 64) :: rest) = (c :: ·) <$> decodeFrom (i + 4) rest := by
  have hr := toNat_range c
  have ha : (UInt8.ofNat (0xF0 + c.toNat / 262144)).toNat = 0xF0 + c.toNat / 262144 :=
    toNat_byte (by omega)
  have hb : (UInt8.ofNat (0x80 + c.toNat / 4096 % 64)).toNat = 0x80 + c.toNat / 4096 % 64 :=
    toNat_byte (by omega)
  have hd : (UInt8.ofNat (0x80 + c.toNat / 64 % 64)).toNat = 0x80 + c.toNat / 64 % 64 :=
    toNat_byte (by omega)
  have he : (UInt8.ofNat (0x80 + c.toNat % 64)).toNat = 0x80 + c.toNat % 64 :=
    toNat_byte (by omega)
  generalize UInt8.ofNat (0xF0 + c.toNat / 262144) = a at ha ⊢
  generalize UInt8.ofNat (0x80 + c.toNat / 4096 % 64) = b at hb ⊢
  generalize UInt8.ofNat (0x80 + c.toNat / 64 % 64) = d at hd ⊢
  generalize UInt8.ofNat (0x80 + c.toNat % 64) = e at he ⊢
  have h₁ : ¬ a < 0x80 := by simp [UInt8.lt_iff_toNat_lt, ha]; omega
  have h₂ : ¬ (0xC2 ≤ a && a ≤ 0xDF) = true := by simp [UInt8.le_iff_toNat_le, ha]; omega
  have h₃ : ¬ (0xE0 ≤ a && a ≤ 0xEF) = true := by simp [UInt8.le_iff_toNat_le, ha]; omega
  have h₄ : (0xF0 ≤ a && a ≤ 0xF4) = true := by simp [UInt8.le_iff_toNat_le, ha]; omega
  have h₅ : secondOfFour a b = true := by
    simp only [secondOfFour, isTail, beq_iff_eq, ← UInt8.toNat_inj]
    split
    · simp_all [UInt8.le_iff_toNat_le]; omega
    · split <;> simp_all [UInt8.le_iff_toNat_le] <;> omega
  have h₆ : isTail d = true := by simp [isTail, UInt8.le_iff_toNat_le, hd]; omega
  have h₇ : isTail e = true := by simp [isTail, UInt8.le_iff_toNat_le, he]; omega
  have hc : fourByteChar a b d e = c := ofNat_eq_of_toNat (by omega)
  rw [decodeFrom.eq_def]
  simp only [h₁, h₂, h₃, h₄, h₅, h₆, h₇, if_true, if_false, Bool.not_true, Bool.false_eq_true, hc]

end Lengths

theorem decodeFrom_encodeChar (c : Char) (i : Nat) (rest : List UInt8) :
    decodeFrom i (encodeChar c ++ rest) = (c :: ·) <$> decodeFrom (i + byteWidth c) rest := by
  unfold encodeChar byteWidth
  by_cases h₁ : c.toNat < 0x80
  · simpa [h₁] using decodeFrom_one h₁
  by_cases h₂ : c.toNat < 0x800
  · simpa [h₁, h₂] using decodeFrom_two (by omega) h₂
  by_cases h₃ : c.toNat < 0x10000
  · simpa [h₁, h₂, h₃] using decodeFrom_three (by omega) h₃
  · simpa [h₁, h₂, h₃] using decodeFrom_four (by omega)

theorem decodeFrom_encodeChars (cs : List Char) (i : Nat) :
    decodeFrom i (encodeChars cs) = .ok cs := by
  induction cs generalizing i with
  | nil => rfl
  | cons c cs ih =>
    rw [encodeChars_cons, decodeFrom_encodeChar, ih]
    rfl

theorem decodeChars_encodeChars (cs : List Char) : decodeChars (encodeChars cs) = .ok cs :=
  decodeFrom_encodeChars cs 0

theorem encodeChars_inj {a b : List Char} (h : encodeChars a = encodeChars b) : a = b := by
  have hread := decodeChars_encodeChars a
  rw [h, decodeChars_encodeChars] at hread
  exact (Except.ok.inj hread).symm

theorem mem_encodeChar_ascii {b : UInt8} {c : Char} (hb : b.toNat < 0x80) :
    b ∈ encodeChar c ↔ c.toNat = b.toNat := by
  have hr := toNat_range c
  unfold encodeChar
  simp only
  split
  · rw [List.mem_singleton, ← UInt8.toNat_inj, toNat_byte (by omega)]
    exact eq_comm
  split
  · simp only [List.mem_cons, List.not_mem_nil, ← UInt8.toNat_inj, UInt8.toNat_ofNat', or_false]
    omega
  split
  · simp only [List.mem_cons, List.not_mem_nil, ← UInt8.toNat_inj, UInt8.toNat_ofNat', or_false]
    omega
  · simp only [List.mem_cons, List.not_mem_nil, ← UInt8.toNat_inj, UInt8.toNat_ofNat', or_false]
    omega

theorem mem_encodeChars_ascii {b : UInt8} {cs : List Char} (hb : b.toNat < 0x80) :
    b ∈ encodeChars cs ↔ ∃ c ∈ cs, c.toNat = b.toNat := by
  simp only [encodeChars, List.mem_flatMap, mem_encodeChar_ascii hb]

theorem byte_mem_encodeChars {c : Char} {cs : List Char} (hc : c.toNat < 0x80) :
    UInt8.ofNat c.toNat ∈ encodeChars cs ↔ c ∈ cs := by
  have hbyte : (UInt8.ofNat c.toNat).toNat = c.toNat := toNat_byte (by omega)
  rw [mem_encodeChars_ascii (by omega)]
  simp only [hbyte, Char.toNat_inj, exists_eq_right]

theorem toNat_ofNat {n : Nat} (h : n < 0xD800 ∨ 0xDFFF < n ∧ n < 0x110000) :
    (Char.ofNat n).toNat = n := by
  have hvalid : n.isValidChar := h
  rw [Char.ofNat, dif_pos hvalid]
  rfl

theorem ofNat_eq_byte {b : UInt8} {n : Nat} (h : n = b.toNat) : UInt8.ofNat n = b := by
  rw [h]
  exact UInt8.ofNat_toNat

section Sequences

variable {a b c d : UInt8}

theorem toNat_of_isTail (h : isTail b = true) : 0x80 ≤ b.toNat ∧ b.toNat ≤ 0xBF := by
  simpa [isTail, UInt8.le_iff_toNat_le] using h

theorem encodeChar_one (ha : a < 0x80) : encodeChar (Char.ofNat a.toNat) = [a] := by
  have ha' : a.toNat < 0x80 := ha
  have hn : (Char.ofNat a.toNat).toNat = a.toNat := toNat_ofNat (by omega)
  simp [encodeChar, hn, ha']

theorem encodeChar_two (ha : (0xC2 ≤ a && a ≤ 0xDF) = true) (hb : isTail b = true) :
    encodeChar (twoByteChar a b) = [a, b] := by
  have ha' : 0xC2 ≤ a.toNat ∧ a.toNat ≤ 0xDF := by simpa [UInt8.le_iff_toNat_le] using ha
  have hb' := toNat_of_isTail hb
  have hn : (twoByteChar a b).toNat = (a.toNat - 0xC0) * 64 + (b.toNat - 0x80) :=
    toNat_ofNat (by omega)
  have h₁ : ¬(twoByteChar a b).toNat < 0x80 := by omega
  have h₂ : (twoByteChar a b).toNat < 0x800 := by omega
  simp only [encodeChar, h₁, h₂, if_true, if_false]
  rw [hn, ofNat_eq_byte (b := a) (by omega), ofNat_eq_byte (b := b) (by omega)]

/-- The second byte of three keeps the character above two bytes and off the surrogates. -/
theorem toNat_of_secondOfThree (ha : (0xE0 ≤ a && a ≤ 0xEF) = true)
    (hb : secondOfThree a b = true) :
    0xE0 ≤ a.toNat ∧ a.toNat ≤ 0xEF ∧ 0x80 ≤ b.toNat ∧ b.toNat ≤ 0xBF ∧
      (a.toNat = 0xE0 → 0xA0 ≤ b.toNat) ∧ (a.toNat = 0xED → b.toNat ≤ 0x9F) := by
  have ha' : 0xE0 ≤ a.toNat ∧ a.toNat ≤ 0xEF := by simpa [UInt8.le_iff_toNat_le] using ha
  simp only [secondOfThree, isTail, beq_iff_eq, ← UInt8.toNat_inj] at hb
  split at hb
  · simp [UInt8.le_iff_toNat_le] at *; omega
  · split at hb <;> simp [UInt8.le_iff_toNat_le] at * <;> omega

theorem encodeChar_three (ha : (0xE0 ≤ a && a ≤ 0xEF) = true) (hb : secondOfThree a b = true)
    (hc : isTail c = true) : encodeChar (threeByteChar a b c) = [a, b, c] := by
  obtain ⟨ha₁, ha₂, hb₁, hb₂, hlow, hsurrogate⟩ := toNat_of_secondOfThree ha hb
  have hc' := toNat_of_isTail hc
  have hn : (threeByteChar a b c).toNat =
      (a.toNat - 0xE0) * 4096 + (b.toNat - 0x80) * 64 + (c.toNat - 0x80) := toNat_ofNat (by omega)
  have h₁ : ¬(threeByteChar a b c).toNat < 0x80 := by omega
  have h₂ : ¬(threeByteChar a b c).toNat < 0x800 := by omega
  have h₃ : (threeByteChar a b c).toNat < 0x10000 := by omega
  simp only [encodeChar, h₁, h₂, h₃, if_true, if_false]
  rw [hn, ofNat_eq_byte (b := a) (by omega), ofNat_eq_byte (b := b) (by omega),
    ofNat_eq_byte (b := c) (by omega)]

/-- The second byte of four keeps the character above three bytes and within the code points. -/
theorem toNat_of_secondOfFour (ha : (0xF0 ≤ a && a ≤ 0xF4) = true) (hb : secondOfFour a b = true) :
    0xF0 ≤ a.toNat ∧ a.toNat ≤ 0xF4 ∧ 0x80 ≤ b.toNat ∧ b.toNat ≤ 0xBF ∧
      (a.toNat = 0xF0 → 0x90 ≤ b.toNat) ∧ (a.toNat = 0xF4 → b.toNat ≤ 0x8F) := by
  have ha' : 0xF0 ≤ a.toNat ∧ a.toNat ≤ 0xF4 := by simpa [UInt8.le_iff_toNat_le] using ha
  simp only [secondOfFour, isTail, beq_iff_eq, ← UInt8.toNat_inj] at hb
  split at hb
  · simp [UInt8.le_iff_toNat_le] at *; omega
  · split at hb <;> simp [UInt8.le_iff_toNat_le] at * <;> omega

theorem encodeChar_four (ha : (0xF0 ≤ a && a ≤ 0xF4) = true) (hb : secondOfFour a b = true)
    (hc : isTail c = true) (hd : isTail d = true) :
    encodeChar (fourByteChar a b c d) = [a, b, c, d] := by
  obtain ⟨ha₁, ha₂, hb₁, hb₂, hlow, hhigh⟩ := toNat_of_secondOfFour ha hb
  have hc' := toNat_of_isTail hc
  have hd' := toNat_of_isTail hd
  have hn : (fourByteChar a b c d).toNat = (a.toNat - 0xF0) * 262144 + (b.toNat - 0x80) * 4096 +
      (c.toNat - 0x80) * 64 + (d.toNat - 0x80) := toNat_ofNat (by omega)
  have h₁ : ¬(fourByteChar a b c d).toNat < 0x80 := by omega
  have h₂ : ¬(fourByteChar a b c d).toNat < 0x800 := by omega
  have h₃ : ¬(fourByteChar a b c d).toNat < 0x10000 := by omega
  simp only [encodeChar, h₁, h₂, h₃, if_false]
  rw [hn, ofNat_eq_byte (b := a) (by omega), ofNat_eq_byte (b := b) (by omega),
    ofNat_eq_byte (b := c) (by omega), ofNat_eq_byte (b := d) (by omega)]

end Sequences

theorem encodeChars_of_map {c : Char} {cs : List Char} {bytes rest : List UInt8}
    {read : Except BadSequence (List Char)} (h : (c :: ·) <$> read = .ok cs)
    (hc : encodeChar c = bytes) (hread : ∀ cs, read = .ok cs → encodeChars cs = rest) :
    encodeChars cs = bytes ++ rest := by
  cases read with
  | error e => cases h
  | ok cs' =>
    cases h
    rw [encodeChars_cons, hc, hread cs' rfl]

theorem encodeChars_of_decodeFrom {i : Nat} {bytes : List UInt8} {cs : List Char}
    (h : decodeFrom i bytes = .ok cs) : encodeChars cs = bytes := by
  -- one case for each width of a sequence; in the others reading fails
  fun_induction decodeFrom i bytes generalizing cs with
  | case1 => cases h; rfl
  | case2 i a rest ha ih => exact encodeChars_of_map h (encodeChar_one ha) fun _ => ih
  | case4 i a ha₁ ha₂ b rest hb ih => exact encodeChars_of_map h (encodeChar_two ha₂ hb) fun _ => ih
  | case10 i a ha₁ ha₂ ha₃ b c rest hb hc ih =>
    exact encodeChars_of_map h (encodeChar_three ha₃ (by simpa using hb) (by simpa using hc))
      fun _ => ih
  | case17 i a ha₁ ha₂ ha₃ ha₄ b c d rest hb hc hd ih =>
    exact encodeChars_of_map h (encodeChar_four ha₄ (by simpa using hb) (by simpa using hc)
      (by simpa using hd)) fun _ => ih
  | _ => cases h

theorem exists_of_decodeFrom_append {a b : List Char} {i : Nat} {rest : List UInt8}
    (h : decodeFrom i (encodeChars a ++ rest) = .ok b) :
    ∃ j c, decodeFrom j rest = .ok c ∧ b = a ++ c := by
  induction a generalizing i b with
  | nil => exact ⟨i, b, h, rfl⟩
  | cons x a ih =>
    rw [encodeChars_cons, List.append_assoc, decodeFrom_encodeChar] at h
    cases hread : decodeFrom (i + byteWidth x) (encodeChars a ++ rest) with
    | error e => rw [hread] at h; cases h
    | ok b' =>
      rw [hread] at h
      cases h
      obtain ⟨j, c, hc, rfl⟩ := ih hread
      exact ⟨j, c, hc, rfl⟩

theorem encodeChars_of_decodeChars {bytes : List UInt8} {cs : List Char}
    (h : decodeChars bytes = .ok cs) : encodeChars cs = bytes := encodeChars_of_decodeFrom h

/-- Bytes that go on after those of a text encode a text that goes on after it. -/
theorem exists_of_encodeChars_append {a b : List Char} {rest : List UInt8}
    (h : encodeChars b = encodeChars a ++ rest) : ∃ c, b = a ++ c ∧ encodeChars c = rest := by
  have hb := decodeChars_encodeChars b
  rw [h] at hb
  obtain ⟨j, c, hc, rfl⟩ := exists_of_decodeFrom_append hb
  exact ⟨c, rfl, encodeChars_of_decodeFrom hc⟩

end Bookkeeping.Text
