import Bookkeeping.Proofs.Text.Digits
import Bookkeeping.Uuid.Reading

/-! An identifier is read back from its text. -/
namespace Bookkeeping

theorem Text.byteLength_of_ascii {cs : List Char} (h : ∀ c ∈ cs, c.toNat < 0x80) :
    Text.byteLength cs = cs.length := by
  have key (n : Nat) : cs.foldl (fun n c => n + Text.byteWidth c) n = n + cs.length := by
    induction cs generalizing n with
    | nil => rfl
    | cons c cs ih =>
      have hc : Text.byteWidth c = 1 := if_pos (h c List.mem_cons_self)
      rw [List.foldl_cons, ih (fun x hx => h x (List.mem_cons_of_mem _ hx)), hc, List.length_cons]
      omega
  simpa [Text.byteLength] using key 0

namespace Uuid

theorem hyphenated_of_notMem {g : List Char} (h : '-' ∉ g) : hyphenated g = [g] := by
  induction g with
  | nil => rfl
  | cons c g ih =>
    simp only [List.mem_cons, not_or] at h
    rw [hyphenated, if_neg (Ne.symm h.1), ih h.2]

theorem hyphenated_append {g : List Char} (rest : List Char) (h : '-' ∉ g) :
    hyphenated (g ++ '-' :: rest) = g :: hyphenated rest := by
  induction g with
  | nil => rfl
  | cons c g ih =>
    simp only [List.mem_cons, not_or] at h
    rw [List.cons_append, hyphenated, if_neg (Ne.symm h.1), ih h.2]

theorem strayCharacter_eq_none {cs : List Char} (i : Nat)
    (h : ∀ c ∈ cs, Text.isHexDigit c = true ∨ c = '-') : strayCharacter i cs = none := by
  induction cs generalizing i with
  | nil => rfl
  | cons c cs ih =>
    have hc : (Text.isHexDigit c || c = '-') = true := by simpa using h c List.mem_cons_self
    rw [strayCharacter, if_pos hc]
    exact ih _ fun x hx => h x (List.mem_cons_of_mem _ hx)

theorem hyphen_notMem_fixedHex (width n : Nat) : '-' ∉ Text.fixedHex width n := fun h =>
  absurd (Text.isHexDigit_of_mem_fixedHex h) (by decide)

theorem chars_eq (u : Uuid) :
    u.chars = Text.fixedHex 8 (u.value / twoTo 96) ++ '-' ::
      (Text.fixedHex 4 (u.value / twoTo 80) ++ '-' ::
        (Text.fixedHex 4 (u.value / twoTo 64) ++ '-' ::
          (Text.fixedHex 4 (u.value / twoTo 48) ++ '-' :: Text.fixedHex 12 u.value))) := by
  simp [chars, groups, List.intercalate]

theorem hyphenated_chars (u : Uuid) : hyphenated u.chars = u.groups := by
  simp only [chars_eq, hyphenated_append _ (hyphen_notMem_fixedHex _ _),
    hyphenated_of_notMem (hyphen_notMem_fixedHex _ _), groups]

theorem length_chars (u : Uuid) : u.chars.length = 36 := by
  simp [chars_eq, Text.fixedHex_length]

theorem mem_chars {u : Uuid} {c : Char} (h : c ∈ u.chars) :
    Text.isHexDigit c = true ∨ c = '-' := by
  simp only [chars_eq, List.mem_append, List.mem_cons] at h
  rcases h with h | h | h | h | h | h | h | h | h
  all_goals first
    | exact Or.inl (Text.isHexDigit_of_mem_fixedHex h)
    | exact Or.inr h

theorem byteLength_chars (u : Uuid) : Text.byteLength u.chars = 36 := by
  rw [Text.byteLength_of_ascii, length_chars]
  intro c hc
  rcases mem_chars hc with h | rfl
  · have := Text.isHexDigit_iff.1 h
    omega
  · decide

theorem flatten_groups (u : Uuid) : u.groups.flatten = Text.fixedHex 32 u.value := by
  have h₁ := Text.fixedHex_add 20 12 u.value
  have h₂ := Text.fixedHex_add 16 4 (u.value / 16 ^ 12)
  have h₃ := Text.fixedHex_add 12 4 (u.value / 16 ^ 12 / 16 ^ 4)
  have h₄ := Text.fixedHex_add 8 4 (u.value / 16 ^ 12 / 16 ^ 4 / 16 ^ 4)
  rw [Nat.add_comm] at h₁
  have e₁ : u.value / 16 ^ 12 = u.value / twoTo 48 := rfl
  have e₂ : u.value / 16 ^ 12 / 16 ^ 4 = u.value / twoTo 64 := Nat.div_div_eq_div_mul ..
  have e₃ : u.value / 16 ^ 12 / 16 ^ 4 / 16 ^ 4 = u.value / twoTo 80 := by
    rw [e₂]; exact Nat.div_div_eq_div_mul ..
  have e₄ : u.value / 16 ^ 12 / 16 ^ 4 / 16 ^ 4 / 16 ^ 4 = u.value / twoTo 96 := by
    rw [e₃]; exact Nat.div_div_eq_div_mul ..
  rw [h₁, h₂, h₃, h₄, e₄, e₃, e₂, e₁]
  simp [groups]

theorem badGroup_groups (u : Uuid) : badGroup 36 0 groupLengths u.groups = none := by
  simp [groups, groupLengths, badGroup, lastGroupStart, Text.fixedHex_length]

theorem ofChars_chars (u : Uuid) : ofChars u.chars = .ok u := by
  have hlen := byteLength_chars u
  have hview : view u.chars = ⟨u.chars, 0, true, 36⟩ := by simp [view, hlen]
  have hlong : ¬ longest < 36 := by decide
  have hvalue : ofNat (Text.hexDigitsValue u.groups.flatten) = u := by
    have hmod : u.value % 16 ^ 32 = u.value := Nat.mod_eq_of_lt u.value_lt
    have hmod' : u.value % twoTo 128 = u.value := Nat.mod_eq_of_lt u.value_lt
    rw [flatten_groups, Text.hexDigitsValue_fixedHex, hmod]
    simp only [ofNat, hmod']
  rw [ofChars, hlen, if_neg hlong]
  simp only [hview, strayCharacter_eq_none 0 fun _ hc => mem_chars hc, hyphenated_chars,
    badGroup_groups, hvalue]
  simp [groups]

end Uuid

end Bookkeeping
