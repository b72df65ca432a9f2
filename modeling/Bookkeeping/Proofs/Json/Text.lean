import Bookkeeping.Json.Text
import Bookkeeping.Proofs.Text.Digits
import Bookkeeping.Proofs.Text.Utf8

/-! A string is read back from what is written for it, wherever in a text it stands. -/
namespace Bookkeeping.Json

/-- From a text the reader makes a value and leaves the rest of it, wherever the text starts. -/
def Yields {α : Type} (r : Reader α) (cs : List Char) (a : α) (rest : List Char) : Prop :=
  ∀ p, ∃ p', r ⟨cs, p⟩ = .ok (a, ⟨rest, p'⟩)

section Readers

variable {α β : Type} {cs mid rest : List Char}

theorem Yields.pure (a : α) : Yields (pure a) cs a cs := fun p => ⟨p, rfl⟩

theorem Yields.bind {r : Reader α} {f : α → Reader β} {a : α} {b : β} (hr : Yields r cs a mid)
    (hf : Yields (f a) mid b rest) : Yields (r >>= f) cs b rest := by
  intro p
  obtain ⟨p₁, h₁⟩ := hr p
  obtain ⟨p₂, h₂⟩ := hf p₁
  refine ⟨p₂, ?_⟩
  show (r ⟨cs, p⟩ >>= fun x => f x.1 x.2) = _
  rw [h₁]
  exact h₂

theorem Yields.get_bind {f : Cursor → Reader β} {b : β}
    (h : ∀ p, Yields (f ⟨cs, p⟩) cs b rest) : Yields (get >>= f) cs b rest := fun p => h p p

theorem yields_advance (c : Char) : Yields advance (c :: cs) () cs := fun p => ⟨p.past c, rfl⟩

theorem yields_peekValue {c : Char} (h : isSpace c = false) :
    Yields peekValue (c :: cs) (some c) (c :: cs) := by
  intro p
  refine ⟨p, ?_⟩
  simp [peekValue, Cursor.pastWhile, h, Position.pastAll]

end Readers

theorem textBody_cons {c : Char} (p : Position) (cs : List Char) (hq : c ≠ '"') (hb : c ≠ '\\')
    (hc : ¬ c.toNat < 0x20) :
    textBody p (c :: cs) = (do
      let (s, tail, p') ← textBody (p.past c) cs
      .ok (c :: s, tail, p')) := by
  rw [textBody.eq_def]
  split
  · simp_all
  · simp_all
  · simp_all
  · next c' cs' _ _ h =>
    simp only [List.cons.injEq] at h
    obtain ⟨rfl, rfl⟩ := h
    rw [if_neg hc]

theorem textBody_escape {p p' : Position} {c : Char} {cs rest : List Char}
    {hr : rest.length ≤ cs.length} (h : escape (p.past '\\') cs = .ok (c, ⟨rest, hr⟩, p')) :
    textBody p ('\\' :: cs) = (do
      let (s, tail, p'') ← textBody p' rest
      .ok (c :: s, tail, p'')) := by
  rw [textBody.eq_def]
  simp only [h]

theorem escape_simple {x c : Char} (p : Position) (rest : List Char)
    (h : (x, c) ∈ [('"', '"'), ('\\', '\\'), ('b', '\x08'), ('f', '\x0c'), ('n', '\n'),
      ('r', '\r'), ('t', '\t')]) :
    ∃ hrest, escape p (x :: rest) = .ok (c, ⟨rest, hrest⟩, p.past x) := by
  simp only [List.mem_cons, Prod.mk.injEq, List.not_mem_nil, or_false] at h
  rcases h with ⟨rfl, rfl⟩ | ⟨rfl, rfl⟩ | ⟨rfl, rfl⟩ | ⟨rfl, rfl⟩ | ⟨rfl, rfl⟩ | ⟨rfl, rfl⟩ |
    ⟨rfl, rfl⟩ <;> exact ⟨_, rfl⟩

theorem hexUnit_fixedHex (p : Position) (n : Nat) (rest : List Char) :
    ∃ hrest, hexUnit p (Text.fixedHex 4 n ++ rest) =
      .ok (n % 16 ^ 4, ⟨rest, hrest⟩, ⟨p.line, p.column + 4⟩) := by
  refine ⟨by simp, ?_⟩
  have hall : (Text.fixedHex 4 n).all Text.isHexDigit = true :=
    List.all_eq_true.2 fun c hc => Text.isHexDigit_of_mem_fixedHex hc
  have hval := Text.hexDigitsValue_fixedHex 4 n
  simp only [Text.fixedHex, List.nil_append, List.cons_append] at hall hval ⊢
  simp only [hexUnit, hall, hval, if_true]

theorem escape_unit {c : Char} (p : Position) (rest : List Char) (hc : c.toNat < 0x20) :
    ∃ hrest p', escape p ('u' :: (Text.fixedHex 4 c.toNat ++ rest)) =
      .ok (c, ⟨rest, hrest⟩, p') := by
  refine ⟨by simp; omega, ?_⟩
  obtain ⟨_, hu⟩ := hexUnit_fixedHex (p.past 'u') c.toNat rest
  have hn : c.toNat % 16 ^ 4 = c.toNat := Nat.mod_eq_of_lt (by omega)
  have ht : isTrailingSurrogate c.toNat = false := by simp [isTrailingSurrogate]; omega
  have hl : isLeadingSurrogate c.toNat = false := by simp [isLeadingSurrogate]; omega
  rw [hn] at hu
  simp only [escape, hu, unitChar, ht, hl, Bool.false_eq_true, if_false, Char.ofNat_toNat]
  exact ⟨_, rfl⟩

theorem textBody_escaped (p : Position) (c : Char) (cs : List Char) :
    ∃ p', textBody p (escaped c ++ cs) = (do
      let (s, tail, p'') ← textBody p' cs
      .ok (c :: s, tail, p'')) := by
  have simple {x : Char} (h : (x, c) ∈ [('"', '"'), ('\\', '\\'), ('b', '\x08'), ('f', '\x0c'),
      ('n', '\n'), ('r', '\r'), ('t', '\t')]) :
      ∃ p', textBody p (['\\', x] ++ cs) = (do
        let (s, tail, p'') ← textBody p' cs
        .ok (c :: s, tail, p'')) := by
    obtain ⟨_, he⟩ := escape_simple (p.past '\\') cs h
    exact ⟨_, textBody_escape he⟩
  unfold escaped
  by_cases h₁ : c = '"' ∨ c = '\\'
  · rw [if_pos (by simpa using h₁)]
    rcases h₁ with rfl | rfl <;> exact simple (by decide)
  rw [if_neg (by simpa using h₁)]
  by_cases h₂ : c = '\x08'
  · rw [if_pos h₂]; subst h₂; exact simple (by decide)
  rw [if_neg h₂]
  by_cases h₃ : c = '\x0c'
  · rw [if_pos h₃]; subst h₃; exact simple (by decide)
  rw [if_neg h₃]
  by_cases h₄ : c = '\n'
  · rw [if_pos h₄]; subst h₄; exact simple (by decide)
  rw [if_neg h₄]
  by_cases h₅ : c = '\r'
  · rw [if_pos h₅]; subst h₅; exact simple (by decide)
  rw [if_neg h₅]
  by_cases h₆ : c = '\t'
  · rw [if_pos h₆]; subst h₆; exact simple (by decide)
  rw [if_neg h₆]
  rw [not_or] at h₁
  by_cases h₇ : c.toNat < 0x20
  · rw [if_pos h₇]
    obtain ⟨_, p', he⟩ := escape_unit (p.past '\\') cs h₇
    exact ⟨p', textBody_escape he⟩
  · rw [if_neg h₇]
    exact ⟨_, textBody_cons p cs h₁.1 h₁.2 h₇⟩

theorem textBody_flatMap_escaped (p : Position) (cs rest : List Char) :
    ∃ p', textBody p (cs.flatMap escaped ++ '"' :: rest) = .ok (cs, rest, p') := by
  induction cs generalizing p with
  | nil => exact ⟨p.past '"', by rw [List.flatMap_nil, List.nil_append, textBody]⟩
  | cons c cs ih =>
    rw [List.flatMap_cons, List.append_assoc]
    obtain ⟨p₁, h₁⟩ := textBody_escaped p c (cs.flatMap escaped ++ '"' :: rest)
    obtain ⟨p₂, h₂⟩ := ih p₁
    exact ⟨p₂, by rw [h₁, h₂]; rfl⟩

theorem yields_textValue (s : String) (rest : List Char) :
    Yields textValue (writeText s ++ rest) s rest := by
  intro p
  obtain ⟨p', h⟩ := textBody_flatMap_escaped (p.past '"') s.toList rest
  refine ⟨p', ?_⟩
  simp only [textValue, writeText, List.cons_append, List.append_assoc, List.tail_cons,
    List.nil_append, h, bind, Except.bind, String.ofList_toList]

theorem newline_notMem_writeText (s : String) : '\n' ∉ writeText s := by
  have hhex {n : Nat} : '\n' ∉ Text.fixedHex 4 n := fun h =>
    absurd (Text.isHexDigit_of_mem_fixedHex h) (by decide)
  have hesc (c : Char) : '\n' ∉ escaped c := by
    by_cases hc : c = '\n'
    · subst hc
      decide
    · -- what is written is the character itself, letters, and hexadecimal digits
      unfold escaped
      repeat' split
      all_goals simp [Ne.symm hc, hhex]
  simp [writeText, hesc]

end Bookkeeping.Json
