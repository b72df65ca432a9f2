import Bookkeeping.Proofs.Json.Pieces

/-! Where in a text the values stand that are read from it. A reader that is anywhere in a text
leaves an end of it, so what a record was made of was read at places of its own text. -/
namespace Bookkeeping.Json

/-- From a place with one property the reader, unless it refuses the text, makes a value and comes
to a place, of which another property holds. -/
def Meets {α : Type} (P : Cursor → Prop) (r : Reader α) (Q : α → Cursor → Prop) : Prop :=
  ∀ c a c', P c → r c = .ok (a, c') → Q a c'

section Rules

variable {α β : Type} {P P' : Cursor → Prop} {Q Q' : α → Cursor → Prop} {R : β → Cursor → Prop}
  {r : Reader α} {f : α → Reader β}

theorem Meets.bind (hr : Meets P r Q) (hf : ∀ a, Meets (Q a) (f a) R) : Meets P (r >>= f) R := by
  intro c b c' hc h
  change (r c >>= fun x => f x.1 x.2) = _ at h
  cases hx : r c with
  | error fault =>
    rw [hx] at h
    cases h
  | ok x =>
    rw [hx] at h
    exact hf x.1 x.2 b c' (hr c x.1 x.2 hc hx) h

theorem Meets.get_bind {f : Cursor → Reader β} (h : ∀ c, Meets P (f c) R) :
    Meets P (get >>= f) R := fun c b c' hc hget => h c c b c' hc hget

theorem Meets.pure {a : α} (h : ∀ c, P c → Q a c) : Meets P (pure a) Q := by
  rintro c _ _ hc ⟨⟩
  exact h c hc

theorem Meets.mono (hr : Meets P r Q) (hP : ∀ c, P' c → P c)
    (hQ : ∀ a c, Q a c → Q' a c) : Meets P' r Q' :=
  fun c a c' hc h => hQ a c' (hr c a c' (hP c hc) h)

theorem Meets.of_refuses (h : ∀ cs, Refuses r cs) : Meets P r Q := by
  intro c a c' hc hr
  obtain ⟨fault, hfault⟩ := h c.rest c.position
  rw [hfault] at hr
  cases hr

theorem Meets.of_and {p : Prop} (h : p → Meets P r Q) : Meets (fun c => P c ∧ p) r Q :=
  fun c a c' hc => h hc.2 c a c' hc.1

theorem Meets.forget {p : Prop} (r : Reader α) (h : ∀ c, P c → p) :
    Meets P r fun _ _ => p := fun c _ _ hc _ => h c hc

theorem meets_fail (cause : Cause) : Meets P (fail cause : Reader α) Q :=
  .of_refuses (refuses_fail cause)

theorem meets_failNext (cause : Cause) : Meets P (failNext cause : Reader α) Q :=
  .of_refuses (refuses_failNext cause)

end Rules

/-- From an end of a text the reader leaves an end of it. -/
abbrev Keeps {α : Type} (cs : List Char) (r : Reader α) : Prop :=
  Meets (·.rest <:+ cs) r fun _ c => c.rest <:+ cs

section Readers

variable {α β : Type} {cs : List Char} {r : Reader α} {f : α → Reader β}

theorem Keeps.bind {R : β → Cursor → Prop} (hr : Keeps cs r)
    (hf : ∀ a, Meets (·.rest <:+ cs) (f a) R) : Meets (·.rest <:+ cs) (r >>= f) R := Meets.bind hr hf

theorem keeps_pure (a : α) : Keeps cs (pure a : Reader α) := .pure fun _ => id

theorem keeps_fail (cause : Cause) : Keeps cs (fail cause : Reader α) := meets_fail cause

theorem keeps_failNext (cause : Cause) : Keeps cs (failNext cause : Reader α) :=
  meets_failNext cause

theorem keeps_of_suffix (h : ∀ c a c', r c = .ok (a, c') → c'.rest <:+ c.rest) : Keeps cs r :=
  fun c a c' hc hr => (h c a c' hr).trans hc

theorem keeps_peek : Keeps cs peek := by
  rintro c _ _ hc ⟨⟩
  exact hc

theorem keeps_peekValue : Keeps cs peekValue := by
  rintro c _ _ hc ⟨⟩
  exact (List.dropWhile_suffix _).trans hc

theorem meets_peekValue (c : Cursor) :
    Meets (· = c) peekValue fun x c' => c' = c.pastWhile isSpace ∧ x = c'.rest.head? := by
  rintro _ _ _ rfl ⟨⟩
  exact ⟨rfl, rfl⟩

theorem keeps_advance : Keeps cs advance := by
  refine keeps_of_suffix fun c a c' h => ?_
  obtain ⟨rest, position⟩ := c
  cases rest with
  | nil =>
    cases h
    exact List.suffix_rfl
  | cons x rest =>
    cases h
    exact List.suffix_cons x rest

theorem keeps_digits : Keeps cs digits := by
  refine keeps_of_suffix fun c a c' h => ?_
  cases h
  exact List.dropWhile_suffix _

theorem keeps_word (xs : List Char) : Keeps cs (word xs) := by
  induction xs with
  | nil => exact keeps_pure ()
  | cons x xs ih =>
    refine keeps_peek.bind fun next => ?_
    split
    · exact keeps_fail _
    · split
      · exact keeps_advance.bind fun _ => ih
      · exact keeps_failNext _

end Readers

theorem exists_of_bind {ε α β : Type} {x : Except ε α} {f : α → Except ε β} {b : β}
    (h : x >>= f = .ok b) : ∃ a, x = .ok a ∧ f a = .ok b := by
  cases x with
  | error e => cases h
  | ok a => exact ⟨a, rfl, h⟩

theorem hexUnit_suffix {p p' : Position} {cs rest : List Char} {n : Nat}
    {h : rest.length ≤ cs.length} (hunit : hexUnit p cs = .ok (n, ⟨rest, h⟩, p')) :
    rest <:+ cs := by
  unfold hexUnit at hunit
  split at hunit
  · next a b c d rest' =>
    split at hunit
    · cases hunit
      exact ⟨[a, b, c, d], rfl⟩
    · cases hunit
  · split at hunit <;> cases hunit

theorem unitChar_suffix {p p' : Position} {cs rest : List Char} {n : Nat} {c : Char}
    {h : rest.length ≤ cs.length} (hchar : unitChar p n cs = .ok (c, ⟨rest, h⟩, p')) :
    rest <:+ cs := by
  unfold unitChar at hchar
  split at hchar
  · cases hchar
  split at hchar
  · split at hchar
    · next rest' =>
      split at hchar
      · cases hchar
      · next hunit =>
        split at hchar
        · simp only [Except.ok.injEq, Prod.mk.injEq, Subtype.mk.injEq] at hchar
          obtain ⟨-, rfl, -⟩ := hchar
          exact (hexUnit_suffix hunit).trans ⟨['\\', 'u'], rfl⟩
        · cases hchar
    all_goals cases hchar
  · cases hchar
    exact List.suffix_rfl

theorem escape_suffix {p p' : Position} {cs rest : List Char} {c : Char}
    {h : rest.length ≤ cs.length} (hescape : escape p cs = .ok (c, ⟨rest, h⟩, p')) :
    rest <:+ cs := by
  unfold escape at hescape
  split at hescape
  · cases hescape
  · next rest' =>
    split at hescape
    · cases hescape
    · next hunit =>
      split at hescape
      · cases hescape
      · next hchar =>
        cases hescape
        exact ((unitChar_suffix hchar).trans (hexUnit_suffix hunit)).trans (List.suffix_cons ..)
  · next x rest' _ =>
    split at hescape <;> cases hescape <;> exact List.suffix_cons ..

theorem textBody_suffix {p p' : Position} {cs s rest : List Char}
    (h : textBody p cs = .ok (s, rest, p')) : rest <:+ cs := by
  fun_induction textBody p cs generalizing s with
  | case1 p => cases h
  | case2 p rest' =>
    cases h
    exact List.suffix_cons ..
  | case3 p rest' fault hescape => cases h
  | case4 p rest' c rest'' hle p'' hescape ih =>
    obtain ⟨⟨s', tail, q⟩, hbody, hs⟩ := exists_of_bind h
    cases hs
    exact ((ih hbody).trans (escape_suffix hescape)).trans (List.suffix_cons ..)
  | case5 p c rest' _ _ hlow => cases h
  | case6 p c rest' _ _ hhigh ih =>
    obtain ⟨⟨s', tail, q⟩, hbody, hs⟩ := exists_of_bind h
    cases hs
    exact (ih hbody).trans (List.suffix_cons ..)

theorem skipBody_suffix {p p' : Position} {cs rest : List Char}
    (h : skipBody p cs = .ok (rest, p')) : rest <:+ cs := by
  fun_induction skipBody p cs with
  | case1 p => cases h
  | case2 p rest' =>
    cases h
    exact List.suffix_cons ..
  | case3 p rest' fault hunit => cases h
  | case4 p rest' n rest'' hle p'' hunit ih =>
    exact ((ih h).trans (hexUnit_suffix hunit)).trans ⟨['\\', 'u'], rfl⟩
  | case5 p => cases h
  | case6 p x rest' _ hsimple ih => exact (ih h).trans ⟨['\\', x], rfl⟩
  | case7 p x rest' _ hsimple => cases h
  | case8 p c rest' _ _ _ _ hlow => cases h
  | case9 p c rest' _ _ _ _ hhigh ih => exact (ih h).trans (List.suffix_cons ..)

section Values

variable {cs : List Char}

theorem keeps_textValue : Keeps cs textValue := by
  refine keeps_of_suffix fun c s c' h => ?_
  obtain ⟨⟨s', rest, p⟩, hbody, hs⟩ := exists_of_bind h
  cases hs
  exact (textBody_suffix hbody).trans (List.tail_suffix _)

theorem keeps_skipText : Keeps cs skipText := by
  refine keeps_of_suffix fun c s c' h => ?_
  obtain ⟨⟨rest, p⟩, hbody, hs⟩ := exists_of_bind h
  cases hs
  exact (skipBody_suffix hbody).trans (List.tail_suffix _)

theorem keeps_discard {α : Type} {r : Reader α} (hr : Keeps cs r) : Keeps cs (discard r) := by
  intro c a c' hc h
  obtain ⟨x, hx, hc'⟩ := exists_of_bind (x := r c) h
  cases hc'
  exact hr c x.1 x.2 hc hx

theorem keeps_skipNumber : Keeps cs skipNumber := by
  unfold skipNumber
  extract_lets unsigned exponent tail
  have hunsigned (u : Unit) : Keeps cs (unsigned u) := by
    refine keeps_peek.bind fun next => ?_
    split
    · split
      · exact keeps_discard keeps_digits
      · exact keeps_failNext _
    · exact keeps_fail _
  have hexponent : Keeps cs exponent := by
    refine keeps_advance.bind fun _ => keeps_peek.bind fun next => ?_
    split
    · exact keeps_advance.bind hunsigned
    · exact keeps_advance.bind hunsigned
    · exact hunsigned ()
  have htail : Keeps cs tail := by
    refine keeps_peek.bind fun next => ?_
    split
    · refine keeps_advance.bind fun _ => keeps_digits.bind fun ds => ?_
      split
      · exact keeps_failNext _
      · refine keeps_peek.bind fun next => ?_
        split
        · exact hexponent
        · exact hexponent
        · exact keeps_pure ()
    · exact hexponent
    · exact hexponent
    · exact keeps_pure ()
  refine keeps_peek.bind fun next => ?_
  split
  · exact keeps_fail _
  · split
    · exact keeps_failNext _
    · split
      · refine keeps_advance.bind fun _ => keeps_peek.bind fun next => ?_
        split
        · split
          · exact keeps_failNext _
          · exact htail
        · exact htail
      · exact (keeps_discard keeps_digits).bind fun _ => htail

section SkipOpen

variable {n : Nat} (ih : ∀ stack next, Keeps cs (skipOpen n stack next))
include ih

theorem keeps_skipOpen_value (stack : List Bool) :
    Keeps cs (skipOpen (n + 1) stack .value) := by
  unfold skipOpen
  extract_lets afterScalar
  have hafter : Keeps cs afterScalar := by
    unfold afterScalar
    split
    · exact keeps_pure ()
    · exact ih stack .commaOrClose
  have hword (w : String) : Keeps cs (do advance; word w.toList; afterScalar) :=
    keeps_advance.bind fun _ => (keeps_word _).bind fun _ => hafter
  refine keeps_peekValue.bind fun x => ?_
  split
  · exact keeps_failNext _
  · exact hword _
  · exact hword _
  · exact hword _
  · exact keeps_advance.bind fun _ => keeps_skipNumber.bind fun _ => hafter
  · exact keeps_skipText.bind fun _ => hafter
  · exact keeps_advance.bind fun _ => ih (true :: stack) .firstOrClose
  · exact keeps_advance.bind fun _ => ih (false :: stack) .firstOrClose
  · split
    · exact keeps_skipNumber.bind fun _ => hafter
    · exact keeps_failNext _

theorem keeps_skipOpen_nested (stack : List Bool) {next : Expectation}
    (hnext : next = .value → False) : Keeps cs (skipOpen (n + 1) stack next) := by
  rw [skipOpen.eq_3 _ _ _ hnext]
  extract_lets value colon
  have hcolon (u : Unit) : Keeps cs (colon u) := by
    refine keeps_peekValue.bind fun x => ?_
    split
    · exact (keeps_failNext _).bind fun _ => ih stack .value
    · exact keeps_advance.bind fun _ => ih stack .value
    · exact (keeps_failNext _).bind fun _ => ih stack .value
  have hmember {key : Option Char → Reader Unit} (hkey : ∀ x, Keeps cs (key x)) :
      Keeps cs (if stack.head? = some false then peekValue >>= key else value ()) := by
    split
    · exact keeps_peekValue.bind hkey
    · exact ih stack .value
  generalize (if stack.head? = some true then ']' else '}') = closing
  refine keeps_peekValue.bind fun x => ?_
  split
  · exact keeps_failNext _
  · split
    · refine keeps_advance.bind fun _ => ?_
      split
      · exact keeps_pure ()
      · exact ih stack.tail .commaOrClose
    · split
      · split
        · refine keeps_advance.bind fun _ => hmember fun x => ?_
          split
          · exact (keeps_failNext _).bind hcolon
          · exact keeps_skipText.bind hcolon
          · exact (keeps_failNext _).bind hcolon
        · exact keeps_failNext _
      · refine hmember fun x => ?_
        split
        · exact (keeps_failNext _).bind hcolon
        · exact keeps_skipText.bind hcolon
        · exact (keeps_failNext _).bind hcolon

end SkipOpen

theorem keeps_skipOpen (n : Nat) (stack : List Bool) (next : Expectation) :
    Keeps cs (skipOpen n stack next) := by
  induction n generalizing stack next with
  | zero => exact keeps_fail _
  | succ n ih =>
    cases next with
    | value => exact keeps_skipOpen_value ih stack
    | firstOrClose => exact keeps_skipOpen_nested ih stack nofun
    | commaOrClose => exact keeps_skipOpen_nested ih stack nofun

theorem keeps_skipValue : Keeps cs skipValue := Meets.get_bind fun _ => keeps_skipOpen _ _ _

theorem keeps_textField (expected : String) : Keeps cs (textField expected) := by
  refine keeps_peekValue.bind fun x => ?_
  split
  · exact keeps_failNext _
  · exact keeps_textValue
  · exact .of_refuses (refuses_wrongKind _ _)

theorem keeps_spelled {α : Type} (expected : String) (read : String → Except String α) :
    Keeps cs (spelled expected read) := by
  refine (keeps_textField expected).bind fun s => ?_
  split
  · exact keeps_pure _
  · exact keeps_fail _

/-- After white space a string stands between two places. -/
def Spells (c : Cursor) (s : String) (c' : Cursor) : Prop :=
  (c.pastWhile isSpace).rest.head? = some '"' ∧ textValue (c.pastWhile isSpace) = .ok (s, c')

/-- The reader makes a number that is no zero with a minus sign, and leaves an end of the text. -/
abbrev MakesNumber (cs : List Char) (r : Reader Number) : Prop :=
  Meets (·.rest <:+ cs) r fun n c => c.rest <:+ cs ∧ n ≠ .negative 0

theorem makesNumber_realNumber (negative : Bool) (word : Nat) (exponent : Int) :
    MakesNumber cs (realNumber negative word exponent) := by
  unfold realNumber
  split
  · exact .pure fun rest h => ⟨h, by simp⟩
  · exact meets_fail _

theorem makesNumber_exponentPart (negative : Bool) (word : Nat) (exponent : Int) :
    MakesNumber cs (exponentPart negative word exponent) := by
  unfold exponentPart
  refine keeps_advance.bind fun _ => keeps_peek.bind fun sign => ?_
  refine keeps_peek.bind fun sign' => ?_
  extract_lets unsigned
  have hunsigned (u : Unit) : MakesNumber cs (unsigned u) := by
    refine keeps_peek.bind fun next => ?_
    split
    · exact meets_fail _
    · split
      · exact meets_failNext _
      · refine Meets.get_bind fun start => keeps_digits.bind fun ds => ?_
        split
        · exact makesNumber_realNumber _ _ _
        · split
          · exact .of_refuses (refuses_bind_of_forall fun _ => refuses_fail _)
          · exact .pure fun rest h => ⟨h, by simp⟩
  split
  · exact keeps_advance.bind hunsigned
  · exact hunsigned ()

theorem makesNumber_numberTail (negative : Bool) (word surplus : Nat) :
    MakesNumber cs (numberTail negative word surplus) := by
  unfold numberTail
  refine keeps_peek.bind fun x => ?_
  split
  · refine keeps_advance.bind fun _ => keeps_digits.bind fun ds => ?_
    dsimp only
    split
    · refine keeps_peek.bind fun next => ?_
      split
      · exact meets_fail _
      · exact meets_failNext _
    · refine keeps_peek.bind fun next => ?_
      split
      · exact makesNumber_exponentPart _ _ _
      · exact makesNumber_exponentPart _ _ _
      · exact makesNumber_realNumber _ _ _
  · exact makesNumber_exponentPart _ _ _
  · exact makesNumber_exponentPart _ _ _
  · split
    · exact makesNumber_realNumber _ _ _
    · split
      · exact .pure fun rest h => ⟨h, by simp⟩
      · split
        · next hword =>
          refine .pure fun rest h => ⟨h, fun hzero => hword.1 ?_⟩
          have hlt : word < 2 ^ 64 := hword.2.trans_lt (by decide)
          have hnat := congrArg UInt64.toNat (Number.negative.inj hzero)
          rwa [UInt64.toNat_ofNat_of_lt' hlt] at hnat
        · exact makesNumber_realNumber _ _ _

theorem makesNumber_numberValue (negative : Bool) : MakesNumber cs (numberValue negative) := by
  refine keeps_peek.bind fun x => ?_
  split
  · exact meets_fail _
  · split
    · exact meets_failNext _
    · split
      · refine keeps_advance.bind fun _ => keeps_peek.bind fun next => ?_
        split
        · split
          · exact meets_failNext _
          · exact makesNumber_numberTail _ _ _
        · exact makesNumber_numberTail _ _ _
      · exact keeps_digits.bind fun _ => makesNumber_numberTail _ _ _

/-- What is read is a string that stands there, or a number that is no zero with a minus sign. -/
theorem meets_textOrNumber (expected : String) (c : Cursor) :
    Meets (· = c) (textOrNumber expected) fun x c' => c'.rest <:+ c.rest ∧
      x.elim (Spells c · c') (· ≠ .negative 0) := by
  have hnumber (negative : Bool) : Meets (·.rest <:+ c.rest)
      (do return .inr (← numberValue negative)) fun x c' => c'.rest <:+ c.rest ∧
        Sum.elim (Spells c · c') (· ≠ .negative 0) x :=
    Meets.bind (makesNumber_numberValue negative) fun n => .pure fun _ => id
  refine Meets.bind (meets_peekValue c) fun x => ?_
  have hsuffix : ∀ c', c' = c.pastWhile isSpace ∧ x = c'.rest.head? → c'.rest <:+ c.rest := by
    rintro _ ⟨rfl, -⟩
    exact List.dropWhile_suffix _
  split
  · exact meets_failNext _
  · refine Meets.bind (Q := fun s c' => c'.rest <:+ c.rest ∧ Spells c s c') ?_ fun s =>
      .pure fun _ => id
    intro c' s c'' hc' htext
    obtain ⟨rfl, hquote⟩ := hc'
    exact ⟨keeps_textValue _ s c'' (List.dropWhile_suffix _) htext, hquote.symm, htext⟩
  · exact (keeps_advance.bind fun _ => hnumber true).mono hsuffix fun _ _ => id
  · exact .of_refuses (refuses_bind_of_forall fun _ => refuses_fail _)
  · exact .of_refuses (refuses_bind_of_forall fun _ => refuses_fail _)
  · split
    · exact (hnumber false).mono hsuffix fun _ _ => id
    · exact .of_refuses (refuses_wrongKind _ _)

theorem keeps_colon : Keeps cs colon := by
  refine keeps_peekValue.bind fun x => ?_
  split
  · exact keeps_failNext _
  · exact keeps_advance
  · exact keeps_failNext _

theorem keeps_nextKey (first : Bool) : Keeps cs (nextKey first) := by
  refine keeps_peekValue.bind fun x => ?_
  split
  · exact keeps_failNext _
  · exact keeps_pure false
  · split
    · split
      · exact keeps_pure true
      · exact keeps_failNext _
    · split
      · refine keeps_advance.bind fun _ => keeps_peekValue.bind fun x => ?_
        split
        · exact keeps_failNext _
        · exact keeps_pure true
        · exact keeps_failNext _
        · exact keeps_failNext _
      · exact keeps_failNext _

theorem keeps_nextElement (first : Bool) : Keeps cs (nextElement first) := by
  refine keeps_peekValue.bind fun x => ?_
  split
  · exact keeps_failNext _
  · exact keeps_pure false
  · split
    · exact keeps_pure true
    · split
      · refine keeps_advance.bind fun _ => keeps_peekValue.bind fun x => ?_
        split
        · exact keeps_failNext _
        · exact keeps_failNext _
        · exact keeps_pure true
      · exact keeps_failNext _

end Values

namespace Schema

variable {δ α : Type} {s : Schema δ α} {cs : List Char} {Q : δ → Prop}

/-- Whatever field is read next in the text, the draft keeps a property. -/
def Preserves (s : Schema δ α) (cs : List Char) (Q : δ → Prop) : Prop :=
  ∀ f ∈ s.fields, ∀ d, Q d → Meets (·.rest <:+ cs) (f.read d) fun d' c => c.rest <:+ cs ∧ Q d'

theorem Preserves.members (h : s.Preserves cs Q) (n : Nat) (first : Bool) {d : δ} (hd : Q d) :
    Meets (·.rest <:+ cs) (s.members n first d) fun d' c => c.rest <:+ cs ∧ Q d' := by
  induction n generalizing first d with
  | zero => exact meets_fail _
  | succ n ih =>
    refine (keeps_nextKey first).bind fun more => ?_
    split
    · refine keeps_textValue.bind fun key => ?_
      split
      · exact keeps_colon.bind fun _ => keeps_skipValue.bind fun _ => ih false hd
      · next f hf =>
        split
        · exact .of_refuses (refuses_bind_of_forall fun _ => refuses_fail _)
        · exact keeps_colon.bind fun _ =>
            (h f (List.mem_of_find?_eq_some hf) d hd).bind fun _ => .of_and (ih false)
    · exact .pure fun _ hrest => ⟨hrest, hd⟩

theorem Preserves.elements (h : s.Preserves cs Q) (index : Nat) {fs : List (Field δ)}
    (hfs : ∀ f ∈ fs, f ∈ s.fields) {d : δ} (hd : Q d) :
    Meets (·.rest <:+ cs) (s.elements index fs d) fun d' c => c.rest <:+ cs ∧ Q d' := by
  induction fs generalizing index d with
  | nil => exact .pure fun _ hrest => ⟨hrest, hd⟩
  | cons f fs ih =>
    refine (keeps_nextElement _).bind fun more => ?_
    split
    · exact (h f (hfs f List.mem_cons_self) d hd).bind fun _ =>
        .of_and (ih (index + 1) fun f' hf' => hfs f' (List.mem_cons_of_mem f hf'))
    · exact .of_refuses (refuses_bind_of_forall fun _ => refuses_fail _)

theorem meets_closed {P : Cursor → Prop} (d : δ) :
    Meets P (s.closed d) fun a _ => s.finish d = .ok a := by
  unfold closed
  split
  · exact .of_refuses (refuses_bind_of_forall fun _ => refuses_fail _)
  · next a hfinish =>
    refine (Meets.forget peekValue fun _ _ => hfinish).bind fun x => ?_
    split
    · exact meets_failNext _
    · exact (Meets.forget advance fun _ => id).bind fun _ => .pure fun _ => id
    · exact meets_failNext _
    · exact meets_failNext _

theorem meets_closedList {P : Cursor → Prop} (d : δ) :
    Meets P (s.closedList d) fun a _ => s.finish d = .ok a := by
  unfold closedList
  split
  · exact .of_refuses (refuses_bind_of_forall fun _ => refuses_fail _)
  · next a hfinish =>
    refine (Meets.forget peekValue fun _ _ => hfinish).bind fun x => ?_
    split
    · exact meets_failNext _
    · exact (Meets.forget advance fun _ => id).bind fun _ => .pure fun _ => id
    · refine .of_refuses (refuses_bind_of_forall fun _ => refuses_bind_of_forall fun x cs => ?_)
      split
      · exact refuses_failNext _ cs
      · exact refuses_failNext _ cs
    · exact meets_failNext _

/-- A record is made of a draft with whatever property the first draft has and every field that is
read in the text preserves. -/
theorem Preserves.read (h : s.Preserves cs Q) (hstart : Q s.start) :
    Meets (·.rest <:+ cs) s.read fun a _ => ∃ d, Q d ∧ s.finish d = .ok a := by
  have hfull {r : δ → Reader α} (hr : ∀ d, Meets (·.rest <:+ cs) (r d) fun a _ => s.finish d = .ok a)
      (d : δ) : Meets (fun c => c.rest <:+ cs ∧ Q d) (r d) fun a _ =>
        ∃ d, Q d ∧ s.finish d = .ok a :=
    .of_and fun hd => (hr d).mono (fun _ => id) fun _ _ hfinish => ⟨d, hd, hfinish⟩
  refine keeps_peekValue.bind fun x => ?_
  split
  · exact meets_failNext _
  · exact keeps_advance.bind fun _ => .get_bind fun c =>
      (h.members _ true hstart).bind (hfull meets_closed)
  · exact keeps_advance.bind fun _ =>
      (h.elements 0 (fun _ => id) hstart).bind (hfull meets_closedList)
  · exact .of_refuses (refuses_wrongKind _ _)

end Schema

section Fields

variable {δ β : Type} {cs : List Char} {Q : δ → Prop} {name : String} {get : δ → Option β}
  {read : Reader β} {put : β → δ → δ} {d : δ}

theorem meets_fieldOf {V : β → Prop} (hread : Meets (·.rest <:+ cs) read fun b c => c.rest <:+ cs ∧ V b)
    (hput : ∀ b, V b → Q (put b d)) :
    Meets (·.rest <:+ cs) ((fieldOf name get read put).read d) fun d' c => c.rest <:+ cs ∧ Q d' :=
  Meets.bind hread fun b => .pure fun _ hrest => ⟨hrest.1, hput b hrest.2⟩

theorem keeps_fieldOf (hread : Keeps cs read) (hput : ∀ b, Q (put b d)) :
    Meets (·.rest <:+ cs) ((fieldOf name get read put).read d) fun d' c => c.rest <:+ cs ∧ Q d' :=
  meets_fieldOf (hread.mono (fun _ => id) fun _ _ hrest => ⟨hrest, trivial⟩) fun b _ => hput b

end Fields

theorem ofChars_of_meets {α : Type} {read : Reader α} {cs : List Char} {V : α → Prop} {a : α}
    (hread : Meets (·.rest <:+ cs) read fun a _ => V a) (h : ofChars read cs = .ok a) : V a := by
  unfold ofChars at h
  extract_lets whole at h
  have hwhole : Meets (·.rest <:+ cs) whole fun a _ => V a := by
    refine hread.bind fun a => (Meets.forget peekValue fun _ => id).bind fun x => ?_
    split
    · exact .pure fun _ => id
    · exact meets_failNext _
  cases hx : whole ⟨cs, {}⟩ with
  | error fault =>
    rw [hx] at h
    cases h
  | ok x =>
    rw [hx] at h
    cases h
    exact hwhole _ x.1 x.2 List.suffix_rfl hx

end Bookkeeping.Json
