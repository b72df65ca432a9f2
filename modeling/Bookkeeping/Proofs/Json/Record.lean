import Bookkeeping.Posting.Schema
import Bookkeeping.Proofs.Json.Text

/-! A record is read back from an object that is written with each of its fields once. -/
namespace Bookkeeping.Json

section Members

variable {rest : List Char}

theorem yields_nextKey_first (key : String) :
    Yields (nextKey true) (writeText key ++ rest) true (writeText key ++ rest) :=
  (yields_peekValue (by decide)).bind (Yields.pure true)

theorem yields_nextKey_more (key : String) :
    Yields (nextKey false) (',' :: (writeText key ++ rest)) true (writeText key ++ rest) :=
  (yields_peekValue (by decide)).bind <|
    (yields_advance ',').bind <| (yields_peekValue (by decide)).bind (Yields.pure true)

theorem yields_nextKey_end (first : Bool) :
    Yields (nextKey first) ('}' :: rest) false ('}' :: rest) :=
  (yields_peekValue (by decide)).bind (Yields.pure false)

theorem yields_colon : Yields colon (':' :: rest) () rest :=
  (yields_peekValue (by decide)).bind (yields_advance ':')

end Members

def memberChars (m : String × List Char) : List Char := writeText m.1 ++ ':' :: m.2

theorem writeObject_cons (m : String × List Char) (ms : List (String × List Char)) :
    writeObject (m :: ms) =
      '{' :: (memberChars m ++ ms.flatMap (',' :: memberChars ·) ++ ['}']) := by
  have h (m : String × List Char) : List.intercalate [','] ((m :: ms).map memberChars) =
      memberChars m ++ ms.flatMap (',' :: memberChars ·) := by
    induction ms generalizing m with
    | nil => simp [List.intercalate]
    | cons m' ms ih =>
      have := ih m'
      simp only [List.intercalate, List.map_cons, List.intersperse_cons_cons,
        List.flatten_cons] at this ⊢
      rw [this]
      simp
  exact congrArg (fun cs => '{' :: (cs ++ ['}'])) (h m)

theorem length_lt_chars (m : String × List Char) (ms : List (String × List Char))
    (rest : List Char) :
    ms.length < (memberChars m ++ ms.flatMap (',' :: memberChars ·) ++ ['}'] ++ rest).length := by
  have h : ms.length ≤ (ms.flatMap (',' :: memberChars ·)).length := by
    induction ms with
    | nil => simp
    | cons m ms ih =>
      simp only [List.flatMap_cons, List.length_append, List.length_cons]
      omega
  simp only [memberChars, writeText, List.length_append, List.length_cons]
  simp only [memberChars, writeText] at h
  omega

namespace Schema

variable {δ α : Type} (s : Schema δ α)

/-- The members fill a draft, each of them a field that was not given before. -/
def Fills : δ → List (String × List Char) → δ → Prop
  | d, [], d' => d = d'
  | d, m :: ms, d' => ∃ f d₁, s.fields.find? (·.name = m.1) = some f ∧ f.given d = false ∧
      (∀ rest, Yields (f.read d) (m.2 ++ rest) d₁ rest) ∧ Fills d₁ ms d'

variable {s}

theorem yields_member {n : Nat} {first : Bool} {d d₁ d' : δ} {m : String × List Char}
    {f : Field δ} {cs rest end' : List Char} (hkey : Yields (nextKey first) cs true
      (writeText m.1 ++ (':' :: m.2 ++ rest)))
    (hf : s.fields.find? (·.name = m.1) = some f) (hg : f.given d = false)
    (hr : Yields (f.read d) (m.2 ++ rest) d₁ rest)
    (hms : Yields (s.members n false d₁) rest d' end') :
    Yields (s.members (n + 1) first d) cs d' end' := by
  refine hkey.bind ((yields_textValue m.1 _).bind ?_)
  simp only [hf, hg]
  exact yields_colon.bind (hr.bind hms)

theorem yields_members_end (n : Nat) (first : Bool) (d : δ) (rest : List Char) :
    Yields (s.members (n + 1) first d) ('}' :: rest) d ('}' :: rest) :=
  (yields_nextKey_end first).bind (Yields.pure d)

theorem yields_members {n : Nat} {d d' : δ} {ms : List (String × List Char)} (rest : List Char)
    (h : s.Fills d ms d') (hn : ms.length < n) :
    Yields (s.members n false d) (ms.flatMap (',' :: memberChars ·) ++ '}' :: rest) d'
      ('}' :: rest) := by
  induction ms generalizing n d with
  | nil =>
    obtain ⟨n, rfl⟩ := Nat.exists_eq_succ_of_ne_zero (Nat.ne_of_gt hn)
    rw [show d = d' from h]
    exact yields_members_end n false d' rest
  | cons m ms ih =>
    obtain ⟨n, rfl⟩ := Nat.exists_eq_succ_of_ne_zero (Nat.ne_of_gt (Nat.zero_lt_of_lt hn))
    obtain ⟨f, d₁, hf, hg, hr, hms⟩ := h
    refine yields_member ?_ hf hg (hr _) (ih hms (Nat.lt_of_succ_lt_succ hn))
    simpa [memberChars] using yields_nextKey_more m.1

theorem yields_closed {d : δ} {a : α} (rest : List Char) (h : s.finish d = .ok a) :
    Yields (s.closed d) ('}' :: rest) a rest := by
  unfold closed
  simp only [h]
  exact (yields_peekValue (by decide)).bind ((yields_advance '}').bind (Yields.pure a))

/-- An object is read as the record of the draft that its members fill. -/
theorem yields_read {d : δ} {a : α} {m : String × List Char} {ms : List (String × List Char)}
    (rest : List Char) (h : s.Fills s.start (m :: ms) d) (ha : s.finish d = .ok a) :
    Yields s.read (writeObject (m :: ms) ++ rest) a rest := by
  obtain ⟨f, d₁, hf, hg, hr, hms⟩ := h
  rw [writeObject_cons]
  refine (yields_peekValue (by decide)).bind ((yields_advance '{').bind (Yields.get_bind ?_))
  intro p
  refine Yields.bind (yields_member (m := m) ?_ hf hg (hr _) (yields_members rest hms ?_))
    (yields_closed rest ha)
  · simpa [memberChars] using yields_nextKey_first m.1
  · exact length_lt_chars m ms rest

theorem yields_fieldOf {δ α : Type} {name : String} {get : δ → Option α} {read : Reader α}
    {put : α → δ → δ} {a : α} (d : δ) {cs rest : List Char} (h : Yields read cs a rest) :
    Yields ((fieldOf name get read put).read d) cs (put a d) rest :=
  h.bind (Yields.pure (put a d))

end Schema

theorem ofChars_of_yields {α : Type} {read : Reader α} {cs : List Char} {a : α}
    (h : Yields read cs a []) : ofChars read cs = .ok a := by
  obtain ⟨p', hp⟩ := h {}
  unfold ofChars
  show (fun x : α × Cursor => x.1) <$> (read ⟨cs, {}⟩ >>= fun x => _) = _
  rw [hp]
  rfl

theorem newline_notMem_writeObject {ms : List (String × List Char)}
    (h : ∀ m ∈ ms, '\n' ∉ m.2) : '\n' ∉ writeObject ms := by
  cases ms with
  | nil => decide
  | cons m ms =>
    have hm (m : String × List Char) (hm : '\n' ∉ m.2) : '\n' ∉ memberChars m := by
      simp [memberChars, newline_notMem_writeText, hm]
    rw [writeObject_cons]
    simp only [List.mem_cons, List.mem_append, List.mem_flatMap, not_or]
    refine ⟨by decide, ⟨hm m (h m List.mem_cons_self), ?_⟩, by decide, by simp⟩
    rintro ⟨x, hx, hx' | hx'⟩
    · exact absurd hx' (by decide)
    · exact hm x (h x (List.mem_cons_of_mem _ hx)) hx'

end Bookkeeping.Json
