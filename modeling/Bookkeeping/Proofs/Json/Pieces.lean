import Mathlib.Data.List.TakeWhile
import Bookkeeping.Proofs.Json.Record

/-! A text that is cut short is refused: of what is written for a string or for a record, no
reader takes a piece that stops before the end. -/
namespace Bookkeeping.Json

/-- The reader refuses the text, wherever it starts. -/
def Refuses {α : Type} (r : Reader α) (cs : List Char) : Prop := ∀ p, ∃ f, r ⟨cs, p⟩ = .error f

/-- The reader refuses what is left of the text when its end is missing. -/
def RefusesPieces {α : Type} (r : Reader α) (cs : List Char) : Prop :=
  ∀ piece missing, missing ≠ [] → cs = piece ++ missing → Refuses r piece

section Readers

variable {α β : Type} {r : Reader α} {f : α → Reader β} {a : α} {cs mid u v : List Char}

theorem refuses_fail (cause : Cause) (cs : List Char) : Refuses (fail cause : Reader α) cs :=
  fun p => ⟨⟨cause, p⟩, rfl⟩

theorem refuses_failNext (cause : Cause) (cs : List Char) :
    Refuses (failNext cause : Reader α) cs := fun p => ⟨⟨cause, p.afterBytes 1 cs⟩, rfl⟩

theorem Refuses.bind (h : Refuses r cs) : Refuses (r >>= f) cs := by
  intro p
  obtain ⟨fault, hr⟩ := h p
  refine ⟨fault, ?_⟩
  show (r ⟨cs, p⟩ >>= fun x => f x.1 x.2) = _
  rw [hr]
  rfl

theorem Refuses.get_bind {f : Cursor → Reader β} (h : ∀ p, Refuses (f ⟨cs, p⟩) cs) :
    Refuses (get >>= f) cs := fun p => h p p

theorem Yields.bind_refuses (hr : Yields r cs a mid) (hf : Refuses (f a) mid) :
    Refuses (r >>= f) cs := by
  intro p
  obtain ⟨p', h⟩ := hr p
  obtain ⟨fault, hfault⟩ := hf p'
  refine ⟨fault, ?_⟩
  show (r ⟨cs, p⟩ >>= fun x => f x.1 x.2) = _
  rw [h]
  exact hfault

theorem refuses_bind_of_forall (hf : ∀ a cs, Refuses (f a) cs) (cs : List Char) :
    Refuses (r >>= f) cs := by
  intro p
  show ∃ fault, (r ⟨cs, p⟩ >>= fun x => f x.1 x.2) = .error fault
  cases r ⟨cs, p⟩ with
  | error fault => exact ⟨fault, rfl⟩
  | ok x => exact hf x.1 x.2.rest x.2.position

theorem RefusesPieces.bind_left (h : RefusesPieces r cs) : RefusesPieces (r >>= f) cs :=
  fun piece missing hmissing heq => (h piece missing hmissing heq).bind

/-- Two parts of a text are read one after the other: a piece stops in the first or goes on into
the second. -/
theorem RefusesPieces.bind (hr : RefusesPieces r u) (hu : ∀ rest, Yields r (u ++ rest) a rest)
    (hf : RefusesPieces (f a) v) : RefusesPieces (r >>= f) (u ++ v) := by
  intro piece missing hmissing heq
  rcases List.append_eq_append_iff.1 heq with ⟨piece', rfl, hv⟩ | ⟨missing', hu', rfl⟩
  · exact (hu piece').bind_refuses (hf piece' missing hmissing hv)
  by_cases hnil : missing' = []
  · subst hnil
    rw [List.append_nil] at hu'
    subst hu'
    have hwhole := hu []
    rw [List.append_nil] at hwhole
    exact hwhole.bind_refuses (hf [] v hmissing rfl)
  · exact (hr piece missing' hnil hu').bind

theorem piece_eq_nil {c : Char} {piece missing : List Char} (hmissing : missing ≠ [])
    (h : [c] = piece ++ missing) : piece = [] := by
  rcases List.cons_eq_append_iff.1 h with ⟨rfl, -⟩ | ⟨_, -, hnil⟩
  · rfl
  · exact absurd (List.append_eq_nil_iff.1 hnil.symm).2 hmissing

theorem refusesPieces_singleton {c : Char} (h : Refuses r []) : RefusesPieces r [c] := by
  intro piece missing hmissing heq
  rw [piece_eq_nil hmissing heq]
  exact h

theorem yields_peekValue_nil : Yields peekValue [] none [] := fun p => ⟨p, rfl⟩

end Readers

theorem textBody_nil (p : Position) : textBody p [] = .error ⟨.endInString, p⟩ := by
  rw [textBody]

theorem textBody_piece_escaped {c : Char} {piece missing : List Char} (p : Position)
    (hmissing : missing ≠ []) (h : escaped c = piece ++ missing) :
    ∃ f, textBody p piece = .error f := by
  have hbackslash : ∃ f, textBody p ['\\'] = .error f := ⟨_, by rw [textBody.eq_def]; rfl⟩
  have hshort {x : Char} (hx : [x] = piece ++ missing) : ∃ f, textBody p piece = .error f :=
    ⟨_, by rw [piece_eq_nil hmissing hx, textBody_nil]⟩
  have hsimple {x : Char} (hx : ['\\', x] = piece ++ missing) :
      ∃ f, textBody p piece = .error f := by
    rcases List.cons_eq_append_iff.1 hx with ⟨rfl, -⟩ | ⟨piece', rfl, hrest⟩
    · exact ⟨_, textBody_nil p⟩
    · rw [piece_eq_nil hmissing hrest]
      exact hbackslash
  have hunit (h : '\\' :: 'u' :: Text.fixedHex 4 c.toNat = piece ++ missing) :
      ∃ f, textBody p piece = .error f := by
    rcases List.cons_eq_append_iff.1 h with ⟨rfl, -⟩ | ⟨piece', rfl, hrest⟩
    · exact ⟨_, textBody_nil p⟩
    rcases List.cons_eq_append_iff.1 hrest with ⟨rfl, -⟩ | ⟨ds, rfl, hds⟩
    · exact hbackslash
    have hlength : ds.length < 4 := by
      have hsum := congrArg List.length hds
      have hpos := List.length_pos_iff.2 hmissing
      rw [Text.fixedHex_length, List.length_append] at hsum
      omega
    have hhex (p : Position) : ∃ f, hexUnit p ds = .error f := by
      unfold hexUnit
      split
      · simp at hlength
        omega
      · split <;> exact ⟨_, rfl⟩
    obtain ⟨f, hf⟩ := hhex ((p.past '\\').past 'u')
    exact ⟨f, by rw [textBody.eq_def]; simp only [escape, hf]⟩
  unfold escaped at h
  repeat' split at h
  all_goals first | exact hsimple h | exact hunit h | exact hshort h

theorem textBody_piece {cs piece missing : List Char} (p : Position)
    (h : cs.flatMap escaped = piece ++ missing) : ∃ f, textBody p piece = .error f := by
  induction cs generalizing piece p with
  | nil =>
    obtain ⟨rfl, -⟩ := List.append_eq_nil_iff.1 h.symm
    exact ⟨_, textBody_nil p⟩
  | cons c cs ih =>
    rw [List.flatMap_cons] at h
    rcases List.append_eq_append_iff.1 h with ⟨piece', rfl, hrest⟩ | ⟨missing', hc, -⟩
    · obtain ⟨p', hc⟩ := textBody_escaped p c piece'
      obtain ⟨f, hf⟩ := ih p' hrest
      exact ⟨f, by rw [hc, hf]; rfl⟩
    by_cases hnil : missing' = []
    · subst hnil
      rw [List.append_nil] at hc
      obtain ⟨p', hbody⟩ := textBody_escaped p c []
      rw [List.append_nil, hc] at hbody
      exact ⟨_, by rw [hbody, textBody_nil]; rfl⟩
    · exact textBody_piece_escaped p hnil hc

theorem refuses_textValue_nil : Refuses textValue [] := fun p =>
  ⟨⟨.endInString, p.past '"'⟩, by simp only [textValue, List.tail_nil, textBody_nil, bind, Except.bind]⟩

theorem refusesPieces_textValue (s : String) : RefusesPieces textValue (writeText s) := by
  intro piece missing hmissing h p
  rcases List.cons_eq_append_iff.1 h with ⟨rfl, -⟩ | ⟨piece', rfl, hrest⟩
  · exact refuses_textValue_nil p
  -- the closing quote is among what is missing
  have hbody : ∃ missing', s.toList.flatMap escaped = piece' ++ missing' := by
    obtain ⟨c, missing', rfl⟩ := List.exists_cons_of_ne_nil hmissing
    rcases List.append_eq_append_iff.1 hrest with ⟨piece'', rfl, hquote⟩ | ⟨bs, hbs, -⟩
    · rw [piece_eq_nil (List.cons_ne_nil c missing') hquote]
      exact ⟨[], by simp⟩
    · exact ⟨bs, hbs⟩
  obtain ⟨missing', hmissing'⟩ := hbody
  obtain ⟨f, hf⟩ := textBody_piece (p.past '"') hmissing'
  exact ⟨f, by simp only [textValue, List.tail_cons, hf, bind, Except.bind]⟩

theorem refusesPieces_peeked {α : Type} {f : Option Char → Reader α} {s : String}
    (hnone : Refuses (f none) []) (hquote : RefusesPieces (f (some '"')) (writeText s)) :
    RefusesPieces (peekValue >>= f) (writeText s) := by
  intro piece missing hmissing h
  rcases List.cons_eq_append_iff.1 h with ⟨rfl, -⟩ | ⟨piece', rfl, -⟩
  · exact yields_peekValue_nil.bind_refuses hnone
  · exact (yields_peekValue (by decide)).bind_refuses (hquote _ missing hmissing h)

theorem refusesPieces_colon : RefusesPieces colon [':'] :=
  refusesPieces_singleton (yields_peekValue_nil.bind_refuses (refuses_failNext _ _))

theorem refuses_nextKey_nil (first : Bool) : Refuses (nextKey first) [] :=
  yields_peekValue_nil.bind_refuses (refuses_failNext _ _)

theorem refuses_nextKey_comma : Refuses (nextKey false) [','] :=
  (yields_peekValue (by decide)).bind_refuses <|
    (yields_advance ',').bind_refuses <|
      yields_peekValue_nil.bind_refuses (refuses_failNext _ _)

theorem yields_nextKey_quote (cs : List Char) :
    Yields (nextKey true) ('"' :: cs) true ('"' :: cs) :=
  (yields_peekValue (by decide)).bind (Yields.pure true)

theorem yields_nextKey_comma (cs : List Char) :
    Yields (nextKey false) (',' :: '"' :: cs) true ('"' :: cs) :=
  (yields_peekValue (by decide)).bind <|
    (yields_advance ',').bind <| (yields_peekValue (by decide)).bind (Yields.pure true)

theorem refuses_wrongKind {α : Type} (c : Char) (expected : String) (cs : List Char) :
    Refuses (wrongKind c expected : Reader α) cs := by
  have hfail {β : Type} (r : Reader β) (found : β → Found) (cs : List Char) :
      Refuses (r >>= fun b => fail (.invalidType (found b) expected) : Reader α) cs :=
    refuses_bind_of_forall (fun _ _ => refuses_fail _ _) cs
  unfold wrongKind
  split
  · exact refuses_bind_of_forall (fun _ => hfail _ fun _ => .null) cs
  · exact refuses_bind_of_forall (fun _ => hfail _ fun _ => .boolean true) cs
  · exact refuses_bind_of_forall (fun _ => hfail _ fun _ => .boolean false) cs
  · exact refuses_bind_of_forall (fun _ => hfail _ .number) cs
  · exact hfail _ .text cs
  · exact refuses_fail _ cs
  · exact refuses_fail _ cs
  · split
    · exact hfail _ .number cs
    · exact refuses_failNext _ cs

namespace Schema

variable {δ α : Type} {s : Schema δ α}

/-- What is written for a member is refused by its field when the end is missing. -/
def RefusesPieces (s : Schema δ α) (m : String × List Char) : Prop :=
  ∀ f d, s.fields.find? (·.name = m.1) = some f → Json.RefusesPieces (f.read d) m.2

theorem refuses_member {n : Nat} {first : Bool} {d d₁ : δ} {m : String × List Char} {f : Field δ}
    {cs piece missing rest : List Char} (hkey : Yields (nextKey first) cs true piece)
    (hmissing : missing ≠ []) (heq : memberChars m ++ rest = piece ++ missing)
    (hf : s.fields.find? (·.name = m.1) = some f) (hg : f.given d = false)
    (hr : ∀ rest, Yields (f.read d) (m.2 ++ rest) d₁ rest) (hm : s.RefusesPieces m)
    (hms : Json.RefusesPieces (s.members n false d₁) rest) :
    Refuses (s.members (n + 1) first d) cs := by
  have hvalue := (hm f d hf).bind hr hms
  have hmember := refusesPieces_colon.bind (f := fun _ => f.read d >>= s.members n false)
    (fun _ => yields_colon) hvalue
  refine hkey.bind_refuses ((refusesPieces_textValue m.1).bind (yields_textValue m.1)
    (v := [':'] ++ (m.2 ++ rest)) ?_ piece missing hmissing ?_)
  · simp only [hf, hg]
    exact hmember
  · simpa [memberChars] using heq

theorem refusesPieces_members {n : Nat} {d d' : δ} {ms : List (String × List Char)}
    (h : s.Fills d ms d') (hms : ∀ m ∈ ms, s.RefusesPieces m) :
    Json.RefusesPieces (s.members n false d) (ms.flatMap (',' :: memberChars ·) ++ ['}']) := by
  induction ms generalizing n d with
  | nil =>
    cases n with
    | zero => exact fun _ _ _ _ => refuses_fail _ _
    | succ n => exact refusesPieces_singleton (refuses_nextKey_nil false).bind
  | cons m ms ih =>
    intro piece missing hmissing heq
    cases n with
    | zero => exact refuses_fail _ _
    | succ n =>
      obtain ⟨f, d₁, hf, hg, hr, hms'⟩ := h
      have hrest := ih (n := n) hms' fun m' hm' => hms m' (List.mem_cons_of_mem _ hm')
      rw [List.flatMap_cons, List.append_assoc] at heq
      -- the piece ends before the comma, right after it, or within the member and those after it
      rcases List.cons_eq_append_iff.1 heq with ⟨rfl, -⟩ | ⟨piece', rfl, hpiece⟩
      · exact (refuses_nextKey_nil false).bind
      cases piece' with
      | nil => exact refuses_nextKey_comma.bind
      | cons c piece =>
        obtain ⟨rfl, -⟩ : '"' = c ∧ _ := List.cons_eq_cons.1 hpiece
        exact refuses_member (yields_nextKey_comma piece) hmissing hpiece hf hg hr
          (hms m List.mem_cons_self) hrest

/-- A record that is cut short is refused. -/
theorem refusesPieces_read {d : δ} {m : String × List Char} {ms : List (String × List Char)}
    (h : s.Fills s.start (m :: ms) d) (hms : ∀ m' ∈ m :: ms, s.RefusesPieces m') :
    Json.RefusesPieces s.read (writeObject (m :: ms)) := by
  intro piece missing hmissing heq
  obtain ⟨f, d₁, hf, hg, hr, hms'⟩ := h
  rw [writeObject_cons, List.append_assoc] at heq
  rcases List.cons_eq_append_iff.1 heq with ⟨rfl, -⟩ | ⟨piece', rfl, hpiece⟩
  · exact yields_peekValue_nil.bind_refuses (refuses_failNext _ _)
  refine (yields_peekValue (by decide)).bind_refuses <|
    (yields_advance '{').bind_refuses (Refuses.get_bind fun p => Refuses.bind ?_)
  cases piece' with
  | nil => exact (refuses_nextKey_nil true).bind
  | cons c piece =>
    obtain ⟨rfl, -⟩ : '"' = c ∧ _ := List.cons_eq_cons.1 hpiece
    exact refuses_member (yields_nextKey_quote piece) hmissing hpiece hf hg hr
      (hms m List.mem_cons_self)
      (refusesPieces_members hms' fun m' hm' => hms m' (List.mem_cons_of_mem _ hm'))

theorem refusesPieces_fieldOf {β : Type} {m : String × List Char} {get : δ → Option β}
    {read : Reader β} {put : β → δ → δ}
    (hf : s.fields.find? (·.name = m.1) = some (fieldOf m.1 get read put))
    (h : Json.RefusesPieces read m.2) : s.RefusesPieces m := by
  intro f d hf'
  rw [hf] at hf'
  cases hf'
  exact h.bind_left

theorem yields_read_space {cs rest : List Char} {a : α} (h : Yields s.read cs a rest) :
    Yields s.read (' ' :: cs) a rest := fun p => h (p.past ' ')

theorem refuses_read_of_ne {c : Char} (hspace : isSpace c = false) (hobject : c ≠ '{')
    (hlist : c ≠ '[') (cs : List Char) : Refuses s.read (c :: cs) := by
  refine (yields_peekValue hspace).bind_refuses ?_
  split
  · contradiction
  · simp_all
  · simp_all
  · exact refuses_wrongKind _ _ _

end Schema

theorem ofChars_of_refuses {α : Type} {read : Reader α} {cs : List Char} (h : Refuses read cs) :
    ∃ f, ofChars read cs = .error f := by
  obtain ⟨f, hf⟩ := h {}
  refine ⟨f, ?_⟩
  unfold ofChars
  show (fun x : α × Cursor => x.1) <$> (read ⟨cs, {}⟩ >>= fun x => _) = _
  rw [hf]
  rfl

theorem ofChars_of_trailing {α : Type} {read : Reader α} {cs rest : List Char} {a : α} {c : Char}
    (h : Yields read cs a rest) (hc : c ∈ rest) (hspace : isSpace c = false) :
    ∃ f, ofChars read cs = .error f := by
  obtain ⟨p, hp⟩ := h {}
  have hnext : rest.dropWhile isSpace ≠ [] := by
    intro hnil
    have hall := List.dropWhile_eq_nil_iff.1 hnil c hc
    rw [hspace] at hall
    cases hall
  obtain ⟨x, left, hleft⟩ := List.exists_cons_of_ne_nil hnext
  unfold ofChars
  show ∃ f, (fun x : α × Cursor => x.1) <$> (read ⟨cs, {}⟩ >>= fun x => _) = .error f
  rw [hp]
  simp only [bind, Except.bind, StateT.bind, peekValue, Cursor.pastWhile, hleft]
  exact ⟨_, rfl⟩

end Bookkeeping.Json
