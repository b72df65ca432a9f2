import Bookkeeping.Csv.Writing
import Bookkeeping.Proofs.Text.Utf8

/-! A strict parser for comma-separated text as RFC 4180 has it, and that it reads back whatever is
written. A record ends with a line feed, which a carriage return may precede; a field is in quotes
as a whole or not at all, and has a quote in it only in quotes, where it stands doubled. Anything
else is refused. -/
namespace Bookkeeping.Csv.Standard

/-- Where the parser is in a field: before its first character, in one without quotes, in one with
quotes, behind a quote in it, or behind a carriage return. -/
inductive Mode where
  | start
  | plain
  | quoted
  | closed
  | returned
  deriving DecidableEq, Repr

/-- The field so far and the fields before it in the record, both last first. -/
structure State where
  mode : Mode := .start
  field : List Char := []
  fields : List String := []

namespace State

def texts (s : State) : List String := (String.ofList s.field.reverse :: s.fields).reverse

/-- What may follow a field: a comma or a line break. -/
def separator (s : State) (c : Char) : Option (Option (List String) × State) :=
  if c = ',' then some (none, { fields := String.ofList s.field.reverse :: s.fields })
  else if c = '\n' then some (some s.texts, {})
  else if c = '\r' then some (none, { s with mode := .returned })
  else none

def copy (s : State) (mode : Mode) (c : Char) : State := { s with mode, field := c :: s.field }

def unquoted (s : State) (c : Char) : Option (Option (List String) × State) :=
  s.separator c <|> some (none, s.copy .plain c)

/-- Takes a character, which may end a record; none if it has no place there. -/
def step (s : State) (c : Char) : Option (Option (List String) × State) :=
  match s.mode with
  | .start => if c = '"' then some (none, { s with mode := .quoted }) else s.unquoted c
  | .plain => if c = '"' then none else s.unquoted c
  | .quoted =>
    if c = '"' then some (none, { s with mode := .closed }) else some (none, s.copy .quoted c)
  | .closed => if c = '"' then some (none, s.copy .quoted c) else s.separator c
  | .returned => if c = '\n' then some (some s.texts, {}) else none

/-- The record that the end of the text ends, if one has begun. -/
def last (s : State) : Option (List (List String)) :=
  match s.mode with
  | .start => some (if s.fields = [] then [] else [s.texts])
  | .plain | .closed => some [s.texts]
  | .quoted | .returned => none

def records (s : State) : List Char → Option (List (List String))
  | [] => s.last
  | c :: cs => (s.step c).bind fun next => (next.1.toList ++ ·) <$> next.2.records cs

end State

/-- The records of a text in UTF-8. -/
def parse (bytes : List UInt8) : Option (List (List String)) :=
  match Text.decodeChars bytes with
  | .ok cs => ({} : State).records cs
  | .error _ => none

example : parse (Text.encode "a,\"b\"c\n") = none := by decide +kernel

namespace State

variable {s : State} {c : Char} {rest : List Char} {field : List Char} {fields : List String}

theorem records_of_step {s' : State} (h : s.step c = some (none, s')) :
    s.records (c :: rest) = s'.records rest := by
  rw [records, h, Option.bind_some]
  cases s'.records rest <;> rfl

theorem unquoted_of_ordinary (hcomma : c ≠ ',') (hfeed : c ≠ '\n') (hreturn : c ≠ '\r') :
    s.unquoted c = some (none, s.copy .plain c) := by
  simp [unquoted, separator, hcomma, hfeed, hreturn]

theorem records_plain {mode : Mode} (hmode : mode = .start ∨ mode = .plain) {cs : List Char}
    (h : needsQuotes cs = false) :
    records ⟨mode, field, fields⟩ (cs ++ rest) =
      records ⟨if cs = [] then mode else .plain, cs.reverse ++ field, fields⟩ rest := by
  induction cs generalizing mode field with
  | nil => rfl
  | cons c cs ih =>
    simp only [needsQuotes, List.any_cons, Bool.or_eq_false_iff, decide_eq_false_iff_not] at h
    obtain ⟨⟨⟨⟨hcomma, hquote⟩, hfeed⟩, hreturn⟩, hrest⟩ := h
    have hstep : step ⟨mode, field, fields⟩ c = some (none, ⟨.plain, c :: field, fields⟩) := by
      have hcopy := unquoted_of_ordinary (s := ⟨mode, field, fields⟩) hcomma hfeed hreturn
      rcases hmode with rfl | rfl
      · exact (if_neg hquote).trans hcopy
      · exact (if_neg hquote).trans hcopy
    rw [List.cons_append, records_of_step hstep, ih (.inr rfl) (by simpa [needsQuotes] using hrest),
      if_neg (List.cons_ne_nil c cs), List.reverse_cons, List.append_assoc, List.singleton_append]
    congr 2
    split <;> rfl

/-- Within quotes a text is copied as it was before its quotes were doubled. -/
theorem records_doubled (cs : List Char) :
    records ⟨.quoted, field, fields⟩ (doubled cs ++ rest) =
      records ⟨.quoted, cs.reverse ++ field, fields⟩ rest := by
  induction cs generalizing field with
  | nil => rfl
  | cons c cs ih =>
    rw [List.reverse_cons, List.append_assoc, List.singleton_append, ← ih]
    by_cases hc : c = '"'
    · subst hc
      exact (records_of_step rfl).trans (records_of_step rfl)
    · have hstep : step ⟨.quoted, field, fields⟩ c = some (none, ⟨.quoted, c :: field, fields⟩) := by
        simp [step, hc, copy]
      rw [doubled_cons, if_neg hc]
      exact records_of_step hstep

theorem records_writeField (text : String) (fields : List String) (rest : List Char) :
    ∃ mode, (mode = .start ∨ mode = .plain ∨ mode = .closed) ∧
    records ⟨.start, [], fields⟩ (writeField text ++ rest) =
      records ⟨mode, text.toList.reverse, fields⟩ rest := by
  unfold writeField
  split
  · refine ⟨.closed, .inr (.inr rfl), ?_⟩
    have hclose : step ⟨.quoted, text.toList.reverse, fields⟩ '"' =
        some (none, ⟨.closed, text.toList.reverse, fields⟩) := rfl
    have hcopied : records ⟨.quoted, [], fields⟩ (doubled text.toList ++ '"' :: rest) =
        records ⟨.quoted, text.toList.reverse ++ [], fields⟩ ('"' :: rest) :=
      records_doubled text.toList
    rw [List.append_nil] at hcopied
    have hopened : records ⟨.start, [], fields⟩ ('"' :: (doubled text.toList ++ '"' :: rest)) =
        records ⟨.quoted, [], fields⟩ (doubled text.toList ++ '"' :: rest) := records_of_step rfl
    rw [show '"' :: doubled text.toList ++ ['"'] ++ rest =
      '"' :: (doubled text.toList ++ '"' :: rest) by simp, hopened, hcopied, records_of_step hclose]
  · next hplain =>
    rw [Bool.not_eq_true] at hplain
    have hcopied : records ⟨.start, [], fields⟩ (text.toList ++ rest) =
        records ⟨if text.toList = [] then .start else .plain, text.toList.reverse ++ [], fields⟩
          rest := records_plain (.inl rfl) hplain
    rw [List.append_nil] at hcopied
    refine ⟨_, ?_, hcopied⟩
    split
    · exact .inl rfl
    · exact .inr (.inl rfl)

theorem step_separator {mode : Mode} (h : mode = .start ∨ mode = .plain ∨ mode = .closed)
    (hc : c = ',' ∨ c = '\n') :
    step ⟨mode, field, fields⟩ c = separator ⟨mode, field, fields⟩ c := by
  rcases h with rfl | rfl | rfl <;> rcases hc with rfl | rfl <;> rfl

theorem records_writeRecord (text : String) (texts : List String) :
    records ⟨.start, [], fields⟩ (writeRecord (text :: texts) ++ rest) =
      ((fields.reverse ++ text :: texts) :: ·) <$> records {} rest := by
  induction texts generalizing text fields with
  | nil =>
    obtain ⟨mode, hmode, hread⟩ := records_writeField text fields ('\n' :: rest)
    have hend : step ⟨mode, text.toList.reverse, fields⟩ '\n' =
        some (some (fields.reverse ++ [text]), {}) := by
      rw [step_separator hmode (.inr rfl)]
      simp [separator, State.texts]
    rw [writeRecord_singleton, List.append_assoc, List.singleton_append, hread, records, hend]
    rfl
  | cons next texts ih =>
    obtain ⟨mode, hmode, hread⟩ := records_writeField text fields
      (',' :: writeRecord (next :: texts) ++ rest)
    have hcomma : step ⟨mode, text.toList.reverse, fields⟩ ',' =
        some (none, ⟨.start, [], text :: fields⟩) := by
      rw [step_separator hmode (.inl rfl)]
      simp [separator]
    rw [writeRecord_cons, List.append_assoc, hread, List.cons_append, records_of_step hcomma, ih,
      List.reverse_cons, List.append_assoc]
    rfl

theorem records_writeRecords {rows : List (List String)} (h : ∀ texts ∈ rows, texts ≠ []) :
    records {} (rows.flatMap writeRecord) = some rows := by
  induction rows with
  | nil => rfl
  | cons texts rows ih =>
    rw [List.forall_mem_cons] at h
    obtain ⟨text, texts, rfl⟩ := List.exists_cons_of_ne_nil h.1
    rw [List.flatMap_cons, records_writeRecord, ih h.2]
    rfl

end State

theorem parse_writeRecords {rows : List (List String)} (h : ∀ texts ∈ rows, texts ≠ []) :
    parse (Text.encode (writeRecords rows)) = some rows := by
  rw [parse, Text.encode, Text.decodeChars_encodeChars, writeRecords, String.toList_ofList]
  exact State.records_writeRecords h

end Bookkeeping.Csv.Standard
