import Bookkeeping.Csv.Writing
import Bookkeeping.Proofs.Csv.Batches
import Bookkeeping.Proofs.Decimal.RoundTrip
import Bookkeeping.Proofs.Text.Utf8
import Bookkeeping.Proofs.Time.RoundTrip

/-! Requests are read back from the records that are written for them. The scan is followed field by
field: what it has copied are the bytes of the text, whether they stand in quotes or not. -/
namespace Bookkeeping

namespace Text

/-- The text has no blank at either of its ends. -/
def Trimmed (cs : List Char) : Prop :=
  cs.head?.any isBlank = false ∧ cs.getLast?.any isBlank = false

instance (cs : List Char) : Decidable (Trimmed cs) := inferInstanceAs (Decidable (_ = _ ∧ _ = _))

theorem trimmed_iff {cs : List Char} : Trimmed cs ↔
    (∀ c ∈ cs.head?, isBlank c = false) ∧ ∀ c ∈ cs.getLast?, isBlank c = false := by
  have hany (o : Option Char) : o.any isBlank = false ↔ ∀ c ∈ o, isBlank c = false := by
    cases o <;> simp
  rw [Trimmed, hany, hany]

theorem dropWhile_eq_self {α : Type} {p : α → Bool} {l : List α}
    (h : ∀ a ∈ l.head?, p a = false) : l.dropWhile p = l := by
  cases l with
  | nil => rfl
  | cons a l => rw [List.dropWhile_cons, if_neg (by simp [h a rfl])]

theorem trim_of_trimmed {cs : List Char} (h : Trimmed cs) : trim cs = cs := by
  obtain ⟨hfirst, hlast⟩ := trimmed_iff.1 h
  rw [trim, trimStart, dropWhile_eq_self hfirst, trimEnd,
    dropWhile_eq_self (by simpa only [List.head?_reverse] using hlast), List.reverse_reverse]

theorem trimmed_of_forall {cs : List Char} (h : ∀ c ∈ cs, isBlank c = false) : Trimmed cs :=
  trimmed_iff.2
    ⟨fun c hc => h c (List.mem_of_mem_head? hc), fun c hc => h c (List.mem_of_mem_getLast? hc)⟩

end Text

def PostingRequest.plain (r : PostingRequest) : PostingRequest := { r with amount := r.amount.plain }

/-- Equal but for the sign of a zero. -/
structure PostingRequest.Same (r r' : PostingRequest) : Prop where
  fromAccount : r.fromAccount = r'.fromAccount
  toAccount : r.toAccount = r'.toAccount
  amount : r.amount.Same r'.amount
  key : r.key = r'.key

structure PostingRequest.Trimmed (r : PostingRequest) : Prop where
  fromAccount : Text.Trimmed r.fromAccount.toList
  toAccount : Text.Trimmed r.toAccount.toList
  key : Text.Trimmed r.key.toList

theorem PostingRequest.same_plain (r : PostingRequest) : r.plain.Same r :=
  ⟨rfl, rfl, r.amount.same_plain, rfl⟩

namespace Csv

open Text (encodeChar encodeChars encodeChars_cons encodeChars_append Trimmed)

/-- A byte that is a blank in ASCII comes of a blank only. -/
theorem isBlank_of_isAsciiBlank {b : UInt8} {c : Char} (hb : b ∈ encodeChar c)
    (hblank : isAsciiBlank b = true) : Text.isBlank c = true := by
  simp only [isAsciiBlank, Bool.or_eq_true, beq_iff_eq] at hblank
  have hcode : b.toNat < 0x80 := by
    rcases hblank with (((rfl | rfl) | rfl) | rfl) | rfl <;> decide
  have hc := (Text.mem_encodeChar_ascii hcode).1 hb
  unfold Text.isBlank
  rw [hc]
  rcases hblank with (((rfl | rfl) | rfl) | rfl) | rfl <;> decide

theorem trimBytes_encodeChars {cs : List Char} (h : Trimmed cs) :
    trimBytes (encodeChars cs) = encodeChars cs := by
  obtain ⟨hfirstChar, hlastChar⟩ := Text.trimmed_iff.1 h
  have hfirst : ∀ b ∈ (encodeChars cs).head?, isAsciiBlank b = false := by
    intro b hb
    cases cs with
    | nil => cases hb
    | cons c cs =>
      rw [encodeChars_cons, List.head?_append_of_ne_nil _ (Text.encodeChar_ne_nil c)] at hb
      by_contra hblank
      have hc := isBlank_of_isAsciiBlank (List.mem_of_mem_head? hb) (by simpa using hblank)
      rw [hfirstChar c rfl] at hc
      cases hc
  have hlast : ∀ b ∈ (encodeChars cs).getLast?, isAsciiBlank b = false := by
    intro b hb
    rcases List.eq_nil_or_concat cs with rfl | ⟨front, c, rfl⟩
    · cases hb
    · have hc := hlastChar c (by simp)
      rw [List.concat_eq_append, encodeChars_append, encodeChars_cons, Text.encodeChars_nil,
        List.append_nil, List.getLast?_append_of_ne_nil _ (Text.encodeChar_ne_nil c)] at hb
      by_contra hblank
      rw [isBlank_of_isAsciiBlank (List.mem_of_mem_getLast? hb) (by simpa using hblank)] at hc
      cases hc
  rw [trimBytes, Text.dropWhile_eq_self hfirst,
    Text.dropWhile_eq_self (by simpa only [List.head?_reverse] using hlast), List.reverse_reverse]

namespace Scan

/-- Where a scan is within a record, wherever that is in the file. -/
structure At (s : Scan) (phase : Phase) (field : List UInt8) (fields : List (List UInt8)) :
    Prop where
  phase : s.phase = phase
  field : s.field = field
  fields : s.fields = fields

variable {s : Scan} {phase : Phase} {field bytes : List UInt8} {fields : List (List UInt8)}
  {b : UInt8}

theorem At.moved (h : s.At phase field fields) (b : UInt8) : (s.moved b).At phase field fields :=
  ⟨h.phase, h.field, h.fields⟩

theorem At.copy (h : s.At phase field fields) (phase' : Phase) (b : UInt8) :
    (s.copy phase' b).At phase' (b :: field) fields :=
  ⟨rfl, congrArg (b :: ·) h.field, h.fields⟩

/-- A byte that means nothing to the scan. -/
structure Ordinary (b : UInt8) : Prop where
  comma : b ≠ comma
  quote : b ≠ quote
  lineFeed : b ≠ lineFeed
  carriageReturn : b ≠ carriageReturn

theorem records_of_step {s' : Scan} {rest : List UInt8} (h : s.step b = (none, s')) :
    s.records (b :: rest) = s'.records rest := by
  rw [records, h]

theorem unquoted_of_ordinary (h : Ordinary b) : s.unquoted b = (none, s.copy .plain b) := by
  simp [unquoted, isTerminator, h.comma, h.lineFeed, h.carriageReturn]

theorem copies (hs : s.At phase field fields)
    (hphase : phase = .recordStart ∨ phase = .fieldStart ∨ phase = .plain)
    (h : ∀ b ∈ bytes, Ordinary b) (rest : List UInt8) : ∃ s' : Scan,
      s.records (bytes ++ rest) = s'.records rest ∧
        s'.At (if bytes = [] then phase else .plain) (bytes.reverse ++ field) fields := by
  induction bytes generalizing s phase field with
  | nil => exact ⟨s, rfl, hs⟩
  | cons b bytes ih =>
    rw [List.forall_mem_cons] at h
    have hstep : s.step b = (none, (s.moved b).copy .plain b) := by
      have hterminator : isTerminator b = false := by
        simp [isTerminator, h.1.lineFeed, h.1.carriageReturn]
      have hcopy := unquoted_of_ordinary (s := s.moved b) h.1
      rw [step_eq]
      simp only [(hs.moved b).phase]
      rcases hphase with rfl | rfl | rfl
      · simp [opening, h.1.quote, hterminator, hcopy]
      · simp [opening, h.1.quote, hcopy]
      · exact hcopy
    obtain ⟨s', hrest, hend⟩ := ih ((hs.moved b).copy .plain b) (.inr (.inr rfl)) h.2
    refine ⟨s', (records_of_step hstep).trans hrest, ?_⟩
    rw [if_neg (List.cons_ne_nil b bytes), List.reverse_cons, List.append_assoc,
      List.singleton_append]
    split at hend <;> exact hend

theorem copies_quoted (hs : s.At .quoted field fields) (h : quote ∉ bytes) (rest : List UInt8) :
    ∃ s' : Scan, s.records (bytes ++ rest) = s'.records rest ∧
      s'.At .quoted (bytes.reverse ++ field) fields := by
  induction bytes generalizing s field with
  | nil => exact ⟨s, rfl, hs⟩
  | cons b bytes ih =>
    rw [List.mem_cons, not_or] at h
    have hstep : s.step b = (none, (s.moved b).copy .quoted b) := by
      rw [step_eq]
      simp [(hs.moved b).phase, Ne.symm h.1]
    obtain ⟨s', hrest, hend⟩ := ih ((hs.moved b).copy .quoted b) h.2
    refine ⟨s', (records_of_step hstep).trans hrest, ?_⟩
    rwa [List.reverse_cons, List.append_assoc, List.singleton_append]

theorem copies_quote (hs : s.At .quoted field fields) (rest : List UInt8) : ∃ s' : Scan,
    s.records (quote :: quote :: rest) = s'.records rest ∧
      s'.At .quoted (quote :: field) fields := by
  have hfirst : s.step quote = (none, { s.moved quote with phase := .quoteInQuoted }) := by
    rw [step_eq]
    simp [(hs.moved quote).phase]
  have hsecond : Scan.step { s.moved quote with phase := .quoteInQuoted } quote =
      (none, Scan.copy (Scan.moved { s.moved quote with phase := .quoteInQuoted } quote) .quoted
        quote) := by
    rw [step_eq]
    simp [moved]
  refine ⟨_, (records_of_step hfirst).trans (records_of_step hsecond), rfl, ?_, hs.fields⟩
  exact congrArg (quote :: ·) hs.field

theorem encodeChar_quote : encodeChar '"' = [quote] := by decide

/-- A text within quotes is copied as it was before its quotes were doubled. -/
theorem copies_doubled (hs : s.At .quoted field fields) (cs : List Char) (rest : List UInt8) :
    ∃ s' : Scan, s.records (encodeChars (doubled cs) ++ rest) = s'.records rest ∧
      s'.At .quoted ((encodeChars cs).reverse ++ field) fields := by
  induction cs generalizing s field with
  | nil => exact ⟨s, rfl, hs⟩
  | cons c cs ih =>
    by_cases hc : c = '"'
    · subst hc
      obtain ⟨s₁, hquote, hs₁⟩ := copies_quote hs (encodeChars (doubled cs) ++ rest)
      obtain ⟨s₂, hrest, hend⟩ := ih hs₁
      refine ⟨s₂, hquote.trans hrest, ?_⟩
      rw [encodeChars_cons, encodeChar_quote, List.reverse_append, List.append_assoc]
      exact hend
    · have hquote : quote ∉ encodeChar c := by
        rw [Text.mem_encodeChar_ascii (by decide)]
        intro hcode
        exact hc (Char.toNat_inj.1 hcode)
      obtain ⟨s₁, hchar, hs₁⟩ := copies_quoted hs hquote (encodeChars (doubled cs) ++ rest)
      obtain ⟨s₂, hrest, hend⟩ := ih hs₁
      refine ⟨s₂, ?_, ?_⟩
      · rw [doubled_cons, if_neg hc, List.singleton_append, encodeChars_cons, List.append_assoc]
        exact hchar.trans hrest
      · rw [encodeChars_cons, List.reverse_append, List.append_assoc]
        exact hend

/-- Where a scan is that has copied a field: no byte has been read since its start, or it stands
outside quotes, or behind the closing quote. -/
structure Filled (s : Scan) (start : Phase) (field : List UInt8) (fields : List (List UInt8)) :
    Prop where
  phase : s.phase = start ∨ s.phase = .plain ∨ s.phase = .quoteInQuoted
  field : s.field = field.reverse
  fields : s.fields = fields

theorem ordinary_of_mem {cs : List Char} (h : needsQuotes cs = false) (hb : b ∈ encodeChars cs) :
    Ordinary b := by
  have hnone {c : Char} (hc : c = ',' ∨ c = '"' ∨ c = '\n' ∨ c = '\r')
      (hmem : c ∈ cs) : False := by
    have hother := List.any_eq_false.1 h c hmem
    simp only [decide_eq_true_eq, Bool.or_eq_true] at hother
    tauto
  constructor
  all_goals
    rintro rfl
    obtain ⟨c, hc, hcode⟩ := (Text.mem_encodeChars_ascii (by decide)).1 hb
  · exact hnone (.inl (Char.toNat_inj.1 hcode)) hc
  · exact hnone (.inr (.inl (Char.toNat_inj.1 hcode))) hc
  · exact hnone (.inr (.inr (.inl (Char.toNat_inj.1 hcode)))) hc
  · exact hnone (.inr (.inr (.inr (Char.toNat_inj.1 hcode)))) hc

/-- What is written for a text is copied as the text's bytes. -/
theorem fills (hs : s.At phase [] fields) (hphase : phase = .recordStart ∨ phase = .fieldStart)
    (text : String) (rest : List UInt8) : ∃ s' : Scan,
      s.records (encodeChars (writeField text) ++ rest) = s'.records rest ∧
        s'.Filled phase (encodeChars text.toList) fields := by
  unfold writeField
  split
  · have hopen : s.step quote = (none, { s.moved quote with phase := .quoted }) := by
      rw [step_eq]
      simp only [(hs.moved quote).phase]
      rcases hphase with rfl | rfl <;> rfl
    have hopened : At { s.moved quote with phase := .quoted } .quoted [] fields :=
      ⟨rfl, hs.field, hs.fields⟩
    obtain ⟨s', hcopied, hs'⟩ := copies_doubled hopened text.toList (quote :: rest)
    have hclose : s'.step quote = (none, { s'.moved quote with phase := .quoteInQuoted }) := by
      rw [step_eq]
      simp [(hs'.moved quote).phase]
    refine ⟨{ s'.moved quote with phase := .quoteInQuoted }, ?_, .inr (.inr rfl), ?_, hs'.fields⟩
    · rw [encodeChars_append, encodeChars_cons, encodeChar_quote, encodeChars_cons,
        encodeChar_quote, List.append_assoc, List.append_assoc]
      exact (records_of_step hopen).trans (hcopied.trans (records_of_step hclose))
    · exact hs'.field.trans (List.append_nil _)
  · next hplain =>
    rw [Bool.not_eq_true] at hplain
    obtain ⟨s', hcopied, hs'⟩ := copies hs (hphase.imp_right .inl)
      (fun b hb => ordinary_of_mem hplain hb) rest
    refine ⟨s', hcopied, ?_, hs'.field.trans (List.append_nil _), hs'.fields⟩
    rw [hs'.phase]
    split
    · exact .inl rfl
    · exact .inr (.inl rfl)

theorem Filled.moved (h : s.Filled phase field fields) (b : UInt8) :
    (s.moved b).Filled phase field fields :=
  ⟨h.phase, h.field, h.fields⟩

theorem Filled.endField (h : s.Filled phase field fields) :
    s.endField.At .fieldStart [] (field :: fields) := by
  refine ⟨rfl, rfl, ?_⟩
  rw [Scan.endField, h.field, h.fields, List.reverse_reverse]

theorem Filled.comma (h : s.Filled phase field fields)
    (hphase : phase = .recordStart ∨ phase = .fieldStart) (rest : List UInt8) : ∃ s' : Scan,
      s.records (Csv.comma :: rest) = s'.records rest ∧ s'.At .fieldStart [] (field :: fields) := by
  have hstep : s.step Csv.comma = (none, (s.moved Csv.comma).endField) := by
    rw [step_eq]
    dsimp only
    rcases (h.moved Csv.comma).phase with hp | hp | hp
    · rcases hphase with rfl | rfl <;> rw [hp] <;> rfl
    · rw [hp]
      rfl
    · rw [hp]
      rfl
  exact ⟨_, records_of_step hstep, (h.moved Csv.comma).endField⟩

theorem Filled.lineFeed (h : s.Filled .fieldStart field fields) (rest : List UInt8) :
    ∃ (r : RawRecord) (s' : Scan), s.records (Csv.lineFeed :: rest) = r :: s'.records rest ∧
      r.fields = (field :: fields).reverse ∧ s'.At .recordStart [] [] := by
  have hstep : s.step Csv.lineFeed = (s.moved Csv.lineFeed).finish Csv.lineFeed := by
    rw [step_eq]
    dsimp only
    rcases (h.moved Csv.lineFeed).phase with hp | hp | hp <;> rw [hp] <;> rfl
  refine ⟨_, _, by rw [records, hstep, finish], ?_, rfl, rfl, rfl⟩
  rw [record, (h.moved Csv.lineFeed).endField.fields]

theorem encodeChar_comma : encodeChar ',' = [Csv.comma] := by decide

theorem encodeChar_lineFeed : encodeChar '\n' = [Csv.lineFeed] := by decide

theorem records_writeRecord (hs : s.At phase [] fields) (text : String) (texts : List String)
    (hphase : phase = .fieldStart ∨ phase = .recordStart ∧ texts ≠ []) (rest : List UInt8) :
    ∃ (r : RawRecord) (s' : Scan),
      s.records (encodeChars (writeRecord (text :: texts)) ++ rest) = r :: s'.records rest ∧
        r.fields = fields.reverse ++ (text :: texts).map (encodeChars ·.toList) ∧
        s'.At .recordStart [] [] := by
  induction texts generalizing s phase fields text with
  | nil =>
    obtain rfl : phase = .fieldStart := hphase.resolve_right fun h => h.2 rfl
    obtain ⟨s₁, hread, hfilled⟩ := fills hs (.inr rfl) text (Csv.lineFeed :: rest)
    obtain ⟨r, s₂, hend, hfields, hstart⟩ := hfilled.lineFeed rest
    refine ⟨r, s₂, ?_, ?_, hstart⟩
    · rw [← hend, ← hread]
      simp [writeRecord_singleton, encodeChars_append, encodeChars_cons, encodeChar_lineFeed]
    · rw [hfields, List.reverse_cons]
      rfl
  | cons next texts ih =>
    have hstart : phase = .recordStart ∨ phase = .fieldStart := hphase.elim .inr fun h => .inl h.1
    obtain ⟨s₁, hread, hfilled⟩ := fills hs hstart text
      (Csv.comma :: encodeChars (writeRecord (next :: texts)) ++ rest)
    obtain ⟨s₂, hcomma, hnext⟩ := hfilled.comma hstart
      (encodeChars (writeRecord (next :: texts)) ++ rest)
    obtain ⟨r, s₃, hrest, hfields, hend⟩ := ih hnext next (.inl rfl)
    refine ⟨r, s₃, ?_, ?_, hend⟩
    · rw [← hrest, ← hcomma, writeRecord_cons, encodeChars_append, encodeChars_cons,
        encodeChar_comma, List.append_assoc]
      exact hread
    · rw [hfields, List.reverse_cons, List.append_assoc]
      rfl

theorem records_writeRecords (hs : s.At .recordStart [] []) {rows : List (List String)}
    (h : ∀ row ∈ rows, 2 ≤ row.length) :
    (s.records (encodeChars (rows.flatMap writeRecord))).map (·.fields) =
      rows.map (·.map (encodeChars ·.toList)) := by
  induction rows generalizing s with
  | nil =>
    have hclosed : s.isOpen = false := by simp [isOpen, hs.phase]
    exact congrArg _ (records_of_closed hclosed)
  | cons row rows ih =>
    rw [List.forall_mem_cons] at h
    obtain ⟨text, next, texts, rfl⟩ : ∃ text next texts, row = text :: next :: texts := by
      match row, h.1 with
      | text :: next :: texts, _ => exact ⟨text, next, texts, rfl⟩
    obtain ⟨r, s', hread, hfields, hs'⟩ := records_writeRecord hs text (next :: texts)
      (.inr ⟨rfl, List.cons_ne_nil next texts⟩) (encodeChars (rows.flatMap writeRecord))
    rw [List.flatMap_cons, encodeChars_append, hread, List.map_cons, hfields, ih hs' h.2]
    rfl

end Scan

def requestColumns : List String := ["from_account", "to_account", "amount", "idempotency_key"]

def requestCells (r : PostingRequest) : List String :=
  [r.fromAccount, r.toAccount, r.amount.text, r.key]

def requestsReport (rs : List PostingRequest) : String :=
  writeRecords (requestColumns :: rs.map requestCells)

theorem trimmedTexts_encodeChars (field : Nat) {texts : List String}
    (h : ∀ text ∈ texts, Trimmed text.toList) :
    trimmedTexts field (texts.map (encodeChars ·.toList)) = .ok texts := by
  induction texts generalizing field with
  | nil => rfl
  | cons text texts ih =>
    rw [List.forall_mem_cons] at h
    rw [List.map_cons, trimmedTexts, Text.decodeChars_encodeChars, ih (field + 1) h.2]
    simp only [Text.trim_of_trimmed h.1, String.ofList_toList]
    rfl

section Rows

variable {r : RawRecord} {texts : List String}

theorem names_of_fields (hfields : r.fields = texts.map (encodeChars ·.toList))
    (h : ∀ text ∈ texts, Trimmed text.toList) : r.names = .ok texts := by
  rw [RawRecord.names, RawRecord.textsOf, hfields, trimmedTexts_encodeChars 1 h]

theorem cells_of_fields (hfields : r.fields = texts.map (encodeChars ·.toList))
    (h : ∀ text ∈ texts, Trimmed text.toList) : r.cells = .ok texts := by
  have htrim : r.fields.map trimBytes = texts.map (encodeChars ·.toList) := by
    rw [hfields, List.map_map]
    exact List.map_congr_left fun text ht => trimBytes_encodeChars (h text ht)
  rw [RawRecord.cells, RawRecord.textsOf, htrim, trimmedTexts_encodeChars 1 h]

end Rows

theorem isBlank_of_mem_chars {d : Decimal} {c : Char} (h : c ∈ d.chars) :
    Text.isBlank c = false := by
  simp only [Decimal.chars, List.mem_append] at h
  rcases h with (h | h) | h
  · split at h
    · rw [List.mem_singleton.1 h]
      decide
    · cases h
  · exact Moment.isBlank_of_isDigit (Text.isDigit_of_mem_digits h)
  · split at h
    · cases h
    · rcases List.mem_cons.1 h with rfl | h
      · decide
      · exact Moment.isBlank_of_isDigit (Text.isDigit_of_mem_fixedDigits h)

theorem chars_ne_nil (d : Decimal) : d.chars ≠ [] := by
  simp [Decimal.chars, Text.digits_ne_nil]

theorem trimmed_chars (d : Decimal) : Trimmed d.chars :=
  Text.trimmed_of_forall fun _ hc => isBlank_of_mem_chars hc

theorem rowUnder_requestColumns (a b c d : String) : rowUnder requestColumns [a, b, c, d] =
    .ok ⟨a, b, if c.isEmpty then none else some c, d⟩ := rfl

theorem toRequest_requestCells {r : RawRecord} {request : PostingRequest}
    (hfields : r.fields = (requestCells request).map (encodeChars ·.toList))
    (h : request.Trimmed) : r.toRequest (some requestColumns) = .ok request.plain := by
  have htrimmed : ∀ text ∈ requestCells request, Trimmed text.toList := by
    simp only [requestCells, List.forall_mem_cons, Decimal.text, String.toList_ofList]
    exact ⟨h.fromAccount, h.toAccount, trimmed_chars _, h.key, by simp⟩
  have hamount : request.amount.text.isEmpty = false := by
    rw [Bool.eq_false_iff, ne_eq, String.isEmpty_iff, ← String.toList_eq_nil_iff, Decimal.text,
      String.toList_ofList]
    exact chars_ne_nil _
  have hrow : rowUnder requestColumns (requestCells request) =
      .ok ⟨request.fromAccount, request.toAccount, some request.amount.text, request.key⟩ := by
    rw [requestCells, rowUnder_requestColumns, hamount]
    rfl
  have hread : PostingRow.toRequest
      ⟨request.fromAccount, request.toAccount, some request.amount.text, request.key⟩ =
        .ok request.plain := by
    simp only [PostingRow.toRequest, Decimal.text, String.toList_ofList,
      Text.trim_of_trimmed (trimmed_chars _), List.isEmpty_iff, chars_ne_nil, if_false,
      Decimal.ofChars_chars]
    rfl
  simp only [RawRecord.toRequest, cells_of_fields hfields htrimmed, bind, Except.bind, hrow, hread]

theorem map_toRequest {records : List RawRecord} {rs : List PostingRequest}
    (hrecords : records.map (·.fields) = (rs.map requestCells).map (·.map (encodeChars ·.toList)))
    (h : ∀ r ∈ rs, r.Trimmed) :
    records.map (·.toRequest (some requestColumns)) = rs.map (.ok ·.plain) := by
  induction rs generalizing records with
  | nil => rw [List.map_eq_nil_iff.1 hrecords]; rfl
  | cons r rs ih =>
    rw [List.forall_mem_cons] at h
    obtain ⟨record, others, rfl, hfields, hothers⟩ := List.map_eq_cons_iff.1 hrecords
    rw [List.map_cons, List.map_cons, toRequest_requestCells hfields h.1, ih hothers h.2]

theorem records_of_head {bytes : List UInt8} (h : bytes.head? ≠ some 0xEF) :
    records bytes = ({} : Scan).records bytes := by
  unfold records
  split
  · exact absurd rfl h
  · rfl

theorem ofBytes_requestsReport {rs : List PostingRequest} (h : ∀ r ∈ rs, r.Trimmed) :
    Reader.ofBytes (Text.encode (requestsReport rs)) = { rows := rs.map (.ok ·.plain) } := by
  have hbytes : Text.encode (requestsReport rs) =
      encodeChars ((requestColumns :: rs.map requestCells).flatMap writeRecord) := by
    rw [Text.encode, requestsReport, writeRecords, String.toList_ofList]
  have hhead : (Text.encode (requestsReport rs)).head? ≠ some 0xEF := by
    have hheader : (encodeChars (writeRecord requestColumns)).head? = some 0x66 := by decide
    rw [hbytes, List.flatMap_cons, encodeChars_append, List.head?_append, hheader, Option.some_or]
    decide
  have htwo : ∀ row ∈ requestColumns :: rs.map requestCells, 2 ≤ row.length := by
    rw [List.forall_mem_cons, List.forall_mem_map]
    exact ⟨by decide, fun r _ => by simp [requestCells]⟩
  have hread := Scan.records_writeRecords (s := {}) ⟨rfl, rfl, rfl⟩ htwo
  rw [← hbytes, ← records_of_head hhead] at hread
  obtain ⟨header, rows, hrecords, hnames, hrows⟩ := List.map_eq_cons_iff.1 hread
  have hcolumns : ∀ name ∈ requestColumns, Trimmed name.toList := by decide
  simp only [Reader.ofBytes, hrecords, names_of_fields hnames hcolumns, map_toRequest hrows h]

theorem takeRequests_ok (n : Nat) (rs : List PostingRequest) :
    takeRequests n (rs.map .ok) = (⟨rs.take n, []⟩, (rs.drop n).map .ok) := by
  induction rs generalizing n with
  | nil => cases n <;> simp [takeRequests]
  | cons r rs ih =>
    cases n with
    | zero => rfl
    | succ n => rw [List.map_cons, takeRequests, ih n]; rfl

theorem readBatch_ok (n : Nat) (rs : List PostingRequest) :
    ({ rows := rs.map .ok } : Reader).readBatch n =
      (⟨rs.take n, []⟩, { rows := (rs.drop n).map .ok }) := by
  unfold Reader.readBatch
  split
  · next hn => rw [hn]; rfl
  · rw [takeRequests_ok]
    rfl

theorem inBatches_ok (sizes : List Nat) (rs : List PostingRequest) :
    requestsIn (inBatches Reader.readBatch { rows := rs.map .ok } sizes).1 = rs.take sizes.sum ∧
      faultsIn (inBatches Reader.readBatch { rows := rs.map .ok } sizes).1 = [] ∧
      (inBatches Reader.readBatch { rows := rs.map .ok } sizes).2 =
        { rows := (rs.drop sizes.sum).map .ok } := by
  induction sizes generalizing rs with
  | nil => simp [inBatches, requestsIn, faultsIn]
  | cons n sizes ih =>
    obtain ⟨hrequests, hfaults, hrest⟩ := ih (rs.drop n)
    simp only [inBatches, readBatch_ok, requestsIn, faultsIn, List.flatMap_cons, List.nil_append,
      List.sum_cons] at hrequests hfaults hrest ⊢
    refine ⟨?_, hfaults, ?_⟩
    · rw [hrequests, List.take_add]
    · rw [hrest, List.drop_drop]

/-- A file with a header and a row for each request, whatever the texts of the requests are as long
as there are no blanks at their ends, is read back as these requests in batches of any sizes that
reach its end. -/
theorem requests_read_back {rs : List PostingRequest} (h : ∀ r ∈ rs, r.Trimmed)
    {sizes : List Nat} (hsizes : rs.length ≤ sizes.sum) {bs : List Batch} {r' : Reader}
    (hread : inBatches Reader.readBatch (.ofBytes (Text.encode (requestsReport rs))) sizes =
      (bs, r')) :
    List.Forall₂ PostingRequest.Same (requestsIn bs) rs ∧ faultsIn bs = [] ∧ r'.malformed = 0 ∧
      r'.rows = [] := by
  have hfile : Reader.ofBytes (Text.encode (requestsReport rs)) =
      { rows := (rs.map (·.plain)).map .ok } := by
    rw [ofBytes_requestsReport h, List.map_map]
    rfl
  obtain ⟨hrequests, hfaults, hrest⟩ := inBatches_ok sizes (rs.map (·.plain))
  rw [← hfile, hread] at hrequests hfaults hrest
  rw [List.take_of_length_le (by simpa using hsizes)] at hrequests
  rw [List.drop_of_length_le (by simpa using hsizes)] at hrest
  refine ⟨?_, hfaults, congrArg Reader.malformed hrest, congrArg Reader.rows hrest⟩
  have hall : requestsIn bs = rs.map (·.plain) := hrequests
  rw [hall, List.forall₂_map_left_iff, List.forall₂_same]
  exact fun r _ => r.same_plain

def oddRequests : List PostingRequest :=
  [⟨"a,\"b\"\r\nc", "",
      { Decimal.zero.negate with scale := 2, scale_le := Nat.le_add_right 2 26 }, "\"\n\""⟩,
    ⟨"", "ü, \"", .ofWord true 7, "\"\""⟩]

theorem requests_read_back_odd :
    (∀ r ∈ oddRequests, r.Trimmed) ∧ oddRequests.length ≤ [1, 1].sum ∧
      List.Forall₂ PostingRequest.Same (requestsIn (inBatches Reader.readBatch
        (.ofBytes (Text.encode (requestsReport oddRequests))) [1, 1]).1) oddRequests := by
  have htrimmed : ∀ r ∈ oddRequests, r.Trimmed := by
    simp only [oddRequests, List.forall_mem_cons]
    exact ⟨⟨by decide, by decide, by decide⟩, ⟨by decide, by decide, by decide⟩, by simp⟩
  have hsizes : oddRequests.length ≤ [1, 1].sum := by decide
  exact ⟨htrimmed, hsizes, (requests_read_back htrimmed hsizes (Prod.mk.eta).symm).1⟩

end Csv

end Bookkeeping
