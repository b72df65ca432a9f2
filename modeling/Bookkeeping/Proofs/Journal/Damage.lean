import Bookkeeping.Proofs.Digest.Crc32
import Bookkeeping.Proofs.Journal.Whole
import Bookkeeping.Proofs.Posting.Pieces

/-! A journal with one byte changed: the line with that byte is decoded as the posting it was
written for, or not at all, and so is the line that it makes with the one after it. -/
namespace Bookkeeping.Journal

open Text (encodeChars)

def space : UInt8 := 0x20

theorem append_cons_inj {α : Type} {x : α} {a b c d : List α} (ha : x ∉ a) (hc : x ∉ c)
    (h : a ++ x :: b = c ++ x :: d) : a = c ∧ b = d := by
  rcases List.append_eq_append_iff.1 h with ⟨e, rfl, he⟩ | ⟨e, rfl, he⟩
  · rcases List.cons_eq_append_iff.1 he with ⟨rfl, hd⟩ | ⟨e', rfl, -⟩
    · exact ⟨by simp, by simpa using hd.symm⟩
    · simp at hc
  · rcases List.cons_eq_append_iff.1 he with ⟨rfl, hb⟩ | ⟨e', rfl, -⟩
    · exact ⟨by simp, by simpa using hb⟩
    · simp at ha

theorem append_cons_eq_append_cons {α : Type} {x y : α} {a b c d : List α}
    (h : a ++ x :: b = c ++ y :: d) :
    (∃ e, a = c ++ y :: e ∧ d = e ++ x :: b) ∨ (c = a ∧ y = x ∧ d = b) ∨
      ∃ e, c = a ++ x :: e ∧ b = e ++ y :: d := by
  rcases List.append_eq_append_iff.1 h with ⟨e, rfl, he⟩ | ⟨e, rfl, he⟩
  · rcases List.cons_eq_append_iff.1 he with ⟨rfl, hd⟩ | ⟨e', rfl, hb⟩
    · cases hd
      exact .inr (.inl ⟨by simp, rfl, rfl⟩)
    · exact .inr (.inr ⟨e', rfl, hb⟩)
  · rcases List.cons_eq_append_iff.1 he with ⟨rfl, hb⟩ | ⟨e', rfl, hd⟩
    · cases hb
      exact .inr (.inl ⟨by simp, rfl, rfl⟩)
    · exact .inl ⟨e', rfl, hd⟩

theorem lineBody_parts (p : Posting) :
    lineBody p = encodeChars (checksumChars p) ++ space :: encodeChars p.write := by
  rw [lineBody_eq, lineChars_eq, Text.encodeChars_append, Text.encodeChars_cons]
  rfl

theorem space_notMem_encodeChars {cs : List Char} (h : ' ' ∉ cs) : space ∉ encodeChars cs :=
  fun hmem => h ((Text.byte_mem_encodeChars (c := ' ') (by decide)).1 hmem)

theorem encodeChar_of_mem_checksum {p : Posting} {b : UInt8}
    (h : b ∈ encodeChars (checksumChars p)) :
    ∃ c, Text.isHexDigit c = true ∧ Text.encodeChar c = [b] := by
  obtain ⟨c, hc, hb⟩ := List.mem_flatMap.1 h
  have hdigit := isHexDigit_of_mem_checksumChars hc
  have hascii : c.toNat < 0x80 := by
    have := Text.isHexDigit_iff.1 hdigit
    omega
  refine ⟨c, hdigit, ?_⟩
  simp only [Text.encodeChar, hascii, if_true, List.mem_singleton] at hb ⊢
  rw [hb]

def brace : UInt8 := 0x7B

theorem exists_encodeChars_write (p : Posting) :
    ∃ bytes, encodeChars p.write = brace :: bytes := by
  rw [p.write_eq, Posting.members, Json.writeObject_cons, Text.encodeChars_cons]
  exact ⟨_, rfl⟩

theorem brace_mem_of_encodeChars {cs : List Char} (h : brace ∈ encodeChars cs) : '{' ∈ cs :=
  (Text.byte_mem_encodeChars (c := '{') (by decide)).1 h

theorem decodeLine_eq_ok {bytes : List UInt8} {q : Posting} (h : decodeLine bytes = .ok q) :
    ∃ sum json n, bytes = encodeChars sum ++ space :: encodeChars json ∧ ' ' ∉ sum ∧
      Text.readNatural 16 (twoTo 32) sum = .ok n ∧
      (Digest.crc32 (encodeChars json)).toNat = n ∧
      Json.ofChars Posting.schema.read json = .ok q := by
  rcases decodeLine_cases bytes with ⟨sum, json, rfl, hsum, hread, hdecode⟩ | ⟨fault, hdecode, -⟩
  · refine ⟨sum, json, _, ?_, hsum, hread, rfl, ?_⟩
    · rw [Text.encodeChars_append, Text.encodeChars_cons]
      rfl
    · rw [hdecode] at h
      cases hjson : Json.ofChars Posting.schema.read json with
      | error f => simp [hjson, Except.mapError] at h
      | ok p => simpa [hjson, Except.mapError] using h
  · rw [hdecode] at h
    cases h

section Line

variable {p q : Posting} {first second : List UInt8} {b b' : UInt8}

theorem decodeLine_checksum {bytes : List UInt8}
    (h : decodeLine (encodeChars (checksumChars p) ++ space :: bytes) = .ok q) :
    ∃ json, bytes = encodeChars json ∧
      Digest.crc32 bytes = Digest.crc32 (encodeChars p.write) ∧
      Json.ofChars Posting.schema.read json = .ok q := by
  obtain ⟨sum, json, n, hbytes, hspace, hn, hcrc, hjson⟩ := decodeLine_eq_ok h
  obtain ⟨hsum, rfl⟩ := append_cons_inj (space_notMem_encodeChars (space_notMem_checksumChars p))
    (space_notMem_encodeChars hspace) hbytes
  obtain rfl := Text.encodeChars_inj hsum
  rw [readNatural_checksumChars] at hn
  refine ⟨json, rfl, UInt32.toNat_inj.1 ?_, hjson⟩
  rw [hcrc]
  exact (Except.ok.inj hn).symm

/-- A byte changed in the checksum is noticed, or has no effect. -/
theorem decodeLine_sum_changed {digits : List UInt8}
    (hplace : encodeChars (checksumChars p) = first ++ b :: digits)
    (h : decodeLine (first ++ b' :: (digits ++ space :: encodeChars p.write)) = .ok q) :
    q = p.plain := by
  obtain ⟨sum, json, n, hbytes, hspace, hn, hcrc, hjson⟩ := decodeLine_eq_ok h
  have hnone := space_notMem_encodeChars (space_notMem_checksumChars p)
  rw [hplace, List.mem_append, List.mem_cons, not_or, not_or] at hnone
  obtain ⟨hfirst, -, hdigits⟩ := hnone
  by_cases hb' : b' = space
  · -- the digits after a new space would be the beginning of the record
    subst hb'
    obtain ⟨-, hrecord⟩ := append_cons_inj hfirst (space_notMem_encodeChars hspace) hbytes
    cases digits with
    | nil =>
      have hyields := Json.Schema.yields_read_space (p.yields_write [])
      obtain rfl : ' ' :: p.write = json :=
        Text.encodeChars_inj (by rw [← hrecord, Text.encodeChars_cons]; rfl)
      rw [List.append_nil] at hyields
      rw [Json.ofChars_of_yields hyields] at hjson
      exact (Except.ok.inj hjson).symm
    | cons d digits =>
      obtain ⟨c, hc, hd⟩ := encodeChar_of_mem_checksum (p := p) (b := d) (by rw [hplace]; simp)
      have hstart : encodeChars json =
          encodeChars [c] ++ (digits ++ space :: encodeChars p.write) := by
        rw [← hrecord, Text.encodeChars_cons, hd]
        rfl
      obtain ⟨cs, rfl, -⟩ := Text.exists_of_encodeChars_append hstart
      have hne (x : Char) (hx : Text.isHexDigit x = false) : c ≠ x := by
        rintro rfl
        rw [hx] at hc
        cases hc
      have hvisible : Json.isSpace c = false := by
        simp [Json.isSpace, hne ' ' rfl, hne '\n' rfl, hne '\r' rfl, hne '\t' rfl]
      obtain ⟨f, hf⟩ := Json.ofChars_of_refuses
        (Json.Schema.refuses_read_of_ne hvisible (hne '{' rfl) (hne '[' rfl) cs)
      exact absurd (hf.symm.trans hjson) (by simp)
  · have hsum : space ∉ first ++ b' :: digits := by
      simp [hfirst, hdigits, Ne.symm hb']
    rw [← List.cons_append, ← List.append_assoc] at hbytes
    obtain ⟨-, hrecord⟩ := append_cons_inj hsum (space_notMem_encodeChars hspace) hbytes
    obtain rfl := Text.encodeChars_inj hrecord
    rw [ofChars_write] at hjson
    exact (Except.ok.inj hjson).symm

/-- Without the space after it, the checksum goes on into the record. -/
theorem decodeLine_space_changed (hb' : b' ≠ space) :
    decodeLine (encodeChars (checksumChars p) ++ b' :: encodeChars p.write) ≠ .ok q := by
  intro h
  obtain ⟨sum, json, n, hbytes, hspace, hn, hcrc, hjson⟩ := decodeLine_eq_ok h
  have hsum := space_notMem_encodeChars hspace
  have hnone := space_notMem_encodeChars (space_notMem_checksumChars p)
  obtain ⟨bytes, hwrite⟩ := exists_encodeChars_write p
  rcases append_cons_eq_append_cons hbytes with ⟨e, hplace, -⟩ | ⟨-, heq, -⟩ | ⟨e, hplace, hrecord⟩
  · exact hnone (by rw [hplace]; simp)
  · exact hb' heq.symm
  · -- the brace is among what is read as a checksum
    rw [hwrite] at hrecord
    rcases List.cons_eq_append_iff.1 hrecord with ⟨-, hstart⟩ | ⟨e', rfl, -⟩
    · exact absurd (List.cons_eq_cons.1 hstart).1 (by decide)
    · have hbrace : '{' ∈ sum := brace_mem_of_encodeChars (by rw [hplace]; simp)
      exact absurd (Text.isHexDigit_of_readNatural hn '{' hbrace) (by decide)

/-- A byte changed in the record is noticed by the checksum. -/
theorem decodeLine_record_changed (hb : b' ≠ b)
    (hplace : encodeChars p.write = first ++ b :: second) :
    decodeLine (encodeChars (checksumChars p) ++ space :: (first ++ b' :: second)) ≠ .ok q := by
  intro h
  obtain ⟨json, -, hcrc, -⟩ := decodeLine_checksum h
  rw [hplace] at hcrc
  exact hb (Digest.crc32_place_injective first second hcrc)

/-- A line with one byte changed is decoded as its posting, if at all. -/
theorem decodeLine_changed (hb : b' ≠ b) (hplace : lineBody p = first ++ b :: second)
    (h : decodeLine (first ++ b' :: second) = .ok q) : q = p.plain := by
  rw [lineBody_parts] at hplace
  rcases append_cons_eq_append_cons hplace with ⟨digits, hsum, rfl⟩ | ⟨rfl, rfl, rfl⟩ |
    ⟨piece, rfl, hrecord⟩
  · exact decodeLine_sum_changed hsum h
  · exact absurd h (decodeLine_space_changed hb)
  · rw [List.append_assoc] at h
    exact absurd h (decodeLine_record_changed hb hrecord)

theorem decodeLine_piece (hplace : lineBody p = first ++ b :: second) :
    decodeLine first ≠ .ok q := by
  intro h
  obtain ⟨sum, json, n, rfl, hspace, -, -, hjson⟩ := decodeLine_eq_ok h
  rw [lineBody_parts, List.append_assoc] at hplace
  obtain ⟨-, hrecord⟩ := append_cons_inj (space_notMem_encodeChars (space_notMem_checksumChars p))
    (space_notMem_encodeChars hspace) hplace
  obtain ⟨missing, hwrite, hmissing⟩ := Text.exists_of_encodeChars_append hrecord
  have hnil : missing ≠ [] := by
    rintro rfl
    cases hmissing
  obtain ⟨f, hf⟩ := Json.ofChars_of_refuses (p.refusesPieces_write json missing hnil hwrite)
  rw [hf] at hjson
  cases hjson

/-- Two lines in one are not decoded. -/
theorem decodeLine_joined (p' : Posting) :
    decodeLine (lineBody p ++ b :: lineBody p') ≠ .ok q := by
  intro h
  rw [lineBody_parts p, List.append_assoc] at h
  obtain ⟨json, hbytes, -, hjson⟩ := decodeLine_checksum h
  obtain ⟨rest, rfl, hrest⟩ := Text.exists_of_encodeChars_append hbytes.symm
  obtain ⟨bytes, hwrite⟩ := exists_encodeChars_write p'
  have hbrace : '{' ∈ rest :=
    brace_mem_of_encodeChars (by rw [hrest, lineBody_parts, hwrite]; simp)
  obtain ⟨f, hf⟩ := Json.ofChars_of_trailing (p.yields_write rest) hbrace (by decide)
  rw [hf] at hjson
  cases hjson

end Line

section File

variable {ps : List Posting} {first rest body : List UInt8} {b b' : UInt8} {line : Nat}
  {r r' : Recovered}

theorem exists_line_of_place (h : encodeLines ps = first ++ b :: rest) :
    ∃ done p later piece second, ps = done ++ p :: later ∧ first = encodeLines done ++ piece ∧
      encodeLine p = piece ++ b :: second ∧ rest = second ++ encodeLines later := by
  induction ps generalizing first with
  | nil => simp at h
  | cons p ps ih =>
    rw [encodeLines_cons] at h
    rcases List.append_eq_append_iff.1 h with ⟨first', rfl, hlater⟩ | ⟨piece, hline, hrest⟩
    · obtain ⟨done, p', later, piece, second, rfl, rfl, hline, rfl⟩ := ih hlater
      exact ⟨p :: done, p', later, piece, second, rfl, by simp, hline, rfl⟩
    rcases List.cons_eq_append_iff.1 hrest with ⟨rfl, hlater⟩ | ⟨second, rfl, rfl⟩
    · -- the byte is the first of the next line
      obtain ⟨done, p', later, piece, second, rfl, hnil, hline', rfl⟩ :=
        ih (show encodeLines ps = [] ++ b :: rest from hlater.symm ▸ rfl)
      obtain ⟨hdone, rfl⟩ := List.append_eq_nil_iff.1 hnil.symm
      refine ⟨p :: done, p', later, [], second, rfl, ?_, hline', rfl⟩
      rw [encodeLines_cons, hdone, hline]
      simp
    · exact ⟨[], p, ps, first, second, rfl, rfl, hline, rfl⟩

theorem recoverFrom_bad (hbody : newline ∉ body) (hdecode : ∀ q, decodeLine body ≠ .ok q)
    (h : recoverFrom line r (body ++ newline :: rest) = .ok r') : rest = [] ∧ r' = r := by
  rw [recoverFrom] at h
  split at h
  · next hnone =>
    rw [firstLine_append rest hbody] at hnone
    cases hnone
  · next hsome =>
    rw [firstLine_append rest hbody] at hsome
    cases hsome
    split at h
    · split at h
      · next hempty =>
        cases h
        exact ⟨List.isEmpty_iff.1 hempty, rfl⟩
      · cases h
    · next hok => exact absurd hok (hdecode _)

theorem encodeLines_eq_nil : encodeLines ps = [] ↔ ps = [] := by
  cases ps with
  | nil => simp
  | cons p ps => simp

/-- With its line feed changed, the last line is left out, and so is the last line but one together
with the last. -/
theorem recoverFrom_joined {p : Posting} {later : List Posting} (hb : b' ≠ newline)
    (h : recoverFrom line r (lineBody p ++ b' :: encodeLines later) = .ok r') :
    later.length ≤ 1 ∧ r' = r := by
  have hp := newline_notMem_lineBody p
  cases later with
  | nil =>
    have hnone : newline ∉ lineBody p ++ [b'] := by simp [hp, Ne.symm hb]
    rw [encodeLines_nil, recoverFrom_of_notMem hnone] at h
    cases h
    exact ⟨Nat.zero_le 1, rfl⟩
  | cons p' later =>
    have hbody : newline ∉ lineBody p ++ b' :: lineBody p' := by
      simp [hp, Ne.symm hb, newline_notMem_lineBody p']
    rw [encodeLines_cons, encodeLine, List.append_assoc, ← List.cons_append, ← List.append_assoc]
      at h
    obtain ⟨hlater, rfl⟩ := recoverFrom_bad hbody (fun q => decodeLine_joined p') h
    exact ⟨by simp [encodeLines_eq_nil.1 hlater], rfl⟩

/-- With a byte before its line feed changed, a line is recovered as the same posting, or left out
if it is the last. -/
theorem recoverFrom_changed {p : Posting} {done later : List Posting} {piece second : List UInt8}
    {length : Nat} (hkeys : ((done ++ p :: later).map (·.key)).Nodup) (hb : b' ≠ b)
    (hplace : lineBody p = piece ++ b :: second)
    (h : recoverFrom line ⟨Book.of (done.map (·.plain)), length⟩
      (piece ++ b' :: (second ++ newline :: encodeLines later)) = .ok r') :
    (later = [] ∧ r'.book = Book.of (done.map (·.plain))) ∨
      r'.book = Book.of ((done ++ p :: later).map (·.plain)) := by
  have hp := newline_notMem_lineBody p
  rw [hplace, List.mem_append, List.mem_cons, not_or, not_or] at hp
  obtain ⟨hpiece, -, hsecond⟩ := hp
  by_cases hb' : b' = newline
  · subst hb'
    obtain ⟨hnil, -⟩ := recoverFrom_bad hpiece (fun q => decodeLine_piece hplace) h
    simp at hnil
  have hbody : newline ∉ piece ++ b' :: second := by simp [hpiece, hsecond, Ne.symm hb']
  rw [← List.cons_append, ← List.append_assoc] at h
  cases hdecode : decodeLine (piece ++ b' :: second) with
  | error fault =>
    have hnever (q : Posting) : decodeLine (piece ++ b' :: second) ≠ .ok q := by simp [hdecode]
    obtain ⟨hlater, rfl⟩ := recoverFrom_bad hbody hnever h
    exact .inl ⟨encodeLines_eq_nil.1 hlater, rfl⟩
  | ok q =>
    obtain rfl := decodeLine_changed hb hplace hdecode
    have hkeys' : ((done.map (·.plain) ++ p.plain :: later).map (·.key)).Nodup := by
      simpa [Function.comp_def] using hkeys
    have hline : Recovers line ⟨Book.of (done.map (·.plain)), length⟩
        (piece ++ b' :: second ++ [newline]) (line + 1)
        ⟨Book.of (done.map (·.plain) ++ [p.plain]), length + (piece ++ b' :: second).length + 1⟩ :=
      recovers_line hbody hdecode (Book.insert_of_nodup hkeys')
    have hwhole := hline (encodeLines later ++ [])
    rw [List.append_cons] at hkeys'
    rw [recoverFrom_encodeLines hkeys' List.not_mem_nil, List.append_nil, List.append_assoc,
      List.singleton_append] at hwhole
    cases h.symm.trans hwhole
    exact .inr (by simp)

theorem recover_changed (hkeys : (ps.map (·.key)).Nodup) (hfile : encodeLines ps = first ++ b :: rest)
    (hb : b' ≠ b) (h : recover (first ++ b' :: rest) = .ok r) :
    ∃ kept, kept <+: ps ∧ ps.length ≤ kept.length + 2 ∧
      r.book = Book.of (kept.map (·.plain)) := by
  obtain ⟨done, p, later, piece, second, rfl, rfl, hline, rfl⟩ := exists_line_of_place hfile
  have hdone : recover (encodeLines done ++ (piece ++ b' :: (second ++ encodeLines later))) =
      .ok r := by simpa using h
  have hdonekeys : (([] ++ done : List Posting).map (·.key)).Nodup := by
    rw [List.map_append, List.nodup_append] at hkeys
    exact hkeys.1
  rw [recover, show ({} : Recovered) = ⟨Book.of [], 0⟩ from rfl,
    recoverFrom_encodeLines_append hdonekeys] at hdone
  rcases append_cons_eq_append_cons hline with ⟨second', hplace, rfl⟩ | ⟨rfl, rfl, rfl⟩ |
    ⟨_, -, hnil⟩
  · rw [List.append_assoc, List.singleton_append] at hdone
    rcases recoverFrom_changed hkeys hb hplace hdone with ⟨rfl, hbook⟩ | hbook
    · exact ⟨done, List.prefix_append _ _, by simp, hbook⟩
    · exact ⟨_, List.prefix_rfl, by simp, hbook⟩
  · obtain ⟨hlater, rfl⟩ := recoverFrom_joined hb hdone
    exact ⟨done, List.prefix_append _ _, by simp; omega, rfl⟩
  · simp at hnil

/-- A file of whole lines with one byte changed is found to be corrupted, or opening it brings back
the first of the postings, all but the last two at least, in their order and unchanged but for the
sign of a zero. A device that cannot cut off what is left out makes the opening fail as well. -/
theorem openBytes_changed (hkeys : (ps.map (·.key)).Nodup)
    (hfile : encodeLines ps = first ++ b :: rest) (hb : b' ≠ b) (device : Device) :
    match (openBytes device (first ++ b' :: rest)).1 with
    | .ok opened => ∃ kept, kept <+: ps ∧ ps.length ≤ kept.length + 2 ∧
        List.Forall₂ Transaction.Same opened.store.book.transactions (kept.map (·.transaction)) ∧
        List.Forall₂ Entry.Same opened.store.book.entries (kept.flatMap (·.entries)) ∧
        opened.store.book.keys = kept.map (·.key)
    | .error e => (∃ line reason, e = .journalCorrupted line reason) ∨
        ∃ length changed reason, length < (first ++ b' :: rest).length ∧
          device.setLength (first ++ b' :: rest) length = .failed changed reason ∧
          e = .storage reason := by
  unfold openBytes
  cases hrecover : recover (first ++ b' :: rest) with
  | error c => exact .inl (by cases c <;> exact ⟨_, _, rfl⟩)
  | ok r =>
    obtain ⟨kept, hkept, hlength, hbook⟩ := recover_changed hkeys hfile hb hrecover
    have hrows : List.Forall₂ Transaction.Same r.book.transactions (kept.map (·.transaction)) ∧
        List.Forall₂ Entry.Same r.book.entries (kept.flatMap (·.entries)) ∧
        r.book.keys = kept.map (·.key) := by
      rw [hbook, Book.transactions_of_plain, Book.entries_of_plain]
      exact ⟨Transaction.forall₂_same_plain _, Entry.forall₂_same_plain _, by simp [Book.of]⟩
    by_cases hlt : r.length < (first ++ b' :: rest).length
    · simp only [hlt, if_true]
      cases hset : device.setLength (first ++ b' :: rest) r.length with
      | done => exact ⟨kept, hkept, hlength, hrows⟩
      | failed changed reason => exact .inr ⟨_, changed, reason, hlt, hset, rfl⟩
    · simp only [hlt, if_false]
      exact ⟨kept, hkept, hlength, hrows⟩

theorem openBytes_changed_joined :
    let p (key : String) : Posting :=
      Transaction.posting ⟨.ofNat 0, key, "a", "b", .ofWord false 5, .epoch⟩
    (([p "k", p "l"].map (·.key)).Nodup ∧
      encodeLines [p "k", p "l"] = lineBody (p "k") ++ newline :: encodeLine (p "l") ∧
      space ≠ newline) ∧
      ∀ opened,
        (openBytes .sound (lineBody (p "k") ++ space :: encodeLine (p "l"))).1 = .ok opened →
          opened.store.book.keys <+: ["k", "l"] := by
  intro p
  have hkeys : ([p "k", p "l"].map (·.key)).Nodup := by decide
  have hfile : encodeLines [p "k", p "l"] = lineBody (p "k") ++ newline :: encodeLine (p "l") := by
    simp [encodeLine]
  have hb : space ≠ newline := by decide
  refine ⟨⟨hkeys, hfile, hb⟩, fun opened hopened => ?_⟩
  have hchanged := openBytes_changed hkeys hfile hb .sound
  rw [hopened] at hchanged
  obtain ⟨kept, hkept, -, -, -, hbook⟩ := hchanged
  rw [hbook]
  exact hkept.map (·.key)

end File

end Bookkeeping.Journal
