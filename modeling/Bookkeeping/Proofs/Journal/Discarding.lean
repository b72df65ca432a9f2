import Bookkeeping.Proofs.Journal.Continuation
import Bookkeeping.Proofs.Journal.Damage

/-! What opening a journal cuts off. It is a piece of a line, or one last line that is no record;
and a line with its checksum is among the records unless it is that last one. -/
namespace Bookkeeping.Journal

/-- A line in which a space follows the checksum of what comes after that space. -/
def Checksummed (body : List UInt8) : Prop :=
  ∃ sum json, body = Text.encodeChars (sum ++ ' ' :: json) ∧ ' ' ∉ sum ∧
    Text.readNatural 16 (twoTo 32) sum = .ok (Digest.crc32 (Text.encodeChars json)).toNat

variable {bytes before body rest tail file : List UInt8} {fault : LineFault} {f : Json.Fault}
  {ps : List Posting}

theorem checksummed_iff (h : decodeLine body = .error fault) :
    Checksummed body ↔ ∃ f, fault = .badRecord f := by
  constructor
  · rintro ⟨sum, json, rfl, hsum, hread⟩
    rw [decodeLine_encodeChars hsum hread] at h
    cases hrecord : Json.ofChars Posting.schema.read json with
    | ok p =>
      rw [hrecord] at h
      cases h
    | error f =>
      rw [hrecord] at h
      exact ⟨f, (Except.error.inj h).symm⟩
  · rintro ⟨f, rfl⟩
    rcases decodeLine_cases body with ⟨sum, json, hbody, hsum, hread, -⟩ | ⟨fault, hfault, hne⟩
    · exact ⟨sum, json, hbody, hsum, hread⟩
    · rw [hfault] at h
      exact absurd (Except.error.inj h) (hne f)

theorem checksummed_lineBody (p : Posting) : Checksummed (lineBody p) :=
  ⟨checksumChars p, p.write, lineBody_eq p, space_notMem_checksumChars p,
    readNatural_checksumChars p⟩

/-- A line of some bytes, between the lines before it and what comes after its line feed. -/
inductive LineOf : (bytes before body rest : List UInt8) → Prop where
  | first {body : List UInt8} (rest : List UInt8) (hbody : newline ∉ body) :
      LineOf (body ++ newline :: rest) [] body rest
  | later {bytes before body rest other : List UInt8} (hother : newline ∉ other)
      (h : LineOf bytes before body rest) :
      LineOf (other ++ newline :: bytes) (other ++ newline :: before) body rest

theorem LineOf.mem (h : LineOf bytes before body rest) : newline ∈ bytes := by
  cases h <;> simp

theorem Records.split (h : Records file ps) (hline : LineOf (file ++ tail) before body rest) :
    (∃ earlier p later, ps = earlier ++ p :: later ∧ Records before earlier ∧
      decodeLine body = .ok p ∧ before ++ body ++ [newline] <+: file) ∨
      ∃ between, before = file ++ between ∧ LineOf tail between body rest := by
  induction h generalizing before with
  | nil => exact .inr ⟨before, rfl, hline⟩
  | @cons first bytes p ps hfirst hdecode hrest ih =>
    rw [List.append_assoc, List.cons_append] at hline
    generalize hbytes : first ++ newline :: (bytes ++ tail) = whole at hline
    cases hline with
    | first rest hbody =>
      obtain ⟨rfl, -⟩ := append_cons_inj hfirst hbody hbytes
      exact .inl ⟨[], p, ps, rfl, .nil, hdecode, bytes, by simp⟩
    | @later _ before' _ _ other hother hlater =>
      obtain ⟨rfl, rfl⟩ := append_cons_inj hfirst hother hbytes
      rcases ih hlater with ⟨earlier, q, later, rfl, hearlier, hdecode', hwithin⟩ |
        ⟨between, rfl, hafter⟩
      · refine .inl ⟨p :: earlier, q, later, rfl, .cons hfirst hdecode hearlier, hdecode', ?_⟩
        simpa using hwithin
      · exact .inr ⟨between, by simp, hafter⟩

theorem Records.line (h : Records file ps) (hline : LineOf (file ++ tail) before body rest) :
    (∃ p ∈ ps, decodeLine body = .ok p ∧ before ++ body ++ [newline] <+: file) ∨
      ∃ between, before = file ++ between ∧ LineOf tail between body rest := by
  refine (h.split hline).imp ?_ id
  rintro ⟨earlier, p, later, rfl, -, hdecode, hwithin⟩
  exact ⟨p, by simp, hdecode, hwithin⟩

/-- The only line of what is cut off is all of it, and no record. -/
theorem Torn.line (h : Torn tail) (hline : LineOf tail before body rest) :
    before = [] ∧ rest = [] ∧ ∃ fault, decodeLine body = .error fault := by
  cases h with
  | cut hcut => exact absurd hline.mem hcut
  | @unread last fault hlast hdecode =>
    generalize hbytes : last ++ [newline] = whole at hline
    cases hline with
    | first rest hbody =>
      obtain ⟨rfl, rfl⟩ := append_cons_inj hlast hbody hbytes
      exact ⟨rfl, rfl, fault, hdecode⟩
    | later hother hlater =>
      obtain ⟨-, rfl⟩ := append_cons_inj hlast hother hbytes
      exact absurd hlater.mem List.not_mem_nil

/-- Opening a journal cuts off a piece of a line, or one last line that is no record, which has its
checksum or not. A line with its checksum is one of the records that are kept, unless it is that
last line and what comes after its checksum is no record. -/
theorem openBytes_discards {device : Device} {opened : Opened}
    (h : openBytes device bytes = (.ok opened, file)) :
    (∃ tail, bytes = file ++ tail ∧ opened.discarded = tail.length ∧
      (newline ∉ tail ∨ ∃ body fault, tail = body ++ [newline] ∧ newline ∉ body ∧
        decodeLine body = .error fault ∧ (Checksummed body ↔ ∃ f, fault = .badRecord f))) ∧
    ∀ before body rest, LineOf bytes before body rest → Checksummed body →
      (∃ p ∈ opened.store.book.postings, decodeLine body = .ok p ∧
        before ++ body ++ [newline] <+: file) ∨
      (file = before ∧ rest = [] ∧ ∃ f, decodeLine body = .error (.badRecord f)) := by
  obtain ⟨ps, tail, rfl, htorn, hrecords, hkeys, rfl⟩ := records_of_openBytes h
  refine ⟨⟨tail, rfl, rfl, ?_⟩, fun before body rest hline hsum => ?_⟩
  · cases htorn with
    | cut hcut => exact .inl hcut
    | unread hbody hdecode => exact .inr ⟨_, _, rfl, hbody, hdecode, checksummed_iff hdecode⟩
  · rw [Book.postings_of]
    refine (hrecords.line hline).imp id ?_
    rintro ⟨between, rfl, hafter⟩
    obtain ⟨rfl, rfl, fault, hdecode⟩ := htorn.line hafter
    obtain ⟨f, rfl⟩ := (checksummed_iff hdecode).1 hsum
    exact ⟨by simp, rfl, f, hdecode⟩

theorem openBytes_discards_torn :
    let p : Posting := Transaction.posting ⟨.ofNat 0, "k", "a", "b", .ofWord false 5, .epoch⟩
    openBytes .sound (encodeLine p ++ [0x61]) = (.ok ⟨Store.grown {} p, 1⟩, encodeLine p) ∧
      LineOf (encodeLine p ++ [0x61]) [] (lineBody p) [0x61] ∧ Checksummed (lineBody p) ∧
      ∃ q ∈ (Store.grown {} p).book.postings, decodeLine (lineBody p) = .ok q := by
  intro p
  have hwhole : (Store.grown {} p).Whole ([] ++ encodeLine p) := whole_empty.grown rfl rfl
  rw [List.nil_append] at hwhole
  have hopen : openBytes .sound (encodeLine p ++ [0x61]) =
      (.ok ⟨Store.grown {} p, 1⟩, encodeLine p) := hwhole.openBytes (by decide)
  have hline : LineOf (encodeLine p ++ [0x61]) [] (lineBody p) [0x61] := by
    rw [encodeLine, List.append_assoc]
    exact .first [0x61] (newline_notMem_lineBody p)
  have hsum := checksummed_lineBody p
  refine ⟨hopen, hline, hsum, ?_⟩
  rcases (openBytes_discards hopen).2 [] (lineBody p) [0x61] hline hsum with
    ⟨q, hq, hdecode, -⟩ | ⟨hnone, -⟩
  · exact ⟨q, hq, hdecode⟩
  · exact absurd hnone (encodeLine_ne_nil p)

def emptyObject : List UInt8 :=
  Text.encodeChars ['a', '3', 'a', '6', 'b', 'f', '4', '3', ' ', '{', '}']

theorem openBytes_discards_checksummed :
    newline ∉ emptyObject ∧ Checksummed emptyObject ∧
      openBytes .sound (emptyObject ++ [newline]) = (.ok ⟨{}, 12⟩, []) := by
  have hnewline : newline ∉ emptyObject := by decide +kernel
  have hsum : Checksummed emptyObject :=
    ⟨['a', '3', 'a', '6', 'b', 'f', '4', '3'], ['{', '}'], rfl, by decide, by decide +kernel⟩
  have hdecode : ∃ fault, decodeLine emptyObject = .error fault := by
    refine ⟨.badRecord ⟨.missingField "transaction", ⟨1, 2⟩⟩, ?_⟩
    decide +kernel
  obtain ⟨fault, hdecode⟩ := hdecode
  have hrecover : recover (emptyObject ++ [newline]) = .ok ⟨Book.of [], 0⟩ :=
    recover_eq_ok_iff.2
      ⟨[], [], _, rfl, .nil, List.nodup_nil, .unread hnewline hdecode, rfl⟩
  refine ⟨hnewline, hsum, ?_⟩
  unfold openBytes
  rw [hrecover]
  decide +kernel

end Bookkeeping.Journal
