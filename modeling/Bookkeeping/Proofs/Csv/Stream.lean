import Bookkeeping.Csv.Reader

/-! Records read from bytes one at a time, as many as a batch needs. The next batch goes on where
the scan stands; the header is read once, and each batch asks again whether it is text. What the
batches come to is what a reader yields that has all rows in store. -/
namespace Bookkeeping.Csv

namespace Scan

def next (s : Scan) : List UInt8 → Option RawRecord × Scan × List UInt8
  | [] => if s.isOpen then (some s.record, s.nextRecord .recordStart, []) else (none, s, [])
  | b :: rest =>
    match s.step b with
    | (some r, s) => (some r, s, rest)
    | (none, s) => s.next rest

/-- How much there is to read: bytes, and a record that has begun. -/
def pending (s : Scan) (bytes : List UInt8) : Nat := bytes.length + s.isOpen.toNat

variable {s s' : Scan} {bytes rest : List UInt8} {b : UInt8} {r : RawRecord}

theorem records_of_closed (h : s.isOpen = false) : s.records [] = [] := by
  rw [records, h]
  rfl

theorem records_of_next (h : s.next bytes = (some r, s', rest)) :
    s.records bytes = r :: s'.records rest := by
  induction bytes generalizing s with
  | nil =>
    rw [next] at h
    split at h
    · next hopen =>
      cases h
      rw [records, if_pos hopen, records_of_closed rfl]
    · cases h
  | cons b bytes ih =>
    match hstep : s.step b with
    | (some r', t) =>
      rw [next, hstep] at h
      cases h
      rw [records, hstep]
    | (none, t) =>
      rw [next, hstep] at h
      rw [records, hstep]
      exact ih h

theorem eq_nil_of_next (h : s.next bytes = (none, s', rest)) :
    s.records bytes = [] ∧ rest = [] ∧ s'.isOpen = false := by
  induction bytes generalizing s with
  | nil =>
    rw [next] at h
    split at h
    · cases h
    · next hopen =>
      cases h
      rw [Bool.not_eq_true] at hopen
      exact ⟨records_of_closed hopen, rfl, hopen⟩
  | cons b bytes ih =>
    match hstep : s.step b with
    | (some r', t) =>
      rw [next, hstep] at h
      cases h
    | (none, t) =>
      rw [next, hstep] at h
      rw [records, hstep]
      exact ih h

def moved (s : Scan) (b : UInt8) : Scan :=
  { s with byte := s.byte + 1, line := if b == lineFeed then s.line + 1 else s.line }

theorem step_eq (s : Scan) (b : UInt8) : s.step b =
    let s := s.moved b
    match s.phase with
    | .afterReturn =>
      if b == lineFeed then (none, { s with phase := .recordStart })
      else if b == carriageReturn then (none, { s with phase := .recordStart })
      else s.opening b
    | .recordStart => if isTerminator b then (none, s) else s.opening b
    | .fieldStart => s.opening b
    | .plain => s.unquoted b
    | .quoted =>
      if b == quote then (none, { s with phase := .quoteInQuoted }) else (none, s.copy .quoted b)
    | .quoteInQuoted =>
      if b == quote then (none, s.copy .quoted b) else s.unquoted b := rfl

theorem closed_of_unquoted (h : s.unquoted b = (some r, s')) : s'.isOpen = false := by
  unfold unquoted at h
  split at h
  · cases h
  · split at h
    · cases h
      unfold nextRecord isOpen
      split <;> rfl
    · cases h

theorem closed_of_opening (h : s.opening b = (some r, s')) : s'.isOpen = false := by
  unfold opening at h
  split at h
  · cases h
  · exact closed_of_unquoted h

theorem closed_of_step (h : s.step b = (some r, s')) : s'.isOpen = false := by
  rw [step_eq] at h
  generalize s.moved b = s at h
  -- in each phase a record ends as it does outside quotes, or not at all
  dsimp only at h
  split at h
  · split at h
    · cases h
    · split at h
      · cases h
      · exact closed_of_opening h
  · split at h
    · cases h
    · exact closed_of_opening h
  · exact closed_of_opening h
  · exact closed_of_unquoted h
  · split at h <;> cases h
  · split at h
    · cases h
    · exact closed_of_unquoted h

theorem pending_next (h : s.next bytes = (some r, s', rest)) :
    s'.pending rest < s.pending bytes := by
  suffices rest.length < s.pending bytes ∧ s'.isOpen = false by
    rw [pending, this.2]
    exact this.1
  induction bytes generalizing s with
  | nil =>
    rw [next] at h
    split at h
    · next hopen =>
      cases h
      exact ⟨by simp [pending, hopen], rfl⟩
    · cases h
  | cons b bytes ih =>
    rw [next] at h
    split at h
    · next hstep =>
      cases h
      exact ⟨by simp [pending]; omega, closed_of_step hstep⟩
    · obtain ⟨hlt, hclosed⟩ := ih h
      refine ⟨?_, hclosed⟩
      unfold pending at hlt ⊢
      rw [List.length_cons]
      have := Bool.toNat_le (Scan.isOpen ‹Scan›)
      omega

end Scan

/-- The column names of a header, and what is wrong with it if it has none that are text. -/
def RawRecord.columns (header : RawRecord) : Option (List String) × Option RowFault :=
  match header.names with
  | .ok names => (some names, none)
  | .error e => (none, some e)

/-- Bytes of which some are read: the scan that goes on, the bytes that are left, and the header
once it was asked for. -/
structure Stream where
  scan : Scan := {}
  bytes : List UInt8
  header : Option RawRecord := none
  malformed : Nat := 0

namespace Stream

def ofBytes : List UInt8 → Stream
  | 0xEF :: 0xBB :: 0xBF :: rest => { scan := { byte := 3 }, bytes := rest }
  | bytes => { bytes }

def pending (t : Stream) : Nat := t.scan.pending t.bytes

def next (t : Stream) : Option RawRecord × Stream :=
  let (r, scan, bytes) := t.scan.next t.bytes
  (r, { t with scan, bytes })

/-- The header, which is the first record, or one without columns if there is none. -/
def headed (t : Stream) : RawRecord × Stream :=
  match t.header with
  | some header => (header, t)
  | none =>
    let (r, t) := t.next
    let header := r.getD ⟨[], 0, 1, 0⟩
    (header, { t with header := some header })

theorem pending_next {t t' : Stream} {r : RawRecord} (h : t.next = (some r, t')) :
    t'.pending < t.pending := by
  unfold next at h
  generalize hnext : t.scan.next t.bytes = found at h
  obtain ⟨_, scan, bytes⟩ := found
  cases h
  exact Scan.pending_next hnext

def take (columns : Option (List String)) (n : Nat) (t : Stream) : Batch × Stream :=
  if n = 0 then (⟨[], []⟩, t)
  else
    match _h : t.next with
    | (none, t) => (⟨[], []⟩, t)
    | (some r, t) =>
      match r.toRequest columns with
      | .ok request =>
        let (b, t) := take columns (n - 1) t
        (⟨request :: b.requests, b.faults⟩, t)
      | .error e =>
        let (b, t) := take columns n t
        (⟨b.requests, e :: b.faults⟩, t)
termination_by t.pending
decreasing_by all_goals exact pending_next _h

def readBatch (t : Stream) (size : Nat) : Batch × Stream :=
  if size = 0 then (⟨[], []⟩, t)
  else
    let (header, t) := t.headed
    let (b, t) := t.take header.columns.1 size
    let faults := header.columns.2.toList ++ b.faults
    (⟨b.requests, faults⟩, { t with malformed := t.malformed + faults.length })

def rows (columns : Option (List String)) (t : Stream) : List (Except RowFault PostingRequest) :=
  (t.scan.records t.bytes).map (·.toRequest columns)

/-- The reader that has in store what is left of a stream under a header. -/
def readerUnder (header : RawRecord) (t : Stream) : Reader where
  headerFault := header.columns.2
  rows := t.rows header.columns.1
  malformed := t.malformed

/-- The reader that has in store what is left of a stream. -/
def reader (t : Stream) : Reader := readerUnder t.headed.1 t.headed.2

/-- All bytes are read, and no record has begun. -/
def AtEnd (t : Stream) : Prop := t.bytes = [] ∧ t.scan.isOpen = false

instance (t : Stream) : Decidable t.AtEnd := inferInstanceAs (Decidable (_ ∧ _))

variable {t t' : Stream} {r : RawRecord} {columns : Option (List String)} {n : Nat}

theorem records_of_next (h : t.next = (some r, t')) :
    t.scan.records t.bytes = r :: t'.scan.records t'.bytes ∧
      t'.header = t.header ∧ t'.malformed = t.malformed := by
  unfold next at h
  generalize hnext : t.scan.next t.bytes = found at h
  obtain ⟨_, scan, bytes⟩ := found
  cases h
  exact ⟨Scan.records_of_next hnext, rfl, rfl⟩

theorem AtEnd.rows (h : t.AtEnd) (columns : Option (List String)) : t.rows columns = [] := by
  rw [Stream.rows, h.1, Scan.records_of_closed h.2]
  rfl

theorem atEnd_of_next (h : t.next = (none, t')) :
    t'.AtEnd ∧ t.scan.records t.bytes = [] ∧ t'.header = t.header ∧ t'.malformed = t.malformed := by
  unfold next at h
  generalize hnext : t.scan.next t.bytes = found at h
  obtain ⟨_, scan, bytes⟩ := found
  cases h
  obtain ⟨hrecords, hbytes, hclosed⟩ := Scan.eq_nil_of_next hnext
  exact ⟨⟨hbytes, hclosed⟩, hrecords, rfl, rfl⟩

theorem header_headed (t : Stream) :
    t.headed.2.header = some t.headed.1 ∧ t.headed.2.malformed = t.malformed := by
  unfold headed
  cases hheader : t.header with
  | some header => exact ⟨hheader, rfl⟩
  | none =>
    refine ⟨rfl, ?_⟩
    cases hnext : t.next with
    | mk r t' =>
      cases r with
      | some r => exact (records_of_next hnext).2.2
      | none => exact (atEnd_of_next hnext).2.2.2

theorem malformed_reader (t : Stream) : t.reader.malformed = t.malformed := (header_headed t).2

theorem take_eq (columns : Option (List String)) (n : Nat) (t : Stream) :
    takeRequests n (t.rows columns) = ((t.take columns n).1, (t.take columns n).2.rows columns) ∧
      (t.take columns n).2.header = t.header ∧ (t.take columns n).2.malformed = t.malformed := by
  fun_induction take columns n t with
  | case1 t => exact ⟨by rw [takeRequests.eq_1], rfl, rfl⟩
  | case2 n t hn t' hnext =>
    obtain ⟨hend, hrecords, hheader, hmalformed⟩ := atEnd_of_next hnext
    refine ⟨?_, hheader, hmalformed⟩
    rw [hend.rows, rows, hrecords, List.map_nil, takeRequests.eq_2 n hn]
  | case3 n t hn r t' hnext request hrequest b t'' htake ih =>
    obtain ⟨hrecords, hheader, hmalformed⟩ := records_of_next hnext
    obtain ⟨m, rfl⟩ := Nat.exists_eq_succ_of_ne_zero hn
    rw [Nat.succ_sub_one] at htake ih
    rw [htake] at ih
    rw [rows, hrecords, List.map_cons, hrequest, takeRequests.eq_3]
    rw [rows] at ih
    rw [ih.1]
    exact ⟨rfl, ih.2.1.trans hheader, ih.2.2.trans hmalformed⟩
  | case4 n t hn r t' hnext e he b t'' htake ih =>
    obtain ⟨hrecords, hheader, hmalformed⟩ := records_of_next hnext
    obtain ⟨m, rfl⟩ := Nat.exists_eq_succ_of_ne_zero hn
    rw [htake] at ih
    rw [rows, hrecords, List.map_cons, he, takeRequests.eq_4]
    rw [rows] at ih
    rw [ih.1]
    exact ⟨rfl, ih.2.1.trans hheader, ih.2.2.trans hmalformed⟩

/-- Only at the end are there fewer requests than were asked for. -/
theorem atEnd_of_take (h : (t.take columns n).1.requests.length < n) :
    (t.take columns n).2.AtEnd := by
  fun_induction take columns n t with
  | case1 t => cases h
  | case2 n t hn t' hnext => exact (atEnd_of_next hnext).1
  | case3 n t hn r t' hnext request hrequest b t'' htake ih =>
    rw [htake] at ih
    rw [List.length_cons] at h
    exact ih (show b.requests.length < n - 1 by omega)
  | case4 n t hn r t' hnext e he b t'' htake ih =>
    rw [htake] at ih
    exact ih h

theorem atEnd_of_readBatch {size : Nat} (hsize : 0 < size)
    (h : (t.readBatch size).1.requests = []) : (t.readBatch size).2.AtEnd := by
  have hne : size ≠ 0 := Nat.ne_of_gt hsize
  unfold readBatch at h ⊢
  rw [if_neg hne] at h ⊢
  exact atEnd_of_take (t := t.headed.2) (by rw [h]; exact hsize)

theorem AtEnd.reader_rows (h : t.AtEnd) : t.reader.rows = [] := by
  have hheaded : t.headed.2.AtEnd := by
    unfold headed next
    split
    · exact h
    · rw [h.1, Scan.next, h.2]
      exact ⟨rfl, h.2⟩
  exact hheaded.rows _

theorem reader_of_header {header : RawRecord} (h : t.header = some header) (malformed : Nat) :
    ({ t with malformed } : Stream).reader = { readerUnder header t with malformed } := by
  unfold reader headed
  rw [h]
  rfl

/-- A stream reads the batch that its reader has in store. -/
theorem readBatch_eq (t : Stream) (size : Nat) :
    t.reader.readBatch size = ((t.readBatch size).1, (t.readBatch size).2.reader) := by
  unfold readBatch Reader.readBatch
  split
  · rfl
  · obtain ⟨hheader, -⟩ := header_headed t
    obtain ⟨htake, hkept, hmalformed⟩ := take_eq t.headed.1.columns.1 size t.headed.2
    have hreader : t.reader = readerUnder t.headed.1 t.headed.2 := rfl
    rw [reader_of_header (hkept.trans hheader)]
    simp only [hreader, readerUnder, htake, hmalformed]

theorem reader_ofBytes (bytes : List UInt8) : (ofBytes bytes).reader = Reader.ofBytes bytes := by
  obtain ⟨hrecords, hheader, hmalformed⟩ :
      (ofBytes bytes).scan.records (ofBytes bytes).bytes = records bytes ∧
        (ofBytes bytes).header = none ∧ (ofBytes bytes).malformed = 0 := by
    unfold ofBytes
    split
    · exact ⟨rfl, rfl, rfl⟩
    · next hmark => exact ⟨by rw [records.eq_2 bytes hmark], rfl, rfl⟩
  unfold reader headed Reader.ofBytes
  rw [hheader, ← hrecords]
  cases hnext : (ofBytes bytes).next with
  | mk r t =>
    cases r with
    | none =>
      obtain ⟨hend, hnone, -, hzero⟩ := atEnd_of_next hnext
      have hrows : t.rows (some []) = [] := hend.rows _
      rw [hnone]
      simp only [Option.getD_none, readerUnder, hzero, hmalformed]
      exact congrArg (Reader.mk none · 0) hrows
    | some r =>
      obtain ⟨hfirst, -, hzero⟩ := records_of_next hnext
      rw [hfirst]
      simp only [Option.getD_some, readerUnder, hzero, hmalformed, rows, RawRecord.columns]
      cases r.names <;> rfl

end Stream

end Bookkeeping.Csv
