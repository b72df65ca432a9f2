import Bookkeeping.Proofs.Csv.Stream
import Bookkeeping.Proofs.Engine.InOrder

/-! Batches of any sizes, one after the other, come to all requests of a file and report each row
that is passed over once. A header that is no text is reported by every batch anew. -/
namespace Bookkeeping.Csv

def faultsOf (rows : List (Except RowFault PostingRequest)) : List RowFault :=
  rows.filterMap fun
    | .ok _ => none
    | .error e => some e

theorem takeRequests_split (n : Nat) (rows : List (Except RowFault PostingRequest)) :
    ∃ front, rows = front ++ (takeRequests n rows).2 ∧
      (takeRequests n rows).1 = ⟨requestsOf front, faultsOf front⟩ := by
  fun_induction takeRequests n rows with
  | case1 rows => exact ⟨[], rfl, rfl⟩
  | case2 => exact ⟨[], rfl, rfl⟩
  | case3 n r rows b rest htake ih =>
    obtain ⟨front, hrows, hbatch⟩ := ih
    rw [htake] at hrows hbatch
    exact ⟨.ok r :: front, congrArg (.ok r :: ·) hrows, by rw [show b = _ from hbatch]; rfl⟩
  | case4 n e rows b rest htake ih =>
    obtain ⟨front, hrows, hbatch⟩ := ih
    rw [htake] at hrows hbatch
    exact ⟨.error e :: front, congrArg (.error e :: ·) hrows, by rw [show b = _ from hbatch]; rfl⟩

theorem takeRequests_of_short {n : Nat} {rows : List (Except RowFault PostingRequest)}
    (h : (takeRequests n rows).1.requests.length < n) : (takeRequests n rows).2 = [] := by
  fun_induction takeRequests n rows with
  | case1 => cases h
  | case2 => rfl
  | case3 n r rows b rest htake ih =>
    rw [htake] at ih
    exact ih (by simpa using h)
  | case4 n e rows b rest htake ih =>
    rw [htake] at ih
    exact ih h

theorem takeRequests_eq (n : Nat) (rows : List (Except RowFault PostingRequest)) :
    (takeRequests n rows).1.requests = (requestsOf rows).take n ∧
      requestsOf (takeRequests n rows).2 = (requestsOf rows).drop n := by
  fun_induction takeRequests n rows with
  | case1 rows => exact ⟨rfl, rfl⟩
  | case2 n => exact ⟨List.take_nil.symm, List.drop_nil.symm⟩
  | case3 n r rows b rest htake ih =>
    rw [htake] at ih
    exact ⟨congrArg (r :: ·) ih.1, ih.2⟩
  | case4 n e rows b rest htake ih =>
    rw [htake] at ih
    exact ih

/-- The batches that come of asking for so many requests one time after the other, and what is left
then. -/
def inBatches {ρ : Type} (readBatch : ρ → Nat → Batch × ρ) (r : ρ) : List Nat → List Batch × ρ
  | [] => ([], r)
  | n :: ns =>
    let (b, r) := readBatch r n
    let (bs, r) := inBatches readBatch r ns
    (b :: bs, r)

theorem inBatches_append {ρ : Type} (readBatch : ρ → Nat → Batch × ρ) (r : ρ) (ns ms : List Nat) :
    inBatches readBatch r (ns ++ ms) =
      ((inBatches readBatch r ns).1 ++ (inBatches readBatch (inBatches readBatch r ns).2 ms).1,
        (inBatches readBatch (inBatches readBatch r ns).2 ms).2) := by
  induction ns generalizing r with
  | nil => rfl
  | cons n ns ih => simp only [List.cons_append, inBatches, ih]

/-- Reading record by record gives the batches of the reader that has all rows in store. -/
theorem Stream.inBatches_eq (t : Stream) (sizes : List Nat) :
    inBatches Reader.readBatch t.reader sizes =
      ((inBatches Stream.readBatch t sizes).1, (inBatches Stream.readBatch t sizes).2.reader) := by
  induction sizes generalizing t with
  | nil => rfl
  | cons n ns ih => simp only [inBatches, t.readBatch_eq, ih]

def requestsIn (bs : List Batch) : List PostingRequest := bs.flatMap (·.requests)

def faultsIn (bs : List Batch) : List RowFault := bs.flatMap (·.faults)

namespace Reader

def faults (r : Reader) : List RowFault := faultsOf r.rows

/-- Batches take what a reader has in store in its order, and each reports the header first if it
is no text. -/
structure Gives (r : Reader) (bs : List Batch) (r' : Reader) : Prop where
  requests : requestsIn bs ++ r'.requests = r.requests
  faults : ∃ shares : List (List RowFault),
    bs.map (·.faults) = shares.map (r.headerFault.toList ++ ·) ∧
      shares.flatten ++ r'.faults = r.faults
  header : r'.headerFault = r.headerFault
  malformed : r'.malformed = r.malformed + (faultsIn bs).length

theorem gives_readBatch (r : Reader) {size : Nat} (h : 0 < size) :
    r.Gives [(r.readBatch size).1] (r.readBatch size).2 := by
  obtain ⟨front, hrows, hbatch⟩ := takeRequests_split size r.rows
  have hne : size ≠ 0 := Nat.ne_of_gt h
  simp only [readBatch, if_neg hne]
  constructor
  case requests =>
    rw [requests, requests, hbatch]
    conv => rhs; rw [hrows]
    simp [requestsIn, requestsOf]
  case faults =>
    refine ⟨[faultsOf front], by rw [hbatch]; rfl, ?_⟩
    rw [faults, faults]
    conv => rhs; rw [hrows]
    simp [faultsOf]
  case header => rfl
  case malformed => simp [faultsIn]

theorem Gives.append {r r' r'' : Reader} {bs bs' : List Batch} (h : r.Gives bs r')
    (h' : r'.Gives bs' r'') : r.Gives (bs ++ bs') r'' := by
  obtain ⟨shares, hshares, hflat⟩ := h.faults
  obtain ⟨shares', hshares', hflat'⟩ := h'.faults
  constructor
  case requests => rw [← h.requests, ← h'.requests, requestsIn, List.flatMap_append]; simp [requestsIn]
  case faults =>
    refine ⟨shares ++ shares', ?_, ?_⟩
    · rw [List.map_append, List.map_append, hshares, hshares', h.header]
    · rw [List.flatten_append, List.append_assoc, hflat', hflat]
  case header => exact h'.header.trans h.header
  case malformed =>
    rw [h'.malformed, h.malformed, faultsIn, faultsIn, faultsIn, List.flatMap_append,
      List.length_append, Nat.add_assoc]

theorem gives_inBatches (r : Reader) {sizes : List Nat} (h : ∀ n ∈ sizes, 0 < n) :
    r.Gives (inBatches readBatch r sizes).1 (inBatches readBatch r sizes).2 := by
  induction sizes generalizing r with
  | nil => exact ⟨rfl, ⟨[], rfl, rfl⟩, rfl, rfl⟩
  | cons n ns ih =>
    rw [List.forall_mem_cons] at h
    exact (r.gives_readBatch h.1).append (ih (r.readBatch n).2 h.2)

/-- The batches of all rows: together they have all requests, each row that is passed over is
reported once, and a header that is no text once in each batch. -/
structure ReadOut (r : Reader) (bs : List Batch) (r' : Reader) : Prop where
  requests : requestsIn bs = r.requests
  faults : ∃ shares : List (List RowFault),
    bs.map (·.faults) = shares.map (r.headerFault.toList ++ ·) ∧ shares.flatten = r.faults
  malformed : r'.malformed =
    r.malformed + r.faults.length + bs.length * r.headerFault.toList.length

theorem length_flatMap_append {α β : Type} (xs : List α) (shares : List (List α)) (f : β → List α)
    {bs : List β} (h : bs.map f = shares.map (xs ++ ·)) :
    (bs.flatMap f).length = shares.flatten.length + bs.length * xs.length := by
  rw [List.flatMap_def, h, show bs.length = shares.length by simpa using congrArg List.length h]
  clear h
  induction shares with
  | nil => simp
  | cons share shares ih =>
    simp only [List.map_cons, List.flatten_cons, List.length_append, List.length_cons, ih,
      Nat.add_mul]
    omega

theorem Gives.readOut {r r' : Reader} {bs : List Batch} (h : r.Gives bs r') (hend : r'.rows = []) :
    r.ReadOut bs r' := by
  obtain ⟨shares, hshares, hflat⟩ := h.faults
  have hrequests : r'.requests = [] := congrArg requestsOf hend
  have hfaults : r'.faults = [] := congrArg faultsOf hend
  rw [hfaults, List.append_nil] at hflat
  constructor
  case requests => rw [← h.requests, hrequests, List.append_nil]
  case faults => exact ⟨shares, hshares, hflat⟩
  case malformed =>
    rw [h.malformed, faultsIn, length_flatMap_append _ shares _ hshares, hflat, Nat.add_assoc]

theorem ReadOut.faultsIn {r r' : Reader} {bs : List Batch} (h : r.ReadOut bs r')
    (hheader : r.headerFault = none) : faultsIn bs = r.faults := by
  obtain ⟨shares, hshares, hflat⟩ := h.faults
  rw [Csv.faultsIn, List.flatMap_def, hshares, hheader, ← hflat]
  simp

theorem header_inBatches (r : Reader) (sizes : List Nat) :
    (inBatches readBatch r sizes).2.headerFault = r.headerFault := by
  induction sizes generalizing r with
  | nil => rfl
  | cons n ns ih =>
    refine (ih (r.readBatch n).2).trans ?_
    unfold readBatch
    split <;> rfl

theorem inBatches_of_rows {r : Reader} (h : r.rows = []) {sizes : List Nat}
    (hpos : ∀ n ∈ sizes, 0 < n) : inBatches readBatch r sizes =
      (List.replicate sizes.length ⟨[], r.headerFault.toList⟩,
        { r with malformed := r.malformed + sizes.length * r.headerFault.toList.length }) := by
  induction sizes generalizing r with
  | nil => simp [inBatches]
  | cons n ns ih =>
    rw [List.forall_mem_cons] at hpos
    have hne : n ≠ 0 := Nat.ne_of_gt hpos.1
    have hbatch : r.readBatch n = (⟨[], r.headerFault.toList⟩,
        { r with malformed := r.malformed + r.headerFault.toList.length }) := by
      rw [readBatch, if_neg hne, h, takeRequests.eq_2 n hne]
      simp
    have hrest := ih (r := { r with malformed := r.malformed + r.headerFault.toList.length }) h
      hpos.2
    simp only [inBatches, hbatch, hrest, List.length_cons, List.replicate_succ, Nat.succ_mul,
      Nat.add_assoc, Nat.add_comm]

end Reader

/-- Where the reader is after so many batches that were not empty, and one more with so many
requests. -/
structure Reader.Stands (r : Reader) (size earlier found : Nat) (r' : Reader) : Prop where
  gives : ∃ bs, bs.length = earlier + 1 ∧ r.Gives bs r'
  full : ∀ k < earlier, k * size < r.requests.length
  count : found = min size (r.requests.length - earlier * size)
  left : r'.requests = r.requests.drop ((earlier + 1) * size)
  short : found < size → r'.rows = []

namespace Reader

variable {r r' : Reader} {size earlier found : Nat}

theorem readBatch_eq (r : Reader) (h : 0 < size) :
    (r.readBatch size).1.requests = r.requests.take size ∧
      (r.readBatch size).2.requests = r.requests.drop size := by
  simp only [readBatch, if_neg (Nat.ne_of_gt h)]
  exact takeRequests_eq size r.rows

theorem rows_of_short (h : (r.readBatch size).1.requests.length < size) :
    (r.readBatch size).2.rows = [] := by
  have hne : size ≠ 0 := Nat.ne_of_gt (Nat.zero_lt_of_lt h)
  simp only [readBatch, if_neg hne] at h ⊢
  exact takeRequests_of_short h

theorem stands_first (r : Reader) (h : 0 < size) :
    r.Stands size 0 (r.readBatch size).1.requests.length (r.readBatch size).2 where
  gives := ⟨[(r.readBatch size).1], rfl, r.gives_readBatch h⟩
  full k hk := absurd hk (Nat.not_lt_zero k)
  count := by simp [(r.readBatch_eq h).1]
  left := by simp [(r.readBatch_eq h).2]
  short := rows_of_short

theorem Stands.next (h : r.Stands size earlier found r') (hpos : 0 < size) (hfound : found ≠ 0) :
    r.Stands size (earlier + 1) (r'.readBatch size).1.requests.length (r'.readBatch size).2 := by
  obtain ⟨bs, hbs, hgives⟩ := h.gives
  have hmore : earlier * size < r.requests.length := by
    have hcount := h.count
    omega
  obtain ⟨htake, hdrop⟩ := r'.readBatch_eq hpos
  constructor
  case gives =>
    exact ⟨bs ++ [(r'.readBatch size).1], by simp [hbs], hgives.append (r'.gives_readBatch hpos)⟩
  case full =>
    intro k hk
    rcases Nat.lt_or_eq_of_le (Nat.le_of_lt_succ hk) with hlt | rfl
    · exact h.full k hlt
    · exact hmore
  case count => rw [htake, h.left, List.length_take, List.length_drop]
  case left => rw [hdrop, h.left, List.drop_drop, Nat.succ_mul (earlier + 1)]
  case short => exact rows_of_short

theorem Stands.malformed (h : r.Stands size earlier 0 r') (hpos : 0 < size) :
    r'.malformed = r.malformed + r.faults.length +
      ((r.requests.length + size - 1) / size + 1) * r.headerFault.toList.length := by
  obtain ⟨bs, hbs, hgives⟩ := h.gives
  have hall : r.requests.length ≤ earlier * size := by
    have hcount := h.count
    omega
  have hceil : (r.requests.length + size - 1) / size = earlier := by
    refine Nat.div_eq_of_lt_le ?_ ?_
    · cases earlier with
      | zero => omega
      | succ k =>
        have hfull := h.full k (Nat.lt_succ_self k)
        rw [Nat.succ_mul]
        omega
    · rw [Nat.succ_mul]
      omega
  rw [(hgives.readOut (h.short hpos)).malformed, hbs, hceil]

end Reader

theorem malformed_ofBytes (bytes : List UInt8) : (Reader.ofBytes bytes).malformed = 0 := by
  unfold Reader.ofBytes
  split
  · rfl
  · split <;> rfl

/-- What is left of a file after batches of the given sizes. -/
def Stream.after (bytes : List UInt8) (sizes : List Nat) : Stream :=
  (inBatches readBatch (ofBytes bytes) sizes).2

theorem Stream.reader_after (bytes : List UInt8) (sizes : List Nat) :
    (after bytes sizes).reader = (inBatches Reader.readBatch (.ofBytes bytes) sizes).2 := by
  rw [← reader_ofBytes, inBatches_eq]
  rfl

/-- Whatever sizes batches have, where they reach the end of the rows they have come to the same
requests, and they report the same rows and count as many, if the header is text. One that is no
text is reported by each batch anew, and counted as often. An empty batch of positive size means
that all bytes are read, and later ones bring no more than the header again. Reading record by
record gives the same batches as a reader with all rows in store. -/
theorem batches_of_any_sizes (bytes : List UInt8) {sizes sizes' : List Nat} {bs bs' : List Batch}
    {r r' : Reader} (hpos : ∀ n ∈ sizes, 0 < n) (hpos' : ∀ n ∈ sizes', 0 < n)
    (hread : inBatches Reader.readBatch (.ofBytes bytes) sizes = (bs, r)) (hend : r.rows = [])
    (hread' : inBatches Reader.readBatch (.ofBytes bytes) sizes' = (bs', r'))
    (hend' : r'.rows = []) :
    (requestsIn bs = requestsIn bs' ∧ ((Reader.ofBytes bytes).headerFault = none →
        faultsIn bs = faultsIn bs' ∧ r.malformed = r'.malformed)) ∧
      (Reader.ofBytes bytes).ReadOut bs r ∧
      (∀ earlier n, 0 < n → ((Stream.after bytes earlier).readBatch n).1.requests = [] →
        (Stream.after bytes (earlier ++ [n])).AtEnd) ∧
      (∀ earlier later, (Stream.after bytes earlier).AtEnd → (∀ n ∈ later, 0 < n) →
        (inBatches Stream.readBatch (Stream.after bytes earlier) later).1 =
            List.replicate later.length ⟨[], (Reader.ofBytes bytes).headerFault.toList⟩ ∧
          (Stream.after bytes (earlier ++ later)).malformed =
            (Stream.after bytes earlier).malformed +
              later.length * (Reader.ofBytes bytes).headerFault.toList.length) ∧
      ∀ sizes, inBatches Reader.readBatch (.ofBytes bytes) sizes =
        ((inBatches Stream.readBatch (.ofBytes bytes) sizes).1,
          (Stream.after bytes sizes).reader) := by
  have hgives := (Reader.ofBytes bytes).gives_inBatches hpos
  have hgives' := (Reader.ofBytes bytes).gives_inBatches hpos'
  rw [hread] at hgives
  rw [hread'] at hgives'
  have hout := hgives.readOut hend
  have hout' := hgives'.readOut hend'
  have hafter (earlier later : List Nat) : Stream.after bytes (earlier ++ later) =
      (inBatches Stream.readBatch (Stream.after bytes earlier) later).2 := by
    rw [Stream.after, inBatches_append]
    rfl
  refine ⟨⟨hout.requests.trans hout'.requests.symm, fun hheader => ⟨?_, ?_⟩⟩, hout, ?_, ?_, ?_⟩
  · rw [hout.faultsIn hheader, hout'.faultsIn hheader]
  · rw [hout.malformed, hout'.malformed, hheader]
    rfl
  · intro earlier n hn hempty
    rw [hafter]
    exact Stream.atEnd_of_readBatch hn hempty
  · intro earlier later hatEnd hlater
    have hheader : (Stream.after bytes earlier).reader.headerFault =
        (Reader.ofBytes bytes).headerFault := by
      rw [Stream.reader_after, Reader.header_inBatches]
    have hrest := Reader.inBatches_of_rows hatEnd.reader_rows hlater
    rw [Stream.inBatches_eq, hheader] at hrest
    rw [hafter]
    refine ⟨congrArg Prod.fst hrest, ?_⟩
    have hcount := congrArg (fun found => found.2.malformed) hrest
    simpa only [Stream.malformed_reader] using hcount
  · intro sizes
    rw [← Stream.reader_ofBytes, Stream.inBatches_eq]
    rfl

def mixedFile : List UInt8 :=
  Text.encodeChars "from_account,to_account,amount,idempotency_key\na,".toList ++ 0xFF ::
    Text.encodeChars ",5,k\n\"a\nb\",c,5,k\na,b,,l\nb,c,7,m\n".toList

theorem batches_of_any_sizes_mixed :
    (∀ n ∈ [1, 1, 1], 0 < n) ∧ (∀ n ∈ [5], 0 < n) ∧
      (inBatches Reader.readBatch (.ofBytes mixedFile) [1, 1, 1]).2.rows = [] ∧
      (inBatches Reader.readBatch (.ofBytes mixedFile) [5]).2.rows = [] ∧
      requestsIn (inBatches Reader.readBatch (.ofBytes mixedFile) [1, 1, 1]).1 =
        [⟨"a\nb", "c", .ofWord false 5, "k"⟩, ⟨"b", "c", .ofWord false 7, "m"⟩] ∧
      (inBatches Reader.readBatch (.ofBytes mixedFile) [1, 1, 1]).2.malformed =
        (inBatches Reader.readBatch (.ofBytes mixedFile) [5]).2.malformed := by
  have hpos : ∀ n ∈ [1, 1, 1], 0 < n := by decide
  have hpos' : ∀ n ∈ [5], 0 < n := by decide
  have hend : (inBatches Reader.readBatch (.ofBytes mixedFile) [1, 1, 1]).2.rows = [] := by
    decide +kernel
  have hend' : (inBatches Reader.readBatch (.ofBytes mixedFile) [5]).2.rows = [] := by
    decide +kernel
  have hrequests : requestsIn (inBatches Reader.readBatch (.ofBytes mixedFile) [5]).1 =
      [⟨"a\nb", "c", .ofWord false 5, "k"⟩, ⟨"b", "c", .ofWord false 7, "m"⟩] := by decide +kernel
  obtain ⟨⟨hsame, hcounts⟩, -⟩ := batches_of_any_sizes mixedFile hpos hpos'
    (Prod.mk.eta).symm hend (Prod.mk.eta).symm hend'
  have hheader : (Reader.ofBytes mixedFile).headerFault = none := by decide +kernel
  exact ⟨hpos, hpos', hend, hend', hsame.trans hrequests, (hcounts hheader).2⟩

def spoiledFile : List UInt8 := 0xFF :: Text.encodeChars "\na,b,1,k\n".toList

/-- Both ways the rows come to their end, but one reports the header twice and counts it twice, and
the batch after an empty one reports it again. -/
theorem batches_differ_by_header :
    (inBatches Reader.readBatch (.ofBytes spoiledFile) [2]).2.rows = [] ∧
      (inBatches Reader.readBatch (.ofBytes spoiledFile) [1, 1]).2.rows = [] ∧
      faultsIn (inBatches Reader.readBatch (.ofBytes spoiledFile) [2]).1 ≠
        faultsIn (inBatches Reader.readBatch (.ofBytes spoiledFile) [1, 1]).1 ∧
      (inBatches Reader.readBatch (.ofBytes spoiledFile) [2]).2.malformed ≠
        (inBatches Reader.readBatch (.ofBytes spoiledFile) [1, 1]).2.malformed ∧
      ((inBatches Reader.readBatch (.ofBytes spoiledFile) [1]).2.readBatch 1).1.requests = [] ∧
      (inBatches Reader.readBatch (.ofBytes spoiledFile) [1, 1, 1]).2.malformed ≠
        (inBatches Reader.readBatch (.ofBytes spoiledFile) [1, 1]).2.malformed := by
  decide +kernel

end Bookkeeping.Csv
