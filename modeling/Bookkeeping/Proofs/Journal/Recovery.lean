import Bookkeeping.Journal.Recovery
import Bookkeeping.Proofs.Journal.Line

/-! Recovery of the lines of postings with different keys, whatever piece of a line follows them:
the postings come back in their order, and the piece is left out. -/
namespace Bookkeeping

namespace Book

def of (ps : List Posting) : Book where
  transactions := ps.map (·.transaction)
  entries := ps.flatMap (·.entries)
  keys := ps.map (·.key)

theorem of_nil : of [] = {} := rfl

theorem keys_of (ps : List Posting) : (of ps).keys = (of ps).transactions.map (·.key) := by
  rw [of, List.map_map]
  rfl

theorem hasKey_iff {b : Book} {key : String} : b.hasKey key = true ↔ key ∈ b.keys := by
  simp [hasKey]

theorem hasKey_eq_false {b : Book} {key : String} : b.hasKey key = false ↔ key ∉ b.keys := by
  simp [hasKey]

theorem insert_of_hasKey {b : Book} {p : Posting} (h : b.hasKey p.key = true) :
    b.insert p = (.duplicateKey, b) := if_pos h

theorem insert_of_not_hasKey {b : Book} {p : Posting} (h : b.hasKey p.key = false) :
    b.insert p = (.saved,
      ⟨b.transactions ++ [p.transaction], b.entries ++ p.entries, b.keys ++ [p.key]⟩) :=
  if_neg (by simp [h])

theorem insert_eq_saved {b : Book} {p : Posting} (h : b.hasKey p.key = false) :
    b.insert p = (.saved, (b.insert p).2) := by
  rw [insert_of_not_hasKey h]

theorem of_append_singleton (ps : List Posting) (p : Posting) :
    of (ps ++ [p]) = ⟨(of ps).transactions ++ [p.transaction], (of ps).entries ++ p.entries,
      (of ps).keys ++ [p.key]⟩ := by
  simp [of]

theorem postings_of (ps : List Posting) : (of ps).postings = ps := by
  induction ps with
  | nil => rfl
  | cons p ps ih =>
    simpa [postings, of, Posting.entries, paired] using ih

theorem transactions_of_plain (ps : List Posting) :
    (of (ps.map (·.plain))).transactions = (ps.map (·.transaction)).map (·.plain) := by
  simp [of]

theorem entries_of_plain (ps : List Posting) :
    (of (ps.map (·.plain))).entries = (ps.flatMap (·.entries)).map (·.plain) := by
  simp [of, List.flatMap_map, List.map_flatMap]

theorem notMem_of_hasKey {b : Book} {ps : List Posting} {key : String}
    (h : b.keys = ps.map (·.key)) (hkey : b.hasKey key = false) : key ∉ ps.map (·.key) := by
  rw [← h]
  exact hasKey_eq_false.1 hkey

theorem hasKey_of_nodup {done ps : List Posting} {p : Posting}
    (h : ((done ++ p :: ps).map (·.key)).Nodup) : (of done).hasKey p.key = false := by
  rw [hasKey_eq_false]
  intro hmem
  rw [List.map_append, List.nodup_append] at h
  exact h.2.2 p.key hmem p.key (by simp) rfl

/-- Of postings, one more is stored just if its key is none of theirs. -/
theorem insert_cases (done : List Posting) (p : Posting) :
    (p.key ∈ done.map (·.key) ∧ (of done).insert p = (.duplicateKey, of done)) ∨
      (p.key ∉ done.map (·.key) ∧ (of done).insert p = (.saved, of (done ++ [p]))) := by
  cases hkey : (of done).hasKey p.key with
  | true => exact .inl ⟨hasKey_iff.1 hkey, insert_of_hasKey hkey⟩
  | false =>
    rw [insert_of_not_hasKey hkey, ← of_append_singleton]
    exact .inr ⟨hasKey_eq_false.1 hkey, rfl⟩

theorem insert_of_nodup {done ps : List Posting} {p : Posting}
    (h : ((done ++ p :: ps).map (·.key)).Nodup) :
    (of done).insert p = (.saved, of (done ++ [p])) := by
  rw [insert_of_not_hasKey (hasKey_of_nodup h), of_append_singleton]

theorem nodup_keys_append {ps : List Posting} {p : Posting} (h : (ps.map (·.key)).Nodup)
    (hkey : p.key ∉ ps.map (·.key)) : ((ps ++ [p]).map (·.key)).Nodup := by
  rw [List.map_append, List.map_singleton, List.nodup_append]
  refine ⟨h, by simp, ?_⟩
  intro _ ha b hb heq
  rw [List.mem_singleton] at hb
  exact hkey (hb ▸ heq ▸ ha)

end Book

namespace Journal

def encodeLines (ps : List Posting) : List UInt8 := ps.flatMap encodeLine

@[simp] theorem encodeLines_nil : encodeLines [] = [] := rfl

@[simp] theorem encodeLines_cons (p : Posting) (ps : List Posting) :
    encodeLines (p :: ps) = encodeLine p ++ encodeLines ps := rfl

@[simp] theorem encodeLines_append (ps qs : List Posting) :
    encodeLines (ps ++ qs) = encodeLines ps ++ encodeLines qs := by
  simp [encodeLines]

theorem firstLine_of_notMem {bytes : List UInt8} (h : newline ∉ bytes) :
    firstLine bytes = none := by
  induction bytes with
  | nil => rfl
  | cons b bytes ih =>
    simp only [List.mem_cons, not_or] at h
    simp [firstLine, Ne.symm h.1, ih h.2]

theorem firstLine_append {body : List UInt8} (rest : List UInt8) (h : newline ∉ body) :
    firstLine (body ++ newline :: rest) = some (body, rest) := by
  induction body with
  | nil => simp [firstLine]
  | cons b body ih =>
    simp only [List.mem_cons, not_or] at h
    simp [firstLine, Ne.symm h.1, ih h.2]

theorem firstLine_encodeLine (p : Posting) (rest : List UInt8) :
    firstLine (encodeLine p ++ rest) = some (lineBody p, rest) := by
  rw [encodeLine, List.append_assoc]
  exact firstLine_append rest (newline_notMem_lineBody p)

theorem recoverFrom_of_notMem {line : Nat} {r : Recovered} {bytes : List UInt8}
    (h : newline ∉ bytes) : recoverFrom line r bytes = .ok r := by
  rw [recoverFrom]
  split
  · rfl
  · next heq => simp [firstLine_of_notMem h] at heq

theorem recoverFrom_encodeLine {line : Nat} {r : Recovered} {p : Posting} (rest : List UInt8)
    (h : r.book.hasKey p.key = false) :
    recoverFrom line r (encodeLine p ++ rest) =
      recoverFrom (line + 1)
        ⟨(r.book.insert p.plain).2, r.length + (encodeLine p).length⟩ rest := by
  have hinsert := Book.insert_eq_saved (p := p.plain) h
  rw [recoverFrom]
  split
  · next heq => simp [firstLine_encodeLine] at heq
  · next body rest' heq =>
    rw [firstLine_encodeLine] at heq
    simp only [Option.some.injEq, Prod.mk.injEq] at heq
    obtain ⟨rfl, rfl⟩ := heq
    rw [decodeLine_lineBody]
    simp only
    rw [hinsert]
    simp [encodeLine, Nat.add_assoc]

/-- Whole lines are recovered, and then whatever follows them. -/
theorem recoverFrom_encodeLines_append {line length : Nat} {done ps : List Posting}
    (hkeys : ((done ++ ps).map (·.key)).Nodup) (rest : List UInt8) :
    recoverFrom line ⟨Book.of done, length⟩ (encodeLines ps ++ rest) =
      recoverFrom (line + ps.length)
        ⟨Book.of (done ++ ps.map (·.plain)), length + (encodeLines ps).length⟩ rest := by
  induction ps generalizing line length done with
  | nil => simp
  | cons p ps ih =>
    have hplain : ((done ++ p.plain :: ps).map (·.key)).Nodup := by simpa using hkeys
    have hkeys' : ((done ++ [p.plain] ++ ps).map (·.key)).Nodup := by simpa using hkeys
    rw [encodeLines_cons, List.append_assoc, recoverFrom_encodeLine _ (Book.hasKey_of_nodup hkeys),
      Book.insert_of_nodup hplain, ih hkeys']
    simp [Nat.add_assoc, Nat.add_comm 1]

theorem recoverFrom_encodeLines {line length : Nat} {done ps : List Posting} {tail : List UInt8}
    (hkeys : ((done ++ ps).map (·.key)).Nodup) (htail : newline ∉ tail) :
    recoverFrom line ⟨Book.of done, length⟩ (encodeLines ps ++ tail) =
      .ok ⟨Book.of (done ++ ps.map (·.plain)), length + (encodeLines ps).length⟩ := by
  rw [recoverFrom_encodeLines_append hkeys, recoverFrom_of_notMem htail]

theorem recover_encodeLines {ps : List Posting} {tail : List UInt8}
    (hkeys : (ps.map (·.key)).Nodup) (htail : newline ∉ tail) :
    recover (encodeLines ps ++ tail) =
      .ok ⟨Book.of (ps.map (·.plain)), (encodeLines ps).length⟩ := by
  have h : recoverFrom 1 ⟨Book.of [], 0⟩ (encodeLines ps ++ tail) =
      .ok ⟨Book.of ([] ++ ps.map (·.plain)), 0 + (encodeLines ps).length⟩ :=
    recoverFrom_encodeLines hkeys htail
  simpa [recover, Book.of_nil] using h

/-- How many of the lines of postings lie as a whole within so many bytes. -/
def linesWithin : Nat → List Posting → Nat
  | _, [] => 0
  | n, p :: ps =>
    if (encodeLine p).length ≤ n then linesWithin (n - (encodeLine p).length) ps + 1 else 0

theorem lt_linesWithin_iff {ps : List Posting} {n i : Nat} (hi : i < ps.length) :
    i < linesWithin n ps ↔ (encodeLines (ps.take (i + 1))).length ≤ n := by
  induction ps generalizing n i with
  | nil => cases hi
  | cons p ps ih =>
    rw [List.take_succ_cons, encodeLines_cons, List.length_append, linesWithin]
    split
    · next hwhole =>
      cases i with
      | zero => simpa using hwhole
      | succ i =>
        rw [Nat.add_lt_add_iff_right, ih (Nat.lt_of_succ_lt_succ hi)]
        omega
    · next hcut => omega

theorem take_encodeLines (n : Nat) (ps : List Posting) : ∃ tail, newline ∉ tail ∧
    (encodeLines ps).take n = encodeLines (ps.take (linesWithin n ps)) ++ tail := by
  induction ps generalizing n with
  | nil => exact ⟨[], List.not_mem_nil, by simp⟩
  | cons p ps ih =>
    rw [encodeLines_cons, linesWithin]
    split
    · next hwhole =>
      obtain ⟨tail, htail, htake⟩ := ih (n - (encodeLine p).length)
      refine ⟨tail, htail, ?_⟩
      rw [List.take_append, List.take_of_length_le hwhole, htake, List.take_succ_cons,
        encodeLines_cons, List.append_assoc]
    · next hcut =>
      have hlt : n < (encodeLine p).length := Nat.lt_of_not_le hcut
      refine ⟨(encodeLine p).take n, newline_notMem_take hlt, ?_⟩
      rw [List.take_append_of_le_length hlt.le, List.take_zero, encodeLines_nil, List.nil_append]

/-- A journal that is cut off anywhere is recovered as the postings whose lines, line feeds
included, lie within the bytes that are left, and takes up just these lines. -/
theorem recover_take {ps : List Posting} (hkeys : (ps.map (·.key)).Nodup) (n : Nat) :
    (∀ i < ps.length, i < linesWithin n ps ↔ (encodeLines (ps.take (i + 1))).length ≤ n) ∧
      ∃ book, recover ((encodeLines ps).take n) =
          .ok ⟨book, (encodeLines (ps.take (linesWithin n ps))).length⟩ ∧
        List.Forall₂ Transaction.Same book.transactions
          ((ps.take (linesWithin n ps)).map (·.transaction)) ∧
        List.Forall₂ Entry.Same book.entries
          ((ps.take (linesWithin n ps)).flatMap (·.entries)) ∧
        book.keys = (ps.take (linesWithin n ps)).map (·.key) := by
  refine ⟨fun i hi => lt_linesWithin_iff hi, ?_⟩
  obtain ⟨tail, htail, htake⟩ := take_encodeLines n ps
  generalize linesWithin n ps = k at htake ⊢
  have hkept : ((ps.take k).map (·.key)).Nodup :=
    hkeys.sublist ((List.take_sublist k ps).map (·.key))
  refine ⟨_, htake ▸ recover_encodeLines hkept htail, ?_, ?_, ?_⟩
  · rw [Book.transactions_of_plain]
    exact Transaction.forall₂_same_plain _
  · rw [Book.entries_of_plain]
    exact Entry.forall₂_same_plain _
  · simp [Book.of, Function.comp_def]

theorem recover_take_unended :
    let p (key : String) : Posting :=
      Transaction.posting ⟨.ofNat 0, key, "a", "b", .ofWord false 5, .epoch⟩
    let n := (encodeLine (p "k")).length + (lineBody (p "l")).length
    ([p "k", p "l"].map (·.key)).Nodup ∧ ∃ book,
      recover ((encodeLines [p "k", p "l"]).take n) = .ok ⟨book, (encodeLine (p "k")).length⟩ ∧
        book.keys = ["k"] := by
  intro p n
  have hkeys : ([p "k", p "l"].map (·.key)).Nodup := by decide
  have hwithin : linesWithin n [p "k", p "l"] = 1 := by
    have hcut : ¬(encodeLine (p "l")).length ≤ (lineBody (p "l")).length := by simp [encodeLine]
    simp [n, linesWithin, hcut]
  obtain ⟨-, book, hrecover, -, -, hbook⟩ := recover_take hkeys n
  rw [hwithin] at hrecover hbook
  exact ⟨hkeys, book, by simpa using hrecover, hbook⟩

end Journal

end Bookkeeping
