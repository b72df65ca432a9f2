import Bookkeeping.Journal.Store
import Bookkeeping.Proofs.Journal.Recovery

/-! What the file of a journal holds, whole lines and a piece of at most one more, and what saves
and openings make of such a file. -/
namespace Bookkeeping.Journal

theorem resized_length (file : List UInt8) : resized file file.length = file := by
  simp [resized]

theorem resized_append (file bytes : List UInt8) : resized (file ++ bytes) file.length = file := by
  simp [resized]

theorem overwritten_length (file bytes : List UInt8) :
    overwritten file file.length bytes = file ++ bytes := by
  unfold overwritten
  split
  · simp_all
  · simp [resized_length]

/-- A store that can be written to stands at the end of its file. -/
structure Store.AtEnd (s : Store) (file : List UInt8) : Prop where
  length : s.length = file.length
  cursor : s.cursor = file.length

/-- How a save ends: the key is taken, the line is appended, the append fails and is undone, or it
fails and cannot be undone. -/
inductive Ended (s : Store) (file : List UInt8) (p : Posting) : Committed → Prop where
  | known (h : s.book.hasKey p.key = true) : Ended s file p ⟨.ok .duplicateKey, s, file, none⟩
  | appended (h : s.book.hasKey p.key = false) :
    Ended s file p ⟨.ok .saved,
      { s with
        book := (s.book.insert p).2
        length := s.length + (encodeLine p).length, cursor := s.cursor + (encodeLine p).length },
      file ++ encodeLine p, none⟩
  | undone (h : s.book.hasKey p.key = false) (reason : String) :
    Ended s file p ⟨.error (.storage reason), s, file, some reason⟩
  | lost (h : s.book.hasKey p.key = false) (stored cursor : Nat) (error reason : String) :
    Ended s file p ⟨.error (.storage error), { s with cursor, broken := true },
      file ++ (encodeLine p).take stored, some reason⟩

theorem Store.commit_ended {s : Store} {file : List UInt8} (device : Device) (p : Posting)
    (hb : s.broken = false) (h : s.AtEnd file) : Ended s file p (s.commit device file p) := by
  obtain ⟨book, length, cursor, broken⟩ := s
  obtain ⟨rfl, rfl⟩ : length = file.length ∧ cursor = file.length := ⟨h.length, h.cursor⟩
  simp only at hb
  subst hb
  unfold commit
  simp only [Bool.false_eq_true, if_false]
  cases hk : book.hasKey p.key with
  | true =>
    rw [Book.insert_of_hasKey hk]
    exact .known hk
  | false =>
    rw [Book.insert_eq_saved hk]
    simp only
    cases device.write file file.length (encodeLine p) with
    | done =>
      rw [overwritten_length]
      exact .appended hk
    | failed stored reason =>
      simp only [Nat.add_sub_cancel, overwritten_length, rollback]
      cases device.setLength (file ++ (encodeLine p).take stored) file.length with
      | done =>
        simp only [LengthOutcome.apply, resized_append]
        exact .undone hk reason
      | failed changed reason' =>
        cases changed with
        | true =>
          simp only [LengthOutcome.apply, resized_append]
          have := @Ended.lost ⟨book, file.length, file.length, false⟩ file p hk 0
            (file.length + stored) (reason ++ "; rollback failed: " ++ reason') reason
          simpa using this
        | false =>
          exact .lost hk stored _ _ reason

/-- A file of the lines of postings with different keys and a piece of at most one more line. -/
structure Holds (file : List UInt8) (lines : List Posting) (tail : List UInt8) : Prop where
  file_eq : file = encodeLines lines ++ tail
  piece : newline ∉ tail
  keys : (lines.map (·.key)).Nodup

namespace Holds

variable {file tail : List UInt8} {lines : List Posting} {p : Posting}

theorem nil : Holds [] [] [] := ⟨rfl, List.not_mem_nil, List.nodup_nil⟩

theorem of_lines (h : Holds file lines tail) : Holds (encodeLines lines) lines [] :=
  ⟨by simp, by simp, h.keys⟩

theorem append (h : Holds file lines []) (hkey : p.key ∉ lines.map (·.key)) :
    Holds (file ++ encodeLine p) (lines ++ [p]) [] where
  file_eq := by simp [h.file_eq]
  piece := List.not_mem_nil
  keys := Book.nodup_keys_append h.keys hkey

theorem append_take (h : Holds file lines []) (hkey : p.key ∉ lines.map (·.key)) (n : Nat) :
    ∃ tail, Holds (file ++ (encodeLine p).take n)
      (lines ++ (if file ++ (encodeLine p).take n = file ++ encodeLine p then some p
        else none).toList) tail := by
  by_cases hn : n < (encodeLine p).length
  · have hne : file ++ (encodeLine p).take n ≠ file ++ encodeLine p := by
      intro heq
      have := congrArg List.length (List.append_cancel_left heq)
      rw [List.length_take] at this
      omega
    rw [if_neg hne]
    exact ⟨_, by simp [h.file_eq], newline_notMem_take hn, by simpa using h.keys⟩
  · rw [List.take_of_length_le (Nat.le_of_not_lt hn), if_pos rfl]
    exact ⟨[], h.append hkey⟩

/-- An opening finds the lines, and only cutting off the piece after them can fail. -/
theorem openBytes (h : Holds file lines tail) (device : Device) :
    (Journal.openBytes device file = (.ok
        ⟨⟨Book.of (lines.map (·.plain)), (encodeLines lines).length, (encodeLines lines).length,
          false⟩, tail.length⟩, encodeLines lines)) ∨
    ∃ changed reason, (encodeLines lines).length < file.length ∧
      device.setLength file (encodeLines lines).length = .failed changed reason ∧
      Journal.openBytes device file = (.error (.storage reason),
        if changed then encodeLines lines else file) := by
  have hrecover := recover_encodeLines h.keys h.piece
  rw [← h.file_eq] at hrecover
  have hcut : resized file (encodeLines lines).length = encodeLines lines := by
    rw [h.file_eq, resized_append]
  have hdiscarded : file.length - (encodeLines lines).length = tail.length := by
    rw [h.file_eq, List.length_append, Nat.add_sub_cancel_left]
  rw [Journal.openBytes, hrecover]
  simp only [hdiscarded]
  by_cases hlt : (encodeLines lines).length < file.length
  · rw [if_pos hlt]
    cases hset : device.setLength file (encodeLines lines).length with
    | done => exact .inl (by simp [LengthOutcome.apply, hcut])
    | failed changed reason =>
      exact .inr ⟨changed, reason, hlt, rfl, by cases changed <;> simp [LengthOutcome.apply, hcut]⟩
  · rw [if_neg hlt]
    have htail : tail = [] := by
      rw [h.file_eq, List.length_append] at hlt
      exact List.length_eq_zero_iff.1 (by omega)
    exact .inl (by rw [h.file_eq, htail, List.append_nil])

end Holds

end Bookkeeping.Journal
