import Bookkeeping.Proofs.Journal.Contents

/-! Files of whole lines, whoever wrote them: recovery goes through them to their end, whatever
follows, so that a journal which is opened on such a file can be written to and opened again. -/
namespace Bookkeeping.Journal

/-- Recovery goes through the bytes to their end, whatever follows them. -/
def Recovers (line : Nat) (r : Recovered) (bytes : List UInt8) (line' : Nat) (r' : Recovered) :
    Prop :=
  ∀ rest, recoverFrom line r (bytes ++ rest) = recoverFrom line' r' rest

section Recovers

variable {line line' line'' : Nat} {r r' r'' : Recovered} {bytes bytes' body rest : List UInt8}
  {p : Posting}

theorem Recovers.nil : Recovers line r [] line r := fun _ => rfl

theorem Recovers.trans (h : Recovers line r bytes line' r')
    (h' : Recovers line' r' bytes' line'' r'') : Recovers line r (bytes ++ bytes') line'' r'' := by
  intro rest
  rw [List.append_assoc, h, h']

theorem firstLine_eq_some (h : firstLine bytes = some (body, rest)) :
    bytes = body ++ newline :: rest ∧ newline ∉ body := by
  induction bytes generalizing body with
  | nil => simp [firstLine] at h
  | cons b bytes ih =>
    unfold firstLine at h
    split at h
    · next hb =>
      cases h
      exact ⟨by simpa using hb, List.not_mem_nil⟩
    · next hb =>
      obtain ⟨⟨body', rest'⟩, hfirst, heq⟩ := Option.map_eq_some_iff.1 h
      cases heq
      obtain ⟨hbytes, hbody⟩ := ih hfirst
      rw [beq_iff_eq] at hb
      refine ⟨by rw [hbytes, List.cons_append], ?_⟩
      rw [List.mem_cons, not_or]
      exact ⟨Ne.symm hb, hbody⟩

theorem recovers_line {book : Book} (hbody : newline ∉ body) (hdecode : decodeLine body = .ok p)
    (hinsert : r.book.insert p = (.saved, book)) :
    Recovers line r (body ++ [newline]) (line + 1) ⟨book, r.length + body.length + 1⟩ := by
  intro rest
  have hfirst : firstLine (body ++ [newline] ++ rest) = some (body, rest) := by
    rw [List.append_assoc]
    exact firstLine_append rest hbody
  rw [recoverFrom]
  split
  · next heq =>
    rw [hfirst] at heq
    cases heq
  · next heq =>
    rw [hfirst] at heq
    cases heq
    simp only [hdecode]
    rw [hinsert]

theorem recovers_encodeLine (hplain : p.plain = p) (hkey : r.book.hasKey p.key = false) :
    Recovers line r (encodeLine p) (line + 1)
      ⟨(r.book.insert p).2, r.length + (encodeLine p).length⟩ := by
  intro rest
  rw [recoverFrom_encodeLine rest hkey, hplain]

theorem recoverFrom_eq_ok (h : recoverFrom line r bytes = .ok r') :
    ∃ line' whole rest, bytes = whole ++ rest ∧ r'.length = r.length + whole.length ∧
      Recovers line r whole line' r' := by
  have hstop (line : Nat) (r : Recovered) (bytes : List UInt8)
      (h : (.ok r : Except Corruption Recovered) = .ok r') :
      ∃ line' whole rest, bytes = whole ++ rest ∧ r'.length = r.length + whole.length ∧
        Recovers line r whole line' r' := by
    cases h
    exact ⟨line, [], bytes, rfl, rfl, .nil⟩
  -- the induction goes line by line, and recovery ends at the first that is not taken up
  fun_induction recoverFrom line r bytes with
  | case1 line r bytes hnone => exact hstop line r bytes h
  | case2 line r bytes body rest hfirst fault hfault hempty => exact hstop line r bytes h
  | case3 => cases h
  | case4 => cases h
  | case5 line r bytes body rest hfirst p hdecode book hinsert ih =>
    obtain ⟨line', whole, rest', rfl, hlength, hwhole⟩ := ih h
    obtain ⟨rfl, hbody⟩ := firstLine_eq_some hfirst
    refine ⟨line', body ++ [newline] ++ whole, rest', by simp, ?_,
      (recovers_line hbody hdecode hinsert).trans hwhole⟩
    rw [hlength]
    simp only [List.length_append, List.length_singleton]
    omega

end Recovers

/-- A store that can be written to, at the end of a file which recovery takes up as a whole. -/
structure Store.Whole (s : Store) (file : List UInt8) : Prop where
  writable : s.broken = false
  atEnd : s.AtEnd file
  recovers : ∃ line, Recovers 1 {} file line ⟨s.book, file.length⟩

/-- A device that stores what it is given until it stops in a write, and is never heard of again. -/
structure Device.Stops (d : Device) : Prop where
  piece {file bytes : List UInt8} {place stored : Nat} {reason : String}
    (h : d.write file place bytes = .failed stored reason) (hbytes : bytes ≠ []) :
    stored < bytes.length
  silent {file bytes : List UInt8} {place stored : Nat} {reason : String}
    (h : d.write file place bytes = .failed stored reason) (file' : List UInt8) (length : Nat) :
    ∃ reason', d.setLength file' length = .failed false reason'

/-- A device that stops when a file has got so many bytes. -/
def Device.stoppedAt (length : Nat) : Device where
  write _ place bytes :=
    if place + bytes.length ≤ length then .done else .failed (length - place) ""
  setLength _ _ := .failed false ""

theorem Device.stops_stoppedAt (length : Nat) : (Device.stoppedAt length).Stops where
  piece h hbytes := by
    have hlength := List.length_pos_iff.2 hbytes
    unfold stoppedAt at h
    simp only at h
    split at h
    · cases h
    · cases h
      omega
  silent _ _ _ := ⟨"", rfl⟩

theorem Device.stops_sound : Device.sound.Stops where
  piece h := by cases h
  silent h := by cases h

def Store.grown (s : Store) (p : Posting) : Store :=
  { s with
    book := (s.book.insert p).2
    length := s.length + (encodeLine p).length, cursor := s.cursor + (encodeLine p).length }

namespace Store.Whole

variable {s : Store} {file tail : List UInt8} {p : Posting}

theorem recover_append (h : s.Whole file) (htail : newline ∉ tail) :
    recover (file ++ tail) = .ok ⟨s.book, file.length⟩ := by
  obtain ⟨line, hrecovers⟩ := h.recovers
  rw [recover, hrecovers, recoverFrom_of_notMem htail]

theorem eq_mk (h : s.Whole file) : s = ⟨s.book, file.length, file.length, false⟩ := by
  obtain ⟨book, length, cursor, broken⟩ := s
  obtain rfl : broken = false := h.writable
  obtain ⟨rfl, rfl⟩ : length = file.length ∧ cursor = file.length :=
    ⟨h.atEnd.length, h.atEnd.cursor⟩
  rfl

theorem openBytes (h : s.Whole file) (htail : newline ∉ tail) :
    Journal.openBytes .sound (file ++ tail) = (.ok ⟨s, tail.length⟩, file) := by
  rw [Journal.openBytes, h.recover_append htail]
  simp only [List.length_append, Nat.add_sub_cancel_left, ← h.eq_mk]
  cases tail with
  | nil => simp
  | cons b tail => simp [Device.sound, LengthOutcome.apply, resized_append]

theorem commit_done (h : s.Whole file) {device : Device} (hkey : s.book.hasKey p.key = false)
    (hwrite : device.write file file.length (encodeLine p) = .done) :
    s.commit device file p = ⟨.ok .saved, s.grown p, file ++ encodeLine p, none⟩ := by
  rw [commit, Book.insert_eq_saved hkey]
  simp [h.writable, h.atEnd.cursor, hwrite, overwritten_length, grown]

theorem commit_stopped (h : s.Whole file) {device : Device} (hdevice : device.Stops)
    (hkey : s.book.hasKey p.key = false) {stored : Nat} {reason : String}
    (hwrite : device.write file file.length (encodeLine p) = .failed stored reason) :
    ∃ error s' tail, s.commit device file p = ⟨.error error, s', file ++ tail, some reason⟩ ∧
      s'.broken = true ∧ newline ∉ tail := by
  have hpiece := newline_notMem_take (hdevice.piece hwrite (encodeLine_ne_nil p))
  obtain ⟨reason', hset⟩ := hdevice.silent hwrite (file ++ (encodeLine p).take stored) s.length
  rw [commit, Book.insert_eq_saved hkey]
  simp only [h.writable, h.atEnd.cursor, hwrite, Bool.false_eq_true, if_false, rollback,
    Nat.add_sub_cancel, overwritten_length, hset, LengthOutcome.apply]
  exact ⟨_, _, _, rfl, rfl, hpiece⟩

theorem grown (h : s.Whole file) (hplain : p.plain = p) (hkey : s.book.hasKey p.key = false) :
    (s.grown p).Whole (file ++ encodeLine p) where
  writable := h.writable
  atEnd := ⟨by simp [Store.grown, h.atEnd.length], by simp [Store.grown, h.atEnd.cursor]⟩
  recovers := by
    obtain ⟨line, hrecovers⟩ := h.recovers
    exact ⟨line + 1, by simpa [Store.grown] using hrecovers.trans (recovers_encodeLine hplain hkey)⟩

end Store.Whole

theorem whole_empty : Store.Whole {} [] := ⟨rfl, ⟨rfl, rfl⟩, 1, .nil⟩

/-- Whatever bytes a journal is opened on, its file is left with whole lines. -/
theorem whole_of_openBytes {bytes file : List UInt8} {o : Opened}
    (h : openBytes .sound bytes = (.ok o, file)) : o.store.Whole file := by
  unfold openBytes at h
  cases hrecover : recover bytes with
  | error c => simp [hrecover] at h
  | ok r =>
    obtain ⟨line, whole, rest, rfl, hlength, hwhole⟩ := recoverFrom_eq_ok hrecover
    have hlength' : r.length = whole.length := by simpa using hlength
    have hstore : Store.Whole ⟨r.book, r.length, r.length, false⟩ whole :=
      ⟨rfl, ⟨hlength', hlength'⟩, line, hlength' ▸ hwhole⟩
    rw [hlength'] at hstore
    simp only [hrecover, hlength', List.length_append, Nat.add_sub_cancel_left] at h
    cases rest with
    | nil =>
      simp only [List.length_nil, Nat.add_zero, Nat.lt_irrefl, if_false, List.append_nil] at h
      cases h
      exact hstore
    | cons b rest =>
      simp only [List.length_cons, Nat.lt_add_right_iff_pos, Nat.zero_lt_succ, if_true,
        Device.sound, LengthOutcome.apply, resized_append] at h
      cases h
      exact hstore

end Bookkeeping.Journal
