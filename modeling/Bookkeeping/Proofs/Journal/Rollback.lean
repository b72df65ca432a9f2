import Bookkeeping.Proofs.Journal.Whole

/-! Saves that fail on an open journal. One whose append was undone leaves no trace: whatever comes
after it goes as if it had not been. Once an append could not be undone nothing more is written, and
the rows that were stored before are still there to be read. -/
namespace Bookkeeping.Journal

inductive Query where
  | hasKey (key : String)
  | entriesOf (account : String)
  | entries
  | transactions

/-- What is asked of an open journal: to save a posting on a device that may fail, or a question. -/
inductive Use where
  | save (device : Device) (posting : Posting)
  | ask (query : Query)

inductive Reply where
  | saved (result : Except Error SaveOutcome)
  | truth (b : Bool)
  | entries (entries : List Entry)
  | transactions (transactions : List Transaction)
  deriving DecidableEq

def Query.ofBook (b : Book) : Query → Reply
  | hasKey key => .truth (b.hasKey key)
  | entriesOf account => .entries (b.entriesOf account)
  | entries => .entries b.entries
  | transactions => .transactions b.transactions

/-- An open journal with the bytes of its file. -/
structure OpenFile where
  store : Store
  file : List UInt8
  deriving DecidableEq

namespace OpenFile

def use (o : OpenFile) : Use → OpenFile × Reply
  | .save device p =>
    let r := o.store.commit device o.file p
    (⟨r.store, r.file⟩, .saved r.result)
  | .ask query => (o, query.ofBook o.store.book)

def after (o : OpenFile) (us : List Use) : OpenFile := us.foldl (fun o u => (o.use u).1) o

/-- The replies to what is asked one after the other, each with the bytes that the file has then. -/
def replies (o : OpenFile) : List Use → List (Reply × List UInt8)
  | [] => []
  | u :: us => ((o.use u).2, (o.use u).1.file) :: (o.use u).1.replies us

/-- The states of a journal that was opened on any bytes and has been in use since. -/
inductive Reached : OpenFile → Prop where
  | opened {device : Device} {bytes file : List UInt8} {opened : Opened}
    (h : openBytes device bytes = (.ok opened, file)) : Reached ⟨opened.store, file⟩
  | used {o : OpenFile} (h : Reached o) (u : Use) : Reached (o.use u).1

/-- The append of a new posting fails, after some of its bytes or all of them, and the device then
answers so when the file is to be cut back to what is committed. -/
structure AppendFails (o : OpenFile) (device : Device) (p : Posting) (rollback : LengthOutcome) :
    Prop where
  writable : o.store.broken = false
  new : o.store.book.hasKey p.key = false
  fails : ∃ stored reason,
    device.write o.file o.store.cursor (encodeLine p) = .failed stored reason ∧
      device.setLength (overwritten o.file o.store.cursor ((encodeLine p).take stored))
        o.store.length = rollback

end OpenFile

theorem atEnd_of_openBytes {device : Device} {bytes file : List UInt8} {opened : Opened}
    (h : openBytes device bytes = (.ok opened, file)) : opened.store.AtEnd file := by
  unfold openBytes at h
  cases hrecover : recover bytes with
  | error c => simp [hrecover] at h
  | ok r =>
    obtain ⟨line, whole, rest, rfl, hlength, -⟩ := recoverFrom_eq_ok hrecover
    have hlength' : r.length = whole.length := by simpa using hlength
    simp only [hrecover, hlength'] at h
    split at h
    · cases hset : device.setLength (whole ++ rest) whole.length with
      | done =>
        simp only [hset, LengthOutcome.apply, resized_append] at h
        cases h
        exact ⟨rfl, rfl⟩
      | failed changed reason =>
        simp only [hset] at h
        cases h
    · next hle =>
      have hrest : rest = [] := by
        rw [List.length_append] at hle
        exact List.length_eq_zero_iff.1 (by omega)
      subst hrest
      cases h
      exact ⟨by simp, by simp⟩

namespace OpenFile

variable {o : OpenFile} {device : Device} {p : Posting}

theorem Reached.atEnd (h : o.Reached) (hb : o.store.broken = false) : o.store.AtEnd o.file := by
  induction h with
  | opened hopen => exact atEnd_of_openBytes hopen
  | @used o _ u ih =>
    cases u with
    | ask query => exact ih hb
    | save device p =>
      by_cases hbroken : o.store.broken = true
      · simp [use, Store.commit, hbroken] at hb
      · rw [Bool.not_eq_true] at hbroken
        have hend := ih hbroken
        have hended := Store.commit_ended device p hbroken hend
        simp only [use] at hb ⊢
        generalize o.store.commit device o.file p = r at hended hb ⊢
        cases hended with
        | known _ => exact hend
        | undone _ _ => exact hend
        | appended _ => exact ⟨by simp [hend.length], by simp [hend.cursor]⟩
        | lost _ _ _ _ _ => cases hb

theorem AppendFails.undone (h : o.AppendFails device p .done) (hend : o.store.AtEnd o.file) :
    ∃ reason, o.use (.save device p) = (o, .saved (.error (.storage reason))) := by
  obtain ⟨⟨book, length, cursor, broken⟩, file⟩ := o
  obtain ⟨rfl, hkey, stored, reason, hwrite, hset⟩ := h
  obtain ⟨rfl, rfl⟩ : length = file.length ∧ cursor = file.length := ⟨hend.length, hend.cursor⟩
  refine ⟨reason, ?_⟩
  simp only [overwritten_length] at hwrite hset
  rw [use, Store.commit, if_neg Bool.false_ne_true, Book.insert_eq_saved hkey]
  simp only [hwrite, Store.rollback, Nat.add_sub_cancel, overwritten_length, hset,
    LengthOutcome.apply, resized_append]

theorem AppendFails.lost {changed : Bool} {reason : String}
    (h : o.AppendFails device p (.failed changed reason)) :
    ∃ reason', (o.use (.save device p)).2 = .saved (.error (.storage reason')) ∧
      (o.use (.save device p)).1.store.book = o.store.book ∧
      (o.use (.save device p)).1.store.broken = true := by
  obtain ⟨⟨book, length, cursor, broken⟩, file⟩ := o
  obtain ⟨rfl, hkey, stored, reason', hwrite, hset⟩ := h
  rw [use, Store.commit, if_neg Bool.false_ne_true, Book.insert_eq_saved hkey]
  simp only at hwrite hset
  simp only [hwrite, Store.rollback, Nat.add_sub_cancel, hset]
  exact ⟨_, rfl, trivial, trivial⟩

theorem use_save_of_broken (hb : o.store.broken = true) (device : Device) (p : Posting) :
    o.use (.save device p) =
      (o, .saved (.error (.storage "journal is unusable after a failed rollback"))) := by
  simp [use, Store.commit, hb]

theorem after_of_broken (hb : o.store.broken = true) (us : List Use) : o.after us = o := by
  induction us with
  | nil => rfl
  | cons u us ih =>
    have hstay : (o.use u).1 = o := by
      cases u with
      | save device p => rw [use_save_of_broken hb]
      | ask query => rfl
    rw [after, List.foldl_cons, hstay]
    exact ih

/-- A save whose append failed and was undone leaves the journal and its file as they were, so that
all that comes after it is answered as if it had not been, with the same bytes in the file. Once an
append could not be undone, every save answers that it failed and leaves the file and the rows as
they are, and every question is answered as before. -/
theorem failed_append (h : o.Reached) (device : Device) (p : Posting) :
    (o.AppendFails device p .done →
      ∃ reason, (o.use (.save device p)).2 = .saved (.error (.storage reason)) ∧
        (o.use (.save device p)).1 = o ∧
        ∀ us, o.after (.save device p :: us) = o.after us ∧
          o.replies (.save device p :: us) =
            (.saved (.error (.storage reason)), o.file) :: o.replies us) ∧
      ∀ changed reason, o.AppendFails device p (.failed changed reason) →
        ∃ reason', (o.use (.save device p)).2 = .saved (.error (.storage reason')) ∧
          ∀ us, o.after (.save device p :: us) = (o.use (.save device p)).1 ∧
            (∀ device' p', ∃ reason'',
              (o.after (.save device p :: us)).use (.save device' p') =
                (o.after (.save device p :: us), .saved (.error (.storage reason'')))) ∧
            ∀ query, ((o.after (.save device p :: us)).use (.ask query)).2 =
              (o.use (.ask query)).2 := by
  refine ⟨fun hfails => ?_, fun changed reason hfails => ?_⟩
  · obtain ⟨reason, huse⟩ := hfails.undone (h.atEnd hfails.writable)
    refine ⟨reason, by rw [huse], by rw [huse], fun us => ⟨?_, ?_⟩⟩
    · rw [after, List.foldl_cons, huse]
      rfl
    · rw [replies, huse]
  · obtain ⟨reason', hreply, hbook, hbroken⟩ := hfails.lost
    refine ⟨reason', hreply, fun us => ?_⟩
    have hafter : o.after (.save device p :: us) = (o.use (.save device p)).1 :=
      after_of_broken hbroken us
    refine ⟨hafter, fun device' p' => ?_, fun query => ?_⟩
    · rw [hafter]
      exact ⟨_, use_save_of_broken hbroken device' p'⟩
    · rw [hafter]
      exact congrArg query.ofBook hbook

/-- A journal with one posting, on which the append of another fails: at first there is no room for
all of its line, and then the file cannot be cut back. -/
theorem failed_append_twice :
    let t (key : String) : Posting :=
      Transaction.posting ⟨.ofNat 0, key, "a", "b", .ofWord false 5, .epoch⟩
    let o := (OpenFile.use ⟨{}, []⟩ (.save .sound (t "k"))).1
    let full : Device := ⟨fun _ _ _ => .failed 5 "full", fun _ _ => .done⟩
    let stuck : Device := ⟨fun _ _ _ => .failed 5 "full", fun _ _ => .failed false "stuck"⟩
    o.Reached ∧
      (o.AppendFails full (t "l") .done ∧ (o.use (.save full (t "l"))).1 = o) ∧
      o.AppendFails stuck (t "l") (.failed false "stuck") ∧
      ((o.after [.save stuck (t "l")]).use (.ask .transactions)).2 =
        .transactions [(t "k").transaction] := by
  intro t o full stuck
  have hopen : openBytes .sound [] = (.ok ⟨{}, 0⟩, []) := whole_empty.openBytes List.not_mem_nil
  have hreached : o.Reached := (Reached.opened hopen).used (.save .sound (t "k"))
  have hfull : o.AppendFails full (t "l") .done := ⟨rfl, by decide, 5, "full", rfl, rfl⟩
  have hstuck : o.AppendFails stuck (t "l") (.failed false "stuck") :=
    ⟨rfl, by decide, 5, "full", rfl, rfl⟩
  obtain ⟨_, -, hsame, -⟩ := (failed_append hreached full (t "l")).1 hfull
  obtain ⟨_, -, hstays⟩ := (failed_append hreached stuck (t "l")).2 _ _ hstuck
  exact ⟨hreached, ⟨hfull, hsame⟩, hstuck, (hstays []).2.2 .transactions⟩

end OpenFile

end Bookkeeping.Journal
