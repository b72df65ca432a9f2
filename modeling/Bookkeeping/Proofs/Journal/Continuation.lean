import Bookkeeping.Proofs.Journal.Grammar
import Bookkeeping.Proofs.Journal.Rollback

/-! A journal goes on from whatever bytes it was opened on. Opening leaves just the records in the
file, so that opening it again changes nothing, and the lines of later saves follow them. -/
namespace Bookkeeping.Journal

section Opening

variable {device : Device} {bytes file : List UInt8} {opened : Opened} {ps : List Posting}

/-- What a journal was opened on are the records that are left in its file, and what was cut off. -/
theorem records_of_openBytes (h : openBytes device bytes = (.ok opened, file)) :
    ∃ ps tail, bytes = file ++ tail ∧ Torn tail ∧ Records file ps ∧ (ps.map (·.key)).Nodup ∧
      opened = ⟨⟨Book.of ps, file.length, file.length, false⟩, tail.length⟩ := by
  unfold openBytes at h
  cases hrecover : recover bytes with
  | error c => simp [hrecover] at h
  | ok r =>
    obtain ⟨ps, whole, tail, rfl, hrecords, hkeys, htorn, rfl⟩ := recover_eq_ok_iff.1 hrecover
    simp only [hrecover, List.length_append, Nat.add_sub_cancel_left] at h
    suffices file = whole ∧
        opened = ⟨⟨Book.of ps, whole.length, whole.length, false⟩, tail.length⟩ by
      obtain ⟨rfl, rfl⟩ := this
      exact ⟨ps, tail, rfl, htorn, hrecords, hkeys, rfl⟩
    split at h
    · cases hset : device.setLength (whole ++ tail) whole.length with
      | done =>
        simp only [hset, LengthOutcome.apply, resized_append] at h
        cases h
        exact ⟨rfl, rfl⟩
      | failed changed reason => simp [hset] at h
    · next hle =>
      have htail : tail = [] := List.length_eq_zero_iff.1 (by omega)
      subst htail
      cases h
      exact ⟨List.append_nil _, rfl⟩

theorem openBytes_records (h : Records file ps) (hkeys : (ps.map (·.key)).Nodup)
    (device : Device) :
    openBytes device file =
      (.ok ⟨⟨Book.of ps, file.length, file.length, false⟩, 0⟩, file) := by
  have hrecover : recover file = .ok ⟨Book.of ps, file.length⟩ :=
    recover_eq_ok_iff.2
      ⟨ps, file, [], (List.append_nil _).symm, h, hkeys, .cut List.not_mem_nil, rfl⟩
  simp [openBytes, hrecover]

end Opening

def Use.Faultless : Use → Prop
  | .save device _ => device = .sound
  | .ask _ => True

/-- The posting that was saved, if the reply says so. -/
def Use.accepted : Use → Reply → List Posting
  | .save _ p, .saved (.ok .saved) => [p]
  | _, _ => []

namespace OpenFile

/-- The postings of the saves that answered that they saved, in order. -/
def saved (o : OpenFile) : List Use → List Posting
  | [] => []
  | u :: us => u.accepted (o.use u).2 ++ (o.use u).1.saved us

/-- The file holds the records that it was opened on and those of the postings saved since; the book
has all of them, and further lines are written behind them. -/
structure Backed (o : OpenFile) (ps saved : List Posting) : Prop where
  store : o.store = ⟨Book.of (ps ++ saved), o.file.length, o.file.length, false⟩
  records : Records o.file (ps ++ saved.map (·.plain))
  keys : ((ps ++ saved).map (·.key)).Nodup

variable {o : OpenFile} {ps saved : List Posting} {p : Posting}

theorem Backed.save_known (h : o.Backed ps saved) (hkey : (Book.of (ps ++ saved)).hasKey p.key = true) :
    o.use (.save .sound p) = (o, .saved (.ok .duplicateKey)) := by
  obtain ⟨store, file⟩ := o
  have hstore : store = ⟨Book.of (ps ++ saved), file.length, file.length, false⟩ := h.store
  subst hstore
  rw [use, Store.commit, if_neg Bool.false_ne_true, Book.insert_of_hasKey hkey]

theorem Backed.save_new (h : o.Backed ps saved) (hkey : (Book.of (ps ++ saved)).hasKey p.key = false) :
    (o.use (.save .sound p)).2 = .saved (.ok .saved) ∧
      (o.use (.save .sound p)).1.Backed ps (saved ++ [p]) := by
  obtain ⟨store, file⟩ := o
  have hstore : store = ⟨Book.of (ps ++ saved), file.length, file.length, false⟩ := h.store
  subst hstore
  have huse : use ⟨⟨Book.of (ps ++ saved), file.length, file.length, false⟩, file⟩ (.save .sound p) =
      (⟨⟨Book.of (ps ++ (saved ++ [p])), file.length + (encodeLine p).length,
        file.length + (encodeLine p).length, false⟩, file ++ encodeLine p⟩,
        .saved (.ok .saved)) := by
    rw [use, Store.commit, if_neg Bool.false_ne_true, Book.insert_of_not_hasKey hkey,
      ← Book.of_append_singleton, List.append_assoc]
    simp only [Device.sound, overwritten_length]
  rw [huse]
  refine ⟨rfl, by simp, ?_, ?_⟩
  · simpa using h.records.append (.encodeLine p)
  · rw [← List.append_assoc]
    exact Book.nodup_keys_append h.keys (Book.hasKey_eq_false.1 hkey)

theorem Backed.after (h : o.Backed ps saved) (us : List Use) (hus : ∀ u ∈ us, u.Faultless) :
    (o.after us).Backed ps (saved ++ o.saved us) := by
  induction us generalizing o saved with
  | nil => simpa [OpenFile.after, OpenFile.saved] using h
  | cons u us ih =>
    obtain ⟨hu, hrest⟩ := List.forall_mem_cons.1 hus
    have hafter : o.after (u :: us) = (o.use u).1.after us := rfl
    rw [hafter, OpenFile.saved]
    cases u with
    | ask query => exact ih h hrest
    | save device p =>
      obtain rfl : device = .sound := hu
      cases hkey : (Book.of (ps ++ saved)).hasKey p.key with
      | true =>
        rw [h.save_known hkey]
        exact ih h hrest
      | false =>
        obtain ⟨hreply, hbacked⟩ := h.save_new hkey
        rw [hreply, ← List.append_assoc]
        exact ih hbacked hrest

end OpenFile

/-- Opening a journal, on whatever bytes it succeeds, leaves the records in the file and cuts off
what follows them; opening it again finds the same and cuts off nothing. After saves without faults
an opening finds what the first one found and then the postings of those saves that answered that
they saved, in order, and again cuts off nothing. -/
theorem openBytes_continues {device : Device} {bytes file : List UInt8} {opened : Opened}
    (h : openBytes device bytes = (.ok opened, file)) :
    (∃ ps tail, bytes = file ++ tail ∧ Torn tail ∧ Records file ps ∧ (ps.map (·.key)).Nodup ∧
        opened = ⟨⟨Book.of ps, file.length, file.length, false⟩, tail.length⟩) ∧
      (∀ again, openBytes again file = (.ok ⟨opened.store, 0⟩, file)) ∧
      ∀ us : List Use, (∀ u ∈ us, u.Faultless) → ∃ reopened : Store,
        (∀ again, openBytes again (OpenFile.after ⟨opened.store, file⟩ us).file =
          (.ok ⟨reopened, 0⟩, (OpenFile.after ⟨opened.store, file⟩ us).file)) ∧
        (∃ ts, reopened.book.transactions = opened.store.book.transactions ++ ts ∧
          List.Forall₂ Transaction.Same ts
            ((OpenFile.saved ⟨opened.store, file⟩ us).map (·.transaction))) ∧
        (∃ es, reopened.book.entries = opened.store.book.entries ++ es ∧
          List.Forall₂ Entry.Same es
            ((OpenFile.saved ⟨opened.store, file⟩ us).flatMap (·.entries))) ∧
        reopened.book.keys =
          opened.store.book.keys ++ (OpenFile.saved ⟨opened.store, file⟩ us).map (·.key) := by
  obtain ⟨ps, tail, hbytes, htorn, hrecords, hkeys, rfl⟩ := records_of_openBytes h
  refine ⟨⟨ps, tail, hbytes, htorn, hrecords, hkeys, rfl⟩, openBytes_records hrecords hkeys,
    fun us hus => ?_⟩
  have hopen : OpenFile.Backed ⟨⟨Book.of ps, file.length, file.length, false⟩, file⟩ ps [] :=
    ⟨by simp, by simpa using hrecords, by simpa using hkeys⟩
  have hend := hopen.after us hus
  rw [List.nil_append] at hend
  generalize OpenFile.saved _ us = saved at hend ⊢
  generalize OpenFile.after _ us = o at hend ⊢
  have hplain : ((ps ++ saved.map (·.plain)).map (·.key)).Nodup := by
    simpa [Function.comp_def] using hend.keys
  refine ⟨_, openBytes_records hend.records hplain, ⟨_, ?_, Transaction.forall₂_same_plain _⟩,
    ⟨_, ?_, Entry.forall₂_same_plain _⟩, ?_⟩
  · simp [Book.of]
  · simp [Book.of, List.flatMap_map, List.map_flatMap]
  · simp [Book.of, Function.comp_def]

theorem openBytes_continues_torn :
    let p (key : String) : Posting :=
      Transaction.posting ⟨.ofNat 0, key, "a", "b", .ofWord false 5, .epoch⟩
    let store : Store := Store.grown {} (p "k")
    let us : List Use := [.save .sound (p "k"), .ask .transactions, .save .sound (p "l")]
    openBytes .sound (encodeLine (p "k") ++ [0x61]) = (.ok ⟨store, 1⟩, encodeLine (p "k")) ∧
      (∀ u ∈ us, u.Faultless) ∧
      ∃ reopened : Store,
        openBytes .sound (OpenFile.after ⟨store, encodeLine (p "k")⟩ us).file =
          (.ok ⟨reopened, 0⟩, (OpenFile.after ⟨store, encodeLine (p "k")⟩ us).file) ∧
        reopened.book.keys = ["k", "l"] := by
  intro p store us
  have hwhole : store.Whole ([] ++ encodeLine (p "k")) := whole_empty.grown rfl rfl
  rw [List.nil_append] at hwhole
  have hopen : openBytes .sound (encodeLine (p "k") ++ [0x61]) =
      (.ok ⟨store, 1⟩, encodeLine (p "k")) := hwhole.openBytes (by decide)
  have hus : ∀ u ∈ us, u.Faultless := by simp [us, Use.Faultless]
  obtain ⟨reopened, hagain, -, -, hkeys⟩ := (openBytes_continues hopen).2.2 us hus
  have hsaved : OpenFile.saved ⟨store, encodeLine (p "k")⟩ us = [p "l"] := rfl
  rw [hsaved] at hkeys
  exact ⟨hopen, hus, reopened, hagain .sound, hkeys⟩

end Bookkeeping.Journal
