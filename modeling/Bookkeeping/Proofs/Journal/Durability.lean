import Bookkeeping.Proofs.Journal.Contents

/-!
A journal through any run of saves that may fail at any byte, of processes that may be stopped at
any byte, and of openings. Whenever it is opened the book is what was saved, in order: the invariant
is that the file holds whole lines of postings with different keys and a piece of at most one more.
-/
namespace Bookkeeping.Journal

/-- A device that stores so many bytes of a write and is never heard of again. -/
def Device.stopped (stored : Nat) : Device :=
  ⟨fun _ _ _ => .failed stored "", fun _ _ => .failed false ""⟩

inductive Event where
  | save (device : Device) (posting : Posting)
  /-- The process ends, at rest or in a save of which the file has got so many bytes. -/
  | stop (unfinished : Option (Posting × Nat))
  | reopen (device : Device)

/-- A journal's file with the process that has it open, if there is one, and what became of the
postings since it was opened. -/
structure Course where
  file : List UInt8 := []
  store : Option Store := none
  /-- What the last opening recovered. -/
  recovered : Book := {}
  /-- The postings of the saves since then that answered that they were saved, in order. -/
  saved : List Posting := []
  /-- A posting whose append failed and was not undone, or was under way when the process ended,
  and whose line the file got as a whole. -/
  stranded : Option Posting := none

namespace Course

/-- The postings since the last opening that the file holds. -/
def kept (c : Course) : List Posting := c.saved ++ c.stranded.toList

def transactions (c : Course) : List Transaction :=
  c.recovered.transactions ++ c.kept.map (·.transaction)

def entries (c : Course) : List Entry := c.recovered.entries ++ c.kept.flatMap (·.entries)

def save (c : Course) (s : Store) (device : Device) (p : Posting) : Course :=
  let r := s.commit device c.file p
  { c with
    file := r.file
    store := some r.store
    saved := match r.result with
      | .ok .saved => c.saved ++ [p]
      | _ => c.saved
    stranded :=
      if r.appendFailure.isSome ∧ r.store.broken ∧ r.file = c.file ++ encodeLine p then some p
      else c.stranded }

/-- The process ends in a save. -/
def interrupt (c : Course) (s : Store) (p : Posting) (stored : Nat) : Course :=
  let file := (s.commit (.stopped stored) c.file p).file
  { c with
    file
    store := none
    stranded := if file = c.file ++ encodeLine p then some p else c.stranded }

def reopen (c : Course) (device : Device) : Course :=
  match openBytes device c.file with
  | (.ok o, file) => { file, store := some o.store, recovered := o.store.book }
  | (.error _, file) => { c with file, store := none }

/-- What an event makes of a journal. Without a process there is no save to be done. -/
def step (c : Course) : Event → Course
  | .save device p => match c.store with
    | some s => c.save s device p
    | none => c
  | .stop unfinished => match c.store, unfinished with
    | some s, some (p, stored) => c.interrupt s p stored
    | _, _ => { c with store := none }
  | .reopen device => c.reopen device

def after (events : List Event) : Course := events.foldl step {}

variable {c : Course} {s : Store} {p : Posting} {lines : List Posting} {tail : List UInt8}

/-- The postings whose lines the file holds are the rows, and a store that can be written to stands
at the end of the file. -/
structure Intact (c : Course) (lines : List Posting) (tail : List UInt8) : Prop
    extends Holds c.file lines tail where
  transactions : (lines.map (·.transaction)).map (·.plain) = c.transactions.map (·.plain)
  entries : (lines.flatMap (·.entries)).map (·.plain) = c.entries.map (·.plain)
  writable : ∀ s, c.store = some s → s.broken = false →
    tail = [] ∧ c.stranded = none ∧ s.AtEnd c.file ∧ s.book.keys = lines.map (·.key)

theorem intact_start : Intact {} [] [] := ⟨.nil, rfl, rfl, by simp⟩

theorem Intact.grow {c' : Course} {more : List Posting} (h : c.Intact lines [])
    (hholds : Holds c'.file (lines ++ more) tail) (hrecovered : c'.recovered = c.recovered)
    (hkept : c'.kept = c.kept ++ more)
    (hstore : ∀ s, c'.store = some s → s.broken = false → tail = [] ∧ c'.stranded = none ∧
      s.AtEnd c'.file ∧ s.book.keys = (lines ++ more).map (·.key)) :
    c'.Intact (lines ++ more) tail where
  toHolds := hholds
  transactions := by
    have := h.transactions
    simp_all [Course.transactions]
  entries := by
    have := h.entries
    simp_all [Course.entries]
  writable := hstore

/-- What a save leaves that did not finish: a piece of a line at the end of the file, or the whole
line of a stranded posting, and no store that can be written to. -/
theorem Intact.strand (h : c.Intact lines []) (hstranded : c.stranded = none)
    (hkey : p.key ∉ lines.map (·.key)) (n : Nat) (store : Option Store)
    (hstore : ∀ s, store = some s → s.broken = true) :
    ∃ lines tail, Intact { c with
      file := c.file ++ (encodeLine p).take n
      store
      stranded := if c.file ++ (encodeLine p).take n = c.file ++ encodeLine p then some p
        else c.stranded } lines tail := by
  obtain ⟨tail, hholds⟩ := h.toHolds.append_take hkey n
  refine ⟨_, tail, h.grow hholds rfl ?_ ?_⟩
  · simp [kept, hstranded]
  · intro s hs hb
    simp [hstore s hs] at hb

theorem Intact.withStore (h : c.Intact lines tail) {store : Option Store}
    (hstore : ∀ s, store = some s → s.broken = false → c.store = some s) :
    Intact { c with store } lines tail :=
  ⟨h.toHolds, h.transactions, h.entries, fun s hs hb => h.writable s (hstore s hs hb) hb⟩

theorem Intact.save (h : c.Intact lines tail) (hs : c.store = some s) (device : Device)
    (p : Posting) : ∃ lines tail, (c.save s device p).Intact lines tail := by
  by_cases hb : s.broken = true
  · -- a broken store answers without touching the file
    have : c.save s device p = c := by
      simp [Course.save, Store.commit, hb, ← hs]
    exact ⟨lines, tail, by rwa [this]⟩
  · rw [Bool.not_eq_true] at hb
    obtain ⟨rfl, hstranded, hend, hbook⟩ := h.writable s hs hb
    unfold Course.save
    generalize hr : s.commit device c.file p = r
    have hended : Ended s c.file p r := hr ▸ Store.commit_ended device p hb hend
    cases hended with
    | known hk => exact ⟨lines, [], by simpa [← hs] using h⟩
    | undone hk reason => exact ⟨lines, [], by simpa [← hs, hb] using h⟩
    | appended hk =>
      have hholds := h.toHolds.append (Book.notMem_of_hasKey hbook hk)
      refine ⟨lines ++ [p], [], h.grow hholds rfl ?_ ?_⟩
      · simp [kept, hstranded]
      · intro s' hs' _
        cases hs'
        refine ⟨rfl, by simp [hstranded], ⟨?_, ?_⟩, ?_⟩
        · simp [hend.length]
        · simp [hend.cursor]
        · simp [Book.insert_of_not_hasKey hk, hbook]
    | lost hk stored cursor error reason =>
      have hnew := Book.notMem_of_hasKey hbook hk
      simpa using h.strand hstranded hnew stored (some { s with cursor, broken := true }) (by simp)

theorem Intact.interrupt (h : c.Intact lines tail) (hs : c.store = some s) (p : Posting)
    (stored : Nat) : ∃ lines tail, (c.interrupt s p stored).Intact lines tail := by
  have hclosed : Intact { c with store := none } lines tail := h.withStore (by simp)
  by_cases hb : s.broken = true
  · exact ⟨lines, tail, by simpa [Course.interrupt, Store.commit, hb] using hclosed⟩
  · rw [Bool.not_eq_true] at hb
    obtain ⟨rfl, hstranded, hend, hbook⟩ := h.writable s hs hb
    unfold Course.interrupt
    generalize hr : s.commit (.stopped stored) c.file p = r
    have hended : Ended s c.file p r := hr ▸ Store.commit_ended (.stopped stored) p hb hend
    cases hended with
    | known hk => exact ⟨lines, [], by simpa using hclosed⟩
    | undone hk reason => exact ⟨lines, [], by simpa using hclosed⟩
    | appended hk =>
      have hnew := Book.notMem_of_hasKey hbook hk
      simpa using h.strand hstranded hnew (encodeLine p).length none (by simp)
    | lost hk stored' cursor error reason =>
      exact h.strand hstranded (Book.notMem_of_hasKey hbook hk) stored' none (by simp)

theorem Intact.reopen (h : c.Intact lines tail) (device : Device) :
    ∃ lines tail, (c.reopen device).Intact lines tail := by
  unfold Course.reopen
  obtain hok | ⟨changed, reason, -, -, herror⟩ := h.toHolds.openBytes device
  · rw [hok]
    refine ⟨lines, [], h.of_lines, ?_, ?_, ?_⟩
    · simp [Course.transactions, kept, Book.transactions_of_plain]
    · simp [Course.entries, kept, Book.entries_of_plain]
    · intro s hs _
      cases hs
      refine ⟨rfl, rfl, ⟨rfl, rfl⟩, ?_⟩
      simp [Book.of]
  · rw [herror]
    cases changed with
    | true => exact ⟨lines, [], h.of_lines, h.transactions, h.entries, by simp⟩
    | false => exact ⟨lines, tail, h.withStore (by simp)⟩

theorem Intact.step (h : c.Intact lines tail) (e : Event) :
    ∃ lines tail, (c.step e).Intact lines tail := by
  cases e with
  | save device p =>
    cases hs : c.store with
    | none => exact ⟨lines, tail, by simpa [Course.step, hs] using h⟩
    | some s => simpa [Course.step, hs] using h.save hs device p
  | stop unfinished =>
    have hclosed : Intact { c with store := none } lines tail := h.withStore (by simp)
    cases hs : c.store with
    | none => exact ⟨lines, tail, by simpa [Course.step, hs] using hclosed⟩
    | some s =>
      cases unfinished with
      | none => exact ⟨lines, tail, by simpa [Course.step, hs] using hclosed⟩
      | some u => simpa [Course.step, hs] using h.interrupt hs u.1 u.2
  | reopen device => exact h.reopen device

theorem intact_after (events : List Event) :
    ∃ lines tail, (after events).Intact lines tail := by
  -- the induction is on the events, from any course that is intact
  suffices ∀ c : Course, (∃ lines tail, c.Intact lines tail) →
      ∃ lines tail, (events.foldl Course.step c).Intact lines tail from
    this {} ⟨[], [], intact_start⟩
  induction events with
  | nil => exact fun c h => h
  | cons e events ih => exact fun c ⟨_, _, h⟩ => ih (c.step e) (h.step e)

theorem Intact.same_transactions (h : c.Intact lines tail) :
    List.Forall₂ Transaction.Same (Book.of (lines.map (·.plain))).transactions c.transactions := by
  rw [Book.transactions_of_plain, h.transactions]
  exact Transaction.forall₂_same_plain c.transactions

theorem Intact.same_entries (h : c.Intact lines tail) :
    List.Forall₂ Entry.Same (Book.of (lines.map (·.plain))).entries c.entries := by
  rw [Book.entries_of_plain, h.entries]
  exact Entry.forall₂_same_plain c.entries

end Course

/-- After any run an opening recovers the rows of the opening before it, then those of the saves
that answered that they saved, then at most one stranded row; only cutting off the piece of a line
that may follow them can fail. -/
theorem openBytes_after (events : List Event) (device : Device) :
    match (openBytes device (Course.after events).file).1 with
    | .ok opened =>
      List.Forall₂ Transaction.Same opened.store.book.transactions
          (Course.after events).transactions ∧
        List.Forall₂ Entry.Same opened.store.book.entries (Course.after events).entries
    | .error e => ∃ length changed reason, length < (Course.after events).file.length ∧
        device.setLength (Course.after events).file length = .failed changed reason ∧
        e = .storage reason := by
  obtain ⟨lines, tail, h⟩ := Course.intact_after events
  obtain hok | ⟨changed, reason, hlt, hset, herror⟩ := h.toHolds.openBytes device
  · rw [hok]
    exact ⟨h.same_transactions, h.same_entries⟩
  · rw [herror]
    exact ⟨_, changed, reason, hlt, hset, rfl⟩

end Bookkeeping.Journal
