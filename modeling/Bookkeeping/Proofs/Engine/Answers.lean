import Bookkeeping.Proofs.Engine.Alone
import Bookkeeping.Proofs.Engine.Ledger
import Bookkeeping.Proofs.Journal.Whole
import Bookkeeping.Session.Step

/-! Postings and queries that come one after the other are answered from the book alone, by one set
of rules: where the book is kept makes no difference, nor does opening its journal again. -/
namespace Bookkeeping

/-- The outcome of a posting by itself and the book after it. -/
def Book.post (b : Book) (r : PostingRequest) (id : Uuid) (now : Moment) : Outcome × Book :=
  if Text.blank r.key then (.failed .missingKey, b)
  else if b.hasKey r.key then (.duplicate, b)
  else
    match r.validate with
    | .error error => (.failed error, b)
    | .ok () =>
      (.posted (r.toTransaction id now), (b.insert (r.toTransaction id now).posting).2)

namespace Engine

open Session (Answer)

inductive Query where
  | hasKey (key : String)
  | balance (account : String)
  | balances
  | trialBalance
  | entries
  | entriesOf (account : String)
  | transactions

/-- One call after another. A transaction that is made gets the identifier and the time that come
with its request. -/
inductive Call where
  | post (request : PostingRequest) (id : Uuid) (now : Moment)
  | ask (query : Query)
  /-- The engine is closed, and another is opened on its journal. -/
  | reopen (notifier : Notifier)

def Query.ofBook (b : Book) : Query → Except Error Answer
  | hasKey key => .ok (.truth (b.hasKey key))
  | balance account => .amount <$> b.balance account
  | balances => .balances <$> b.balances
  | trialBalance => .amount <$> b.trialBalance
  | entries => .ok (.entries b.entries)
  | entriesOf account => .ok (.entries (b.entriesOf account))
  | transactions => .ok (.transactions b.transactions)

/-- An answer, or the error that stands in its place. -/
def given : Except Error Answer → Answer
  | .ok answer => answer
  | .error error => .failed error

/-- What an engine says to a query. -/
def ask (e : Engine) : Query → Except Error Answer
  | .hasKey key => .truth <$> e.hasKey calm key
  | query => e.read calm >>= query.ofBook

/-- What a call makes of an engine, and the answer. What is only in memory stays when an engine on a
journal would be opened again. -/
def call (e : Engine) : Call → Engine × Answer
  | .post r id now =>
    let (e, outcome) := e.postAndWait { fresh := fun _ => (id, now) } r
    (e, .outcome outcome)
  | .ask query => (e, given (e.ask query))
  | .reopen notifier =>
    match e.store with
    | .memory _ => (e, .opened)
    | .journal _ file =>
      match onJournal notifier .regularFile file with
      | .ok e => (e, .opened)
      | .error error => (e, .failed error)

def answers (e : Engine) : List Call → List Answer
  | [] => []
  | c :: calls => (e.call c).2 :: (e.call c).1.answers calls

end Engine

namespace Book

open Session (Answer)

/-- What a call makes of a book that is kept nowhere, and the answer. -/
def call (b : Book) : Engine.Call → Book × Answer
  | .post r id now => ((b.post r id now).2, .outcome (b.post r id now).1)
  | .ask query => (b, Engine.given (query.ofBook b))
  | .reopen _ => (b, .opened)

def answers (b : Book) : List Engine.Call → List Answer
  | [] => []
  | c :: calls => (b.call c).2 :: (b.call c).1.answers calls

end Book

namespace Store

/-- Nothing that the store has would be lost if its journal were opened again. -/
def Whole : Store → Prop
  | .memory _ => True
  | .journal s file => s.Whole file

variable {store : Store} {p : Posting}

theorem Whole.save_new (h : store.Whole) (hplain : p.plain = p)
    (hkey : store.book.hasKey p.key = false) :
    (store.save .sound p).result = .ok .saved ∧
      (store.save .sound p).store.book = (store.book.insert p).2 ∧
      (store.save .sound p).store.Whole := by
  cases store with
  | memory book =>
    have hinsert : book.insert p = (.saved, (book.insert p).2) := Book.insert_eq_saved hkey
    rw [Store.save, hinsert]
    exact ⟨rfl, rfl, trivial⟩
  | journal s file =>
    have hdone : s.commit .sound file p =
        ⟨.ok .saved, s.grown p, file ++ Journal.encodeLine p, none⟩ :=
      Journal.Store.Whole.commit_done h hkey rfl
    simp only [Store.save, hdone]
    exact ⟨trivial, rfl, Journal.Store.Whole.grown h hplain hkey⟩

theorem Whole.post (h : store.Whole) (r : PostingRequest) (id : Uuid) (now : Moment) :
    (store.post .sound r id now).1 = (store.book.post r id now).1 ∧
      (store.post .sound r id now).2.book = (store.book.post r id now).2 ∧
      (store.post .sound r id now).2.Whole := by
  unfold Store.post Book.post
  split
  · exact ⟨rfl, rfl, h⟩
  · next hblank =>
    split
    · exact ⟨rfl, rfl, h⟩
    · next hkey =>
      rw [Bool.not_eq_true] at hblank hkey
      cases hvalid : r.validate with
      | error error => exact ⟨rfl, rfl, h⟩
      | ok _ =>
        have hproper := PostingRequest.proper_posting hblank hvalid id now
        obtain ⟨hresult, hbook, hwhole⟩ := h.save_new hproper.plain_eq hkey
        simp only [hresult]
        exact ⟨rfl, hbook, hwhole⟩

end Store

namespace Engine

variable {s : Surroundings} {e : Engine}

theorem Quiet.postAndWait_posts (h : e.Quiet) (hmild : s.faults.Mild) (r : PostingRequest) :
    ∃ n, (e.postAndWait s r).2 = (e.store.post s.device r (s.fresh n).1 (s.fresh n).2).1 ∧
      (e.postAndWait s r).1.store = (e.store.post s.device r (s.fresh n).1 (s.fresh n).2).2 ∧
      (e.postAndWait s r).1.Quiet := by
  obtain ⟨e₀, he₀, hstore, htasks, hquiet⟩ :
      ∃ e₀, (if e.reachesDevice s r then e.deliver s else e) = e₀ ∧ e₀.store = e.store ∧
        e₀.tasks = e.tasks ∧ e₀.Quiet := by
    split
    · exact ⟨_, rfl, (e.deliver_frame s).1, (e.deliver_frame s).2, h.deliver s⟩
    · exact ⟨e, rfl, rfl, rfl, h⟩
  have hended := hquiet.run_start hmild r (Prod.mk.eta (p := s.fresh e₀.made)).symm
  rw [hstore, htasks] at hended
  have htask : (e₀.start r).tasks[e.tasks.length]? = some { request := r } := by
    simp [start, htasks]
  have hout := hended.outcome? htask
  unfold Engine.postAndWait
  simp only [he₀, hout, Option.isNone_some, Bool.and_false, Bool.false_eq_true, if_false,
    cancel_of_outcome hout, Option.getD_some]
  exact ⟨_, rfl, hended.store, hended.quiet⟩

theorem Quiet.postAndWait (h : e.Quiet) (hmild : s.faults.Mild) (r : PostingRequest) {id : Uuid}
    {now : Moment} (hfresh : ∀ n, s.fresh n = (id, now)) :
    (e.postAndWait s r).2 = (e.store.post s.device r id now).1 ∧
      (e.postAndWait s r).1.store = (e.store.post s.device r id now).2 ∧
      (e.postAndWait s r).1.Quiet := by
  obtain ⟨n, hposts⟩ := h.postAndWait_posts hmild r
  rwa [hfresh n] at hposts

theorem Quiet.post (h : e.Quiet) (hmild : s.faults.Mild) (r : PostingRequest) :
    ∃ id now, (e.post s r).2 = (e.store.post s.device r id now).1 ∧
      (e.post s r).1.store = (e.store.post s.device r id now).2 ∧ (e.post s r).1.Quiet := by
  have hended := h.run_start hmild r (Prod.mk.eta (p := s.fresh e.made)).symm
  have htask : (e.start r).tasks[e.tasks.length]? = some { request := r } := by simp [start]
  have hout := hended.outcome? htask
  unfold Engine.post
  simp only [cancel_of_outcome hout, hout, Option.getD_some]
  exact ⟨_, _, rfl, hended.store, hended.quiet⟩

/-- Nobody is at work in the engine, and its store would lose nothing. -/
structure Rests (e : Engine) : Prop where
  quiet : e.Quiet
  whole : e.store.Whole

theorem rests_inMemory (notifier : Notifier) : (inMemory notifier).Rests :=
  ⟨Locks.kept_empty, trivial⟩

theorem journal_of_onJournal {notifier : Notifier} {bytes : List UInt8}
    (h : onJournal notifier .regularFile bytes = .ok e) :
    e.Quiet ∧ ∃ store file, e.store = .journal store file ∧ store.Whole file := by
  unfold onJournal Journal.Target.openJournal at h
  cases hopen : Journal.openBytes .sound bytes with
  | mk opened file =>
    cases opened with
    | error error => simp [hopen, Except.map] at h
    | ok o =>
      simp only [hopen, Except.map] at h
      cases h
      exact ⟨Locks.kept_empty, o.store, file, rfl, Journal.whole_of_openBytes hopen⟩

theorem rests_of_onJournal {notifier : Notifier} {bytes : List UInt8}
    (h : onJournal notifier .regularFile bytes = .ok e) : e.Rests := by
  obtain ⟨hquiet, store, file, hstore, hwhole⟩ := journal_of_onJournal h
  refine ⟨hquiet, ?_⟩
  rw [hstore]
  exact hwhole

theorem onJournal_of_whole {store : Journal.Store} {file tail : List UInt8}
    (h : store.Whole file) (htail : Journal.newline ∉ tail) (notifier : Notifier) :
    ∃ e, onJournal notifier .regularFile (file ++ tail) = .ok e ∧
      e.store = .journal store file := by
  unfold onJournal Journal.Target.openJournal
  simp only [h.openBytes htail, Except.map]
  exact ⟨_, rfl, rfl⟩

theorem ask_eq (e : Engine) (query : Query) : e.ask query = query.ofBook e.book := by
  cases query <;> rfl

theorem Rests.call (h : e.Rests) (c : Call) :
    (e.call c).2 = (e.book.call c).2 ∧ (e.call c).1.book = (e.book.call c).1 ∧
      (e.call c).1.Rests := by
  cases c with
  | post r id now =>
    obtain ⟨houtcome, hstore, hquiet⟩ := h.quiet.postAndWait
      (s := { fresh := fun _ => (id, now) }) Faults.mild_none r (fun _ => rfl)
    obtain ⟨hpost, hbook, hwhole⟩ := h.whole.post r id now
    refine ⟨congrArg Session.Answer.outcome (houtcome.trans hpost), ?_, hquiet, ?_⟩
    · exact (congrArg Store.book hstore).trans hbook
    · exact hstore ▸ hwhole
  | ask query => exact ⟨congrArg given (e.ask_eq query), rfl, h⟩
  | reopen notifier =>
    cases hstore : e.store with
    | memory book =>
      simp only [Engine.call, hstore]
      exact ⟨rfl, rfl, h⟩
    | journal store file =>
      have hwhole : store.Whole file := by simpa [Store.Whole, hstore] using h.whole
      obtain ⟨e', hopen, hstore'⟩ := onJournal_of_whole hwhole List.not_mem_nil notifier
      rw [List.append_nil] at hopen
      simp only [Engine.call, hstore, hopen]
      refine ⟨rfl, ?_, rests_of_onJournal hopen⟩
      rw [book, hstore', Engine.book, hstore]
      rfl

theorem Rests.answers (h : e.Rests) (calls : List Call) :
    e.answers calls = e.book.answers calls := by
  induction calls generalizing e with
  | nil => rfl
  | cons c calls ih =>
    obtain ⟨hanswer, hbook, hrests⟩ := h.call c
    rw [Engine.answers, Book.answers, hanswer, ih hrests, hbook]

/-- An engine on a journal that starts on an empty file, and that is opened again wherever a run of
calls says so, answers as an engine does that keeps its book in memory: as the book alone says. -/
theorem journal_answers_as_memory (notifier notifier' : Notifier) :
    ∃ e, onJournal notifier .regularFile [] = .ok e ∧
      ∀ calls, e.answers calls = (inMemory notifier').answers calls ∧
        e.answers calls = Book.answers {} calls := by
  obtain ⟨e, hopen, hstore⟩ :=
    onJournal_of_whole Journal.whole_empty List.not_mem_nil notifier
  refine ⟨e, hopen, fun calls => ?_⟩
  have hjournal : e.answers calls = Book.answers {} calls := by
    rw [(rests_of_onJournal hopen).answers, book, hstore]
    rfl
  exact ⟨hjournal.trans ((rests_inMemory notifier').answers calls).symm, hjournal⟩

end Engine

end Bookkeeping
