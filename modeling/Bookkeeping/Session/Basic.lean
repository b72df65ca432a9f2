import Bookkeeping.Csv.Writing
import Bookkeeping.Engine.Opening
import Bookkeeping.Session.Step
/-!
Sessions: one engine driven step by step, with postings in the background, locks held from
outside, faults, and a journal that may be closed, edited and opened again. A posting in the
background whose name is given to another stays behind and can no more be asked for. Transactions
that the engine makes are called T1, T2 and so on, in the order in which they are stored.
-/
namespace Bookkeeping

namespace Session

/-- Where a session keeps its book. -/
inductive Medium where
  | memory
  | journal (target : Journal.Target)
  deriving DecidableEq, Repr

/-- Locks held from outside. -/
structure Guard where
  serial : Nat
  accounts : List String
  deriving DecidableEq, Repr

def serialSpace : Nat := 0x5E55104A_0000_4000_8000_000000000000

def sessionTime : Moment :=
  { Moment.epoch with nano := 123456789, nano_lt := by decide }

def fresh (n : Nat) : Uuid × Moment := (.ofNat (serialSpace + n), sessionTime)

end Session

open Session (Medium Guard Answer Step)

structure Session where
  medium : Medium
  publisher : Option Publisher
  faults : Faults := {}
  engine : Option Engine := none
  /-- The bytes of the journal while no engine has it open. -/
  file : List UInt8 := []
  guards : List (String × Guard) := []
  serials : Nat := 0
  background : List (String × Nat) := []
  /-- How many transactions were made by engines that are closed. -/
  made : Nat := 0
  /-- What the rows of transactions that were made are called. -/
  labels : List (Uuid × String) := []
  named : Nat := 0
  kept : List Completion := []
  log : List LogEvent := []

namespace Session

def surroundings (s : Session) (limit : Option Nat) : Surroundings where
  faults := s.faults
  device := match s.medium with
    | .memory => .sound
    | .journal target => target.device limit
  fresh := fresh

def notifier (s : Session) : Notifier :=
  match s.publisher with
  | none => .absent
  | some p => .running p []

def counts (s : Session) : Option (Nat × Nat × Nat) :=
  s.engine.bind fun e =>
    match e.read (s.surroundings none) with
    | .error _ => none
    | .ok book => some (book.transactions.length, book.entries.length, e.locks.count)

def label? (s : Session) (id : Uuid) : Option String := s.labels.lookup id

def labelPosting (made : Nat) (s : Session) (p : Posting) : Session :=
  let id := p.transaction.id
  if (s.label? id).isNone && (List.range made).any fun n => (fresh n).1 = id then
    let name := "T" ++ Text.natText (s.named + 1)
    { s with
      named := s.named + 1
      labels := s.labels ++
        [(id, name), (p.debit.id, name ++ ".debit"), (p.credit.id, name ++ ".credit")] }
  else s

def relabel (s : Session) : Session :=
  match s.engine with
  | none => s
  | some e => e.book.postings.foldl (labelPosting e.made) s

def journalBytes (s : Session) : List UInt8 :=
  match s.engine with
  | some e =>
    match e.store with
    | .journal _ file => file
    | .memory _ => s.file
  | none => s.file

/-- Edits the journal behind the engine's back; only a regular file can be. -/
def editJournal (s : Session) (f : List UInt8 → List UInt8) : Session :=
  if s.medium ≠ .journal .regularFile then s
  else
    match s.engine with
    | some e =>
      match e.store with
      | .journal store file => { s with engine := some { e with store := .journal store (f file) } }
      | .memory _ => s
    | none => { s with file := f s.file }

def dropGuard (e : Engine) (g : Guard) : Engine :=
  g.accounts.foldl (Engine.leaveLock · (.guard g.serial)) e

def insertNamed {α : Type} (a : String × α) : List (String × α) → List (String × α)
  | [] => [a]
  | b :: rest => if a.1 < b.1 then a :: b :: rest else b :: insertNamed a rest

/-- What the engine comes to when it is given up: guards are dropped in the order of their names,
postings that have a name are cancelled, and others go on as far as they can. -/
def lastEngine (s : Session) (w : Surroundings) (e : Engine) : Engine :=
  let e := (s.guards.foldr insertNamed []).foldl (fun e g => dropGuard e g.2) e
  (s.background.foldl (fun e b => e.cancel b.2) e).settle w

def close (s : Session) (limit : Option Nat) : Session :=
  match s.engine with
  | none => s
  | some e =>
    let e := s.lastEngine (s.surroundings limit) e
    let s := { s with engine := some e }.relabel
    { s with
      engine := none, file := s.journalBytes, guards := [], background := [], made := e.made
      kept := s.kept ++ e.kept, log := s.log ++ e.log }

def openEngine (s : Session) : Session × Answer :=
  match s.medium with
  | .memory =>
    ({ s with engine := some { Engine.inMemory s.notifier with made := s.made } }, .opened)
  | .journal target =>
    match Engine.onJournal s.notifier target s.file with
    | .error e => (s, .failed e)
    | .ok e => ({ s with engine := some { e with made := s.made } }, .opened)

def start (medium : Medium) (publisher : Option Publisher) (content : List UInt8) :
    Session × Answer :=
  openEngine { medium, publisher, file := if medium = .journal .regularFile then content else [] }

def read (s : Session) (e : Engine) (answer : Book → Except Error Answer) : Session × Answer :=
  match e.read (s.surroundings none) >>= answer with
  | .ok a => (s, a)
  | .error error => (s, .failed error)

def ofOutcome : Outcome → Answer
  | .panicked => .panicked
  | .cancelled => .cancelled
  | o => .outcome o

def ofAwaited : Outcome → Answer
  | .panicked => .aborted
  | .cancelled => .blocked
  | o => .outcome o

def stepOpen (s : Session) (limit : Option Nat) (e : Engine) : Step → Session × Answer
  | .post r =>
    match r.read with
    | .error error => (s, .badAmount error)
    | .ok r =>
      let (e, outcome) := e.postAndWait (s.surroundings limit) r
      ({ s with engine := some e }, ofAwaited outcome)
  | .postStart name r =>
    match r.read with
    | .error error => (s, .badAmount error)
    | .ok r =>
      let w := s.surroundings limit
      let i := e.tasks.length
      let e := (((e.settle w).start r).run w i).settle w
      ({ s with
          engine := some e
          background := (name, i) :: s.background.filter (·.1 != name) },
        if (e.outcome? i).isSome then .finished else .waiting)
  | .lock name accounts =>
    let (e, taken) := e.takeLocks (.guard s.serials) [] accounts
    if taken then
      let e := match s.guards.lookup name with
        | some old => dropGuard e old
        | none => e
      ({ s with
          engine := some e, serials := s.serials + 1
          guards := (name, ⟨s.serials, accounts⟩) :: s.guards.filter (·.1 != name) }, .held)
    else ({ s with engine := some e, serials := s.serials + 1 }, .blocked)
  | .locksEmpty => (s, .truth (e.locks.count == 0))
  | .save p =>
    if s.faults.panics then (s, .aborted)
    else
      let w := s.surroundings limit
      let e := if e.store.isJournal && s.faults.save.isNone then e.deliver w else e
      match e.save w p with
      | (.ok outcome, e) => ({ s with engine := some e }, .saved outcome)
      | (.error error, e) => ({ s with engine := some e }, .failed error)
  | .hasKey key =>
    match e.hasKey (s.surroundings limit) key with
    | .ok b => (s, .truth b)
    | .error error => (s, .failed error)
  | .balance account => s.read e fun b => .amount <$> b.balance account
  | .balances => s.read e fun b => .balances <$> b.balances
  | .trialBalance => s.read e fun b => .amount <$> b.trialBalance
  | .entries => s.read e fun b => .ok (.entries b.entries)
  | .entriesOf account => s.read e fun b => .ok (.entries (b.entriesOf account))
  | .transactions => s.read e fun b => .ok (.transactions b.transactions)
  | .balancesReport => s.read e fun b => (.report <| Csv.balancesReport ·) <$> b.balances
  | .entriesReport =>
    s.read e fun b => .ok (.report (Csv.entriesReportWith
      (fun x => (s.label? x.id).getD x.id.text)
      (fun x => if (s.label? x.id).isSome then "<now>" else x.createdAt.offsetText) b.entries))
  | .batch requests permits =>
    match requests.mapM (·.read) with
    | .error error => (s, .badAmount error)
    | .ok requests =>
      if Batch.maxPermits < permits then (s, .aborted)
      else if requests.isEmpty then (s, .results [])
      else
        let w := s.surroundings limit
        let (e, results) := (e.settle w).process w requests permits
        ({ s with engine := some (e.settle w) }, .results results)
  | .replay input batchSize permits =>
    let w := s.surroundings limit
    let e := { e.settle w with log := (e.settle w).log ++ ReplayLimits.warnings batchSize permits }
    let (e, done) := e.replay w 1 (.chosen batchSize permits) input
    ({ s with engine := some (e.settle w) },
      match done with
      | .finished summary => .summary summary
      | .failed error => .failed error
      | .noRoom => .aborted)
  | .stopNotifier => ({ s with engine := some (e.stopNotifier (s.surroundings limit)) }, .done)
  | _ => (s, .closed)

/-- What a step that needs no engine answers when there is none; others find the book closed. -/
def stepClosed (s : Session) : Step → Session × Answer
  | .hasKey _ => (s, .truth false)
  | _ => (s, .closed)

def onEngine (s : Session) (f : Engine → Engine) : Session := { s with engine := s.engine.map f }

/-- Takes the outcome of a posting in the background; one that waits is cancelled. -/
def endPosting (s : Session) (w : Surroundings) (name : String) : Session × Answer :=
  match s.background.lookup name, s.engine.map (·.settle w) with
  | some i, some e =>
    let s := { s with background := s.background.filter (·.1 != name) }
    match e.outcome? i with
    | some outcome => ({ s with engine := some e }, ofOutcome outcome)
    | none => ({ s with engine := some ((e.cancel i).settle w) }, .cancelled)
  | _, e => ({ s with engine := e }, .noSuchName)

def releaseGuard (s : Session) (w : Surroundings) (name : String) : Session × Answer :=
  match s.guards.lookup name with
  | some g =>
    ({ s with guards := s.guards.filter (·.1 != name) }.onEngine fun e => (dropGuard e g).settle w,
      .released)
  | none => (s.onEngine (·.settle w), .notHeld)

/-- Does a step, during which files cannot grow beyond the limit, if there is one. -/
def act (s : Session) (limit : Option Nat) : Step → Session × Answer
  | .postEnd name => s.endPosting (s.surroundings limit) name
  | .release name => s.releaseGuard (s.surroundings limit) name
  | .inject faults => ({ s with faults }, .done)
  | .notices =>
    let s := s.onEngine (·.settle (s.surroundings limit))
    ({ s.onEngine ({ · with kept := [] }) with kept := [] },
      .notices (s.kept ++ (s.engine.map (·.kept)).getD []))
  | .log =>
    let s := s.onEngine (·.settle (s.surroundings limit))
    ({ s.onEngine ({ · with log := [] }) with log := [] },
      .log (s.log ++ (s.engine.map (·.log)).getD []))
  | .journal =>
    (s, if s.named = 0 then .file s.journalBytes
      else .lineCount (s.journalBytes.count Journal.newline))
  | .appendToJournal bytes => (s.editJournal (· ++ bytes), .done)
  | .chopJournal count => (s.editJournal fun file => file.take (file.length - count), .done)
  | .close => (s.close limit, .done)
  | .reopen => (s.close limit).openEngine
  | step =>
    match s.engine with
    | some e => s.stepOpen limit e step
    | none => s.stepClosed step

def step (s : Session) (limit : Option Nat) (step : Step) : Session × Answer :=
  let (s, answer) := s.act limit step
  (s.relabel, answer)

end Session

end Bookkeeping
