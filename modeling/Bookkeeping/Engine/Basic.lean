import Bookkeeping.Engine.Locks
import Bookkeeping.Engine.Log
import Bookkeeping.Engine.Store
/-!
The posting engine. Every call that posts is a task, and a task goes through its stages one step
at a time: it looks whether its key is known, validates its request, takes the locks of its
accounts in ascending order, and saves its transaction. The steps of different tasks may come in
any order.
-/
namespace Bookkeeping

inductive Outcome where
  | posted (transaction : Transaction)
  | duplicate
  | failed (error : Error)
  | panicked
  | cancelled
  deriving DecidableEq, Repr

inductive Stage where
  | preCheck
  | validation
  | firstLock
  | awaitingFirst
  | secondLock
  | awaitingSecond
  | saving
  | finished (outcome : Outcome)
  deriving DecidableEq, Repr

structure Task where
  request : PostingRequest
  stage : Stage := .preCheck
  deriving DecidableEq, Repr

namespace Task

def isFinished (t : Task) : Bool :=
  match t.stage with
  | .finished _ => true
  | _ => false

def outcome? (t : Task) : Option Outcome :=
  match t.stage with
  | .finished o => some o
  | _ => none

/-- The account whose lock is taken first: the lesser one. -/
def firstAccount (t : Task) : String :=
  if t.request.toAccount < t.request.fromAccount then t.request.toAccount
  else t.request.fromAccount

def secondAccount? (t : Task) : Option String :=
  if t.request.fromAccount = t.request.toAccount then none
  else if t.request.toAccount < t.request.fromAccount then some t.request.fromAccount
  else some t.request.toAccount

end Task

/-- Who may hold a lock: a task, by its number, or a guard taken from outside. -/
inductive Owner where
  | task (index : Nat)
  | guard (serial : Nat)
  deriving DecidableEq, Repr

inductive Publisher where
  | keeping
  | reporting
  deriving DecidableEq, Repr

inductive Notifier where
  | absent
  | running (publisher : Publisher) (waiting : List Completion)
  | stopping
  | stopped
  deriving DecidableEq, Repr

inductive Turn where
  | task (index : Nat)
  | notifier
  deriving DecidableEq, Repr

structure Engine where
  store : Store
  locks : Locks Owner := {}
  tasks : List Task := []
  /-- Who is to go on, the first in front: tasks that were handed a lock they waited for, and the
  notifier if it has something to do. -/
  ready : List Turn := []
  notifier : Notifier := .absent
  /-- How many transactions were made so far. -/
  made : Nat := 0
  /-- The notices that a publisher has kept. -/
  kept : List Completion := []
  log : List LogEvent := []

/-- What stores and publishers may do wrong. -/
structure Faults where
  read : Option String := none
  stale : Bool := false
  save : Option String := none
  panics : Bool := false
  publish : Option String := none
  deriving DecidableEq, Repr

/-- What a step takes from outside: the faults of the store and its device, and the identifier
and the time of each transaction that is made. -/
structure Surroundings where
  faults : Faults := {}
  device : Journal.Device := .sound
  fresh : Nat → Uuid × Moment

namespace Engine

def book (e : Engine) : Book := e.store.book

def logged (e : Engine) (event : LogEvent) : Engine := { e with log := e.log ++ [event] }

def read (e : Engine) (s : Surroundings) : Except Error Book :=
  match s.faults.read with
  | some reason => .error (.storage reason)
  | none => .ok e.book

def hasKey (e : Engine) (s : Surroundings) (key : String) : Except Error Bool :=
  (fun b => !s.faults.stale && b.hasKey key) <$> e.read s

def save (e : Engine) (s : Surroundings) (p : Posting) : Except Error SaveOutcome × Engine :=
  match s.faults.save with
  | some reason => (.error (.storage reason), e)
  | none =>
    let r := e.store.save s.device p
    let e := match r.appendFailure with
      | some reason => e.logged (.appendFailed reason)
      | none => e
    (r.result, { e with store := r.store })

/-- Gives a turn to who has none yet, after all others. -/
def awaken (e : Engine) (t : Turn) : Engine :=
  if t ∈ e.ready then e else { e with ready := e.ready ++ [t] }

def withdraw (e : Engine) (t : Turn) : Engine := { e with ready := e.ready.filter (· != t) }

/-- Hands the lock of an account on, if `w` holds it, and wakes the task that gets it. -/
def leaveLock (e : Engine) (w : Owner) (account : String) : Engine :=
  let next := e.locks.successor? account w
  let e := { e with locks := e.locks.leave account w }
  match next with
  | some (.task i) => e.awaken (.task i)
  | _ => e

def setStage (e : Engine) (i : Nat) (stage : Stage) : Engine :=
  { e with tasks := e.tasks.modify i fun t => { t with stage } }

def finish (e : Engine) (i : Nat) (t : Task) (outcome : Outcome) : Engine :=
  let e := e.leaveLock (.task i) t.firstAccount
  let e := match t.secondAccount? with
    | some account => e.leaveLock (.task i) account
    | none => e
  (e.setStage i (.finished outcome)).withdraw (.task i)

/-- Queues the notice of a transaction. A notifier that is to stop takes it, and it is lost. -/
def notify (e : Engine) (notice : Completion) : Engine :=
  match e.notifier with
  | .absent | .stopping => e
  | .running p waiting =>
    { e with notifier := .running p (waiting ++ [notice]) }.awaken .notifier
  | .stopped => e.logged .noticeDropped

def start (e : Engine) (r : PostingRequest) : Engine :=
  { e with tasks := e.tasks ++ [{ request := r }] }

def stepSave (s : Surroundings) (e : Engine) (i : Nat) (t : Task) : Engine :=
  let (id, now) := s.fresh e.made
  let transaction := t.request.toTransaction id now
  let e := { e with made := e.made + 1 }
  if s.faults.panics then e.finish i t .panicked
  else
    match e.save s transaction.posting with
    | (.ok .saved, e) =>
      (e.notify (transaction.completion now)).finish i t (.posted transaction)
    | (.ok .duplicateKey, e) => e.finish i t .duplicate
    | (.error error, e) => (e.logged (.saveFailed error)).finish i t (.failed error)

/-- The next step of a task, if it has one: a finished task has none, nor one that waits for a
lock. -/
def step (s : Surroundings) (e : Engine) (i : Nat) : Option Engine :=
  match e.tasks[i]? with
  | none => none
  | some t =>
    match t.stage with
    | .finished _ => none
    | .preCheck =>
      if Text.blank t.request.key then some (e.finish i t (.failed .missingKey))
      else
        match e.hasKey s t.request.key with
        | .error error => some (e.finish i t (.failed error))
        | .ok true => some (e.finish i t .duplicate)
        | .ok false => some (e.setStage i .validation)
    | .validation =>
      match t.request.validate with
      | .error error => some (e.finish i t (.failed error))
      | .ok () => some (e.setStage i .firstLock)
    | .firstLock =>
      some ({ e with locks := e.locks.request t.firstAccount (.task i) }.setStage i .awaitingFirst)
    | .awaitingFirst =>
      if e.locks.isHeldBy t.firstAccount (.task i) then
        some (e.setStage i (if t.secondAccount?.isSome then .secondLock else .saving))
      else none
    | .secondLock =>
      match t.secondAccount? with
      | some account =>
        some ({ e with locks := e.locks.request account (.task i) }.setStage i .awaitingSecond)
      | none => some (e.setStage i .saving)
    | .awaitingSecond =>
      match t.secondAccount? with
      | some account =>
        if e.locks.isHeldBy account (.task i) then some (e.setStage i .saving) else none
      | none => some (e.setStage i .saving)
    | .saving => some (stepSave s e i t)

def cancel (e : Engine) (i : Nat) : Engine :=
  match e.tasks[i]? with
  | none => e
  | some t => if t.isFinished then e else e.finish i t .cancelled

def runFor (s : Surroundings) : Nat → Engine → Nat → Engine
  | 0, e, _ => e
  | n + 1, e, i =>
    match e.step s i with
    | some e => runFor s n e i
    | none => e

/-- Takes the steps of a task until it has none; eight are enough for any. -/
def run (s : Surroundings) (e : Engine) (i : Nat) : Engine := runFor s 8 e i

def outcome? (e : Engine) (i : Nat) : Option Outcome := (e.tasks[i]?).bind (·.outcome?)

end Engine

end Bookkeeping
