import Bookkeeping.Engine.Basic
/-!
The order in which things happen in an engine that does one at a time: tasks that were woken, and
the notifier when notices wait for it, go on in the order in which they were given their turns.
-/
namespace Bookkeeping

def completionTopic : String := "transactions.completed"

namespace Engine

/-- Hands a notice to a publisher; a failure is reported and has no further effect. -/
def publish (s : Surroundings) (p : Publisher) (e : Engine) (notice : Completion) : Engine :=
  match p with
  | .reporting => e.logged (.published completionTopic notice)
  | .keeping =>
    match s.faults.publish with
    | some reason => e.logged (.publishFailed (.notification reason))
    | none => { e with kept := e.kept ++ [notice] }

/-- Gives the notifier its turn: it publishes all notices that wait, or stops if it is to. -/
def deliver (s : Surroundings) (e : Engine) : Engine :=
  let e := e.withdraw .notifier
  match e.notifier with
  | .running p waiting => waiting.foldl (publish s p) { e with notifier := .running p [] }
  | .stopping => { e with notifier := .stopped }
  | .absent | .stopped => e

def takeTurn (s : Surroundings) (e : Engine) : Turn → Engine
  | .task i => (e.withdraw (.task i)).run s i
  | .notifier => e.deliver s

def settleFor (s : Surroundings) : Nat → Engine → Engine
  | 0, e => e
  | n + 1, e =>
    match e.ready with
    | [] => e
    | t :: _ => settleFor s n (e.takeTurn s t)

/-- Takes turns until none is left. A task gets one for each of its locks at most, and one for the
notifier when it posts. -/
def settle (s : Surroundings) (e : Engine) : Engine :=
  settleFor s (e.ready.length + 3 * e.tasks.length) e

def stopNotifier (s : Surroundings) (e : Engine) : Engine :=
  match e.notifier with
  | .running _ _ => ({ e with notifier := .stopping }.awaken .notifier).settle s
  | .absent | .stopping | .stopped => e.settle s

/-- Posts at once; a posting that would have to wait for a lock is cancelled. -/
def post (s : Surroundings) (e : Engine) (r : PostingRequest) : Engine × Outcome :=
  let i := e.tasks.length
  let e := ((e.start r).run s i).cancel i
  (e, (e.outcome? i).getD .cancelled)

def reachesDevice (s : Surroundings) (e : Engine) (r : PostingRequest) : Bool :=
  e.store.isJournal && s.faults.save.isNone && !s.faults.panics &&
    ((e.start r).run s e.tasks.length).made != e.made

/-- Posts and waits: for the device of a journal, while notices that were queued before are
published, and for the locks of those who are to go on. -/
def postAndWait (s : Surroundings) (e : Engine) (r : PostingRequest) : Engine × Outcome :=
  let i := e.tasks.length
  let e := ((if e.reachesDevice s r then e.deliver s else e).start r).run s i
  let e := if e.store.isJournal && (e.outcome? i).isNone then e.settle s else e
  let e := e.cancel i
  (e, (e.outcome? i).getD .cancelled)

def takeLocks (w : Owner) (e : Engine) (taken : List String) : List String → Engine × Bool
  | [] => (e, true)
  | account :: rest =>
    let e := { e with locks := e.locks.request account w }
    if e.locks.isHeldBy account w then takeLocks w e (taken ++ [account]) rest
    else ((account :: taken).foldl (leaveLock · w) e, false)

end Engine

end Bookkeeping
