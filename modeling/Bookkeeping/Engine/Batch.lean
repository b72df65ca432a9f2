import Bookkeeping.Engine.Schedule
import Bookkeeping.Power
/-!
Batches of requests. Each request of a batch is a task of its own, and at most so many of them
hold a permit to post at one time; who finds none free is served in turn.
-/
namespace Bookkeeping

/-- A batch under way: its tasks are numbered on from `first`. -/
structure Batch where
  engine : Engine
  first : Nat
  size : Nat
  /-- How many tasks may hold a permit. -/
  permits : Nat
  admitted : List Nat := []
  queue : List Nat := []

namespace Batch

/-- Starts a task for each request. No permits at all count as one. -/
def start (e : Engine) (requests : List PostingRequest) (permits : Nat) : Batch :=
  { engine := requests.foldl Engine.start e
    first := e.tasks.length
    size := requests.length
    permits := max permits 1 }

/-- The most permits that can be counted. -/
def maxPermits : Nat := twoTo 61 - 1

def members (b : Batch) : List Nat := List.range' b.first b.size

def has (b : Batch) (i : Nat) : Bool := b.first ≤ i && i < b.first + b.size

def release (b : Batch) (i : Nat) : Batch :=
  match b.queue with
  | [] => { b with admitted := b.admitted.erase i }
  | next :: rest => { b with admitted := b.admitted.erase i ++ [next], queue := rest }

/-- The next step of a task, if it has one: first it asks for a permit, and it returns it when it
has finished. -/
def step (s : Surroundings) (b : Batch) (i : Nat) : Option Batch :=
  if i ∈ b.admitted then
    (b.engine.step s i).map fun e =>
      if (e.outcome? i).isSome then { b with engine := e }.release i else { b with engine := e }
  else if !b.has i || i ∈ b.queue || (b.engine.outcome? i).isSome then none
  else if b.admitted.length < b.permits then some { b with admitted := b.admitted ++ [i] }
  else some { b with queue := b.queue ++ [i] }

def runTaskFor (s : Surroundings) : Nat → Batch → Nat → Batch
  | 0, b, _ => b
  | n + 1, b, i =>
    match b.step s i with
    | some b => runTaskFor s n b i
    | none => b

/-- Takes the steps of a task until it has none, and publishes what it queued; nine steps are
enough for any. -/
def runTask (s : Surroundings) (b : Batch) (i : Nat) : Batch :=
  let b := runTaskFor s 9 b i
  { b with engine := b.engine.deliver s }

def run (s : Surroundings) (b : Batch) : Batch :=
  b.members.foldl (runTask s) { b with engine := b.engine.deliver s }

def results (b : Batch) : List (PostingRequest × Outcome) :=
  b.members.filterMap fun i =>
    match b.engine.tasks[i]? with
    | none => none
    | some t =>
      match t.outcome? with
      | none | some .panicked => none
      | some outcome => some (t.request, outcome)

def close (b : Batch) : Engine :=
  b.members.foldl
    (fun e i => if e.outcome? i = some .panicked then e.logged .taskPanicked else e) b.engine

end Batch

def Engine.process (s : Surroundings) (e : Engine) (requests : List PostingRequest)
    (permits : Nat) : Engine × List (PostingRequest × Outcome) :=
  let b := (Batch.start e requests permits).run s
  (b.close, b.results)

end Bookkeeping
