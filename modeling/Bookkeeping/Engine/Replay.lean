import Bookkeeping.Csv.Reader
import Bookkeeping.Engine.Batch
/-!
Replays: every row of a file is posted, one batch after the other, and what became of each is
counted.
-/
namespace Bookkeeping

/-- How many requests make a batch, and how many of them may be posted at one time: as many as
there are processors if no number is given. -/
structure ReplayLimits where
  batchSize : Nat := 1000
  permits : Option Nat := none
  deriving DecidableEq, Repr

namespace ReplayLimits

/-- The limits that are asked for, where a zero stands for the default. -/
def chosen (batchSize permits : Nat) : ReplayLimits where
  batchSize := if batchSize = 0 then 1000 else batchSize
  permits := if permits = 0 then none else some permits

def warnings (batchSize permits : Nat) : List LogEvent :=
  (if batchSize = 0 then [.batchSizeReplaced batchSize] else []) ++
    if permits = 0 then [.concurrencyReplaced permits] else []

end ReplayLimits

structure ReplaySummary where
  posted : Nat := 0
  duplicates : Nat := 0
  rejected : Nat := 0
  failed : Nat := 0
  malformed : Nat := 0
  deriving DecidableEq, Repr

def ReplaySummary.record (s : ReplaySummary) : Outcome → ReplaySummary
  | .posted _ => { s with posted := s.posted + 1 }
  | .duplicate => { s with duplicates := s.duplicates + 1 }
  | .failed e =>
    if e.isRejection then { s with rejected := s.rejected + 1 }
    else { s with failed := s.failed + 1 }
  | .panicked | .cancelled => s

inductive ReplayInput where
  | bytes (bytes : List UInt8)
  | unreadable (reason : String)
  | missing (path : String)
  deriving DecidableEq, Repr

/-- How a replay ends: with its counts, because of an error, or at once because there is no room
for its batches or its permits. -/
inductive ReplayEnd where
  | finished (summary : ReplaySummary)
  | failed (error : Error)
  | noRoom
  deriving DecidableEq, Repr

namespace Csv

theorem length_takeRequests_lt {n : Nat} {rows : List (Except RowFault PostingRequest)}
    (h : (takeRequests n rows).1.requests ≠ []) : (takeRequests n rows).2.length < rows.length := by
  fun_induction takeRequests n rows with
  | case1 => simp at h
  | case2 => simp at h
  | case3 n r rows b rest hb ih =>
    have := takeRequests_length_le n rows
    rw [hb] at this
    simp only [List.length_cons] at *
    omega
  | case4 n e rows b rest hb ih =>
    simp only [hb] at ih
    have := ih h
    simp only [List.length_cons] at *
    omega

/-- A batch that is not empty leaves fewer rows. -/
theorem Reader.length_readBatch_lt {r : Reader} {size : Nat}
    (h : (r.readBatch size).1.requests ≠ []) :
    (r.readBatch size).2.rows.length < r.rows.length := by
  unfold readBatch at h ⊢
  split at h
  · simp at h
  · rename_i hs
    simp only [hs, if_false]
    exact length_takeRequests_lt h

end Csv

namespace Engine

def recordResult (acc : Engine × ReplaySummary) (r : PostingRequest × Outcome) :
    Engine × ReplaySummary :=
  let e := match r.2 with
    | .failed error =>
      if error.isRejection then acc.1.logged (.postingRejected r.1.key error)
      else acc.1.logged (.postingFailed r.1.key error)
    | _ => acc.1
  (e, acc.2.record r.2)

def replayRows (s : Surroundings) (size permits : Nat) (e : Engine) (reader : Csv.Reader)
    (summary : ReplaySummary) : Engine × ReplaySummary :=
  let b := reader.readBatch size
  let e := b.1.faults.foldl (fun e fault => e.logged (.rowSkipped fault)) e
  if _h : b.1.requests = [] then (e, { summary with malformed := b.2.malformed })
  else
    let done := e.process s b.1.requests permits
    let acc := done.2.foldl recordResult (done.1, summary)
    replayRows s size permits acc.1 b.2 acc.2
termination_by reader.rows.length
decreasing_by exact Csv.Reader.length_readBatch_lt _h

def replay (s : Surroundings) (processors : Nat) (limits : ReplayLimits) (e : Engine)
    (input : ReplayInput) : Engine × ReplayEnd :=
  let permits := limits.permits.getD processors
  let run (reader : Csv.Reader) : Engine × ReplayEnd :=
    if Batch.maxPermits < permits || Csv.maxBatchSize < limits.batchSize then
      (e, .noRoom)
    else
      let done := e.replayRows s limits.batchSize permits reader {}
      (done.1, .finished done.2)
  match input with
  | .missing path => (e, .failed (.fileNotFound path))
  | .unreadable reason => run (.failing reason)
  | .bytes bytes => run (.ofBytes bytes)

end Engine

end Bookkeeping
