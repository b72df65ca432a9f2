import Bookkeeping.Csv.Row
import Bookkeeping.Power
/-!
Requests read from a file in batches. Rows that cannot be read are passed over and counted. A
header that is no text is reported by every batch, and the rows are then taken in column order.
-/
namespace Bookkeeping.Csv

structure Reader where
  headerFault : Option RowFault := none
  rows : List (Except RowFault PostingRequest) := []
  malformed : Nat := 0

/-- What a batch yields: its requests, and why rows among them were passed over. -/
structure Batch where
  requests : List PostingRequest
  faults : List RowFault

/-- The largest batch there is room for, in an address space of 2 ^ 63 bytes and with 88 bytes for
a request. -/
def maxBatchSize : Nat := (twoTo 63 - 1) / 88

def takeRequests : Nat → List (Except RowFault PostingRequest) →
    Batch × List (Except RowFault PostingRequest)
  | 0, rows => (⟨[], []⟩, rows)
  | _, [] => (⟨[], []⟩, [])
  | n + 1, .ok r :: rows =>
    let (b, rest) := takeRequests n rows
    (⟨r :: b.requests, b.faults⟩, rest)
  | n + 1, .error e :: rows =>
    let (b, rest) := takeRequests (n + 1) rows
    (⟨b.requests, e :: b.faults⟩, rest)

namespace Reader

def ofBytes (bytes : List UInt8) : Reader :=
  match records bytes with
  | [] => {}
  | header :: rows =>
    match header.names with
    | .ok names => { rows := rows.map (·.toRequest (some names)) }
    | .error e => { headerFault := some e, rows := rows.map (·.toRequest none) }

def failing (reason : String) : Reader := { rows := [.error (.unreadable reason)] }

/-- The next requests, at most `size` of them; fewer mean that the rows are used up. -/
def readBatch (r : Reader) (size : Nat) : Batch × Reader :=
  if size = 0 then (⟨[], []⟩, r)
  else
    let (b, rows) := takeRequests size r.rows
    let faults := r.headerFault.toList ++ b.faults
    (⟨b.requests, faults⟩, { r with rows, malformed := r.malformed + faults.length })

end Reader

theorem takeRequests_length_le (n : Nat) (rows : List (Except RowFault PostingRequest)) :
    (takeRequests n rows).2.length ≤ rows.length := by
  fun_induction takeRequests n rows <;> simp_all <;> omega

end Bookkeeping.Csv
