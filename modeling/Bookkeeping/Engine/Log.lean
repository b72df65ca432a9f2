import Bookkeeping.Csv.Row
/-! What the program reports while it runs. -/
namespace Bookkeeping

inductive Severity where
  | info
  | warn
  | error
  deriving DecidableEq, Repr

inductive LogEvent where
  | rowSkipped (fault : Csv.RowFault)
  | postingRejected (key : String) (error : Error)
  | postingFailed (key : String) (error : Error)
  | taskPanicked
  | saveFailed (error : Error)
  | appendFailed (reason : String)
  | tailDiscarded (bytes : Nat)
  | batchSizeReplaced (size : Nat)
  | concurrencyReplaced (permits : Nat)
  | publishFailed (error : Error)
  | noticeDropped
  | published (topic : String) (notice : Completion)
  deriving DecidableEq, Repr

namespace LogEvent

def severity : LogEvent → Severity
  | taskPanicked | saveFailed _ | appendFailed _ => .error
  | published _ _ => .info
  | _ => .warn

def message : LogEvent → String
  | rowSkipped _ => "skipping malformed posting row"
  | postingRejected _ _ => "posting rejected"
  | postingFailed _ _ => "posting failed"
  | taskPanicked => "posting task panicked"
  | saveFailed _ => "failed to persist transaction"
  | appendFailed _ => "journal append failed"
  | tailDiscarded _ => "discarding uncommitted journal tail"
  | batchSizeReplaced _ => "invalid batch size, using default"
  | concurrencyReplaced _ => "invalid max concurrency, using default"
  | publishFailed _ => "failed to publish transaction completed event"
  | noticeDropped => "notifier stopped; dropping transaction completed event"
  | published _ _ => "transaction completed"

def errorText : LogEvent → Option String
  | rowSkipped fault => some fault.toError.message
  | postingRejected _ e | postingFailed _ e | saveFailed e | publishFailed e => some e.message
  | appendFailed reason => some reason
  | _ => none

def key : LogEvent → Option String
  | postingRejected key _ | postingFailed key _ => some key
  | _ => none

def count : LogEvent → Option (String × Nat)
  | tailDiscarded n => some ("discarded_bytes", n)
  | batchSizeReplaced n => some ("batch_size", n)
  | concurrencyReplaced n => some ("max_concurrency", n)
  | _ => none

end LogEvent

end Bookkeeping
