import Bookkeeping.Engine.Replay
/-! What may be done in a session, and what is answered. -/
namespace Bookkeeping.Session

/-- A request whose amount is still text. -/
structure RequestText where
  fromAccount : String
  toAccount : String
  amount : String
  key : String
  deriving DecidableEq, Repr

def RequestText.read (r : RequestText) : Except Decimal.ReadError PostingRequest := do
  return ⟨r.fromAccount, r.toAccount, ← Decimal.ofText r.amount, r.key⟩

inductive Step where
  | post (request : RequestText)
  /-- Starts a posting in the background, under a name. -/
  | postStart (name : String) (request : RequestText)
  /-- Takes the outcome of a posting in the background; one that waits is cancelled. -/
  | postEnd (name : String)
  /-- Takes the locks of accounts under a name, unless one of them is not free. -/
  | lock (name : String) (accounts : List String)
  | release (name : String)
  | locksEmpty
  | save (posting : Posting)
  | hasKey (key : String)
  | balance (account : String)
  | balances
  | trialBalance
  | entries
  | entriesOf (account : String)
  | transactions
  | balancesReport
  | entriesReport
  | batch (requests : List RequestText) (permits : Nat)
  | replay (input : ReplayInput) (batchSize permits : Nat)
  | inject (faults : Faults)
  | notices
  | stopNotifier
  | log
  | journal
  | appendToJournal (bytes : List UInt8)
  | chopJournal (count : Nat)
  | close
  | reopen
  deriving DecidableEq, Repr

inductive Answer where
  | opened
  | closed
  | done
  | badAmount (error : Decimal.ReadError)
  | failed (error : Error)
  | panicked
  /-- A step that was not in the background panicked, and with it the session ends. -/
  | aborted
  | noSuchName
  | blocked
  | finished
  | waiting
  | cancelled
  | held
  | released
  | notHeld
  | outcome (outcome : Outcome)
  | saved (outcome : SaveOutcome)
  | truth (value : Bool)
  | amount (value : Decimal)
  | balances (balances : List (String × Decimal))
  | entries (entries : List Entry)
  | transactions (transactions : List Transaction)
  | report (text : String)
  | results (results : List (PostingRequest × Outcome))
  | summary (summary : ReplaySummary)
  | notices (notices : List Completion)
  | log (events : List LogEvent)
  | file (bytes : List UInt8)
  | lineCount (count : Nat)
  deriving DecidableEq, Repr

end Bookkeeping.Session
