import Bookkeeping.Main
import Bookkeeping.Session.Basic
import Bookkeeping.Proofs.Book.Balances
import Bookkeeping.Proofs.Book.Sums
import Bookkeeping.Proofs.Command.Directory
import Bookkeeping.Proofs.Command.Replays
import Bookkeeping.Proofs.Command.Runs
import Bookkeeping.Proofs.Decimal.Addition
import Bookkeeping.Proofs.Decimal.Exact
import Bookkeeping.Proofs.Decimal.Exponents
import Bookkeeping.Proofs.Decimal.RoundTrip
import Bookkeeping.Proofs.Decimal.Rounding
import Bookkeeping.Proofs.Decimal.Written
import Bookkeeping.Proofs.Digest.Crc32
import Bookkeeping.Proofs.Engine.Abandoned
import Bookkeeping.Proofs.Engine.Alone
import Bookkeeping.Proofs.Engine.Answers
import Bookkeeping.Proofs.Engine.Balances
import Bookkeeping.Proofs.Engine.CommitOrder
import Bookkeeping.Proofs.Engine.Completion
import Bookkeeping.Proofs.Engine.Deciding
import Bookkeeping.Proofs.Engine.Drivers
import Bookkeeping.Proofs.Engine.Exclusion
import Bookkeeping.Proofs.Engine.Faultless
import Bookkeeping.Proofs.Engine.Hall
import Bookkeeping.Proofs.Engine.Holding
import Bookkeeping.Proofs.Engine.InOrder
import Bookkeeping.Proofs.Engine.Ledger
import Bookkeeping.Proofs.Engine.Limits
import Bookkeeping.Proofs.Engine.Locking
import Bookkeeping.Proofs.Engine.Notices
import Bookkeeping.Proofs.Engine.Office
import Bookkeeping.Proofs.Engine.Once
import Bookkeeping.Proofs.Engine.Permits
import Bookkeeping.Proofs.Engine.Progress
import Bookkeeping.Proofs.Engine.Publishing
import Bookkeeping.Proofs.Engine.Registry
import Bookkeeping.Proofs.Engine.Resume
import Bookkeeping.Proofs.Engine.Run
import Bookkeeping.Proofs.Engine.Step
import Bookkeeping.Proofs.Engine.TrialBalance
import Bookkeeping.Proofs.Engine.Waiting
import Bookkeeping.Proofs.Journal.Contents
import Bookkeeping.Proofs.Journal.Continuation
import Bookkeeping.Proofs.Journal.Corruption
import Bookkeeping.Proofs.Journal.Damage
import Bookkeeping.Proofs.Journal.Discarding
import Bookkeeping.Proofs.Journal.Durability
import Bookkeeping.Proofs.Journal.Grammar
import Bookkeeping.Proofs.Journal.Line
import Bookkeeping.Proofs.Journal.Recovery
import Bookkeeping.Proofs.Journal.Rollback
import Bookkeeping.Proofs.Journal.Whole
import Bookkeeping.Proofs.Json.Origin
import Bookkeeping.Proofs.Json.Pieces
import Bookkeeping.Proofs.Json.Record
import Bookkeeping.Proofs.Json.Text
import Bookkeeping.Proofs.Locks.Line
import Bookkeeping.Proofs.Posting.Pieces
import Bookkeeping.Proofs.Posting.Restated
import Bookkeeping.Proofs.Posting.RoundTrip
import Bookkeeping.Proofs.Text.Digits
import Bookkeeping.Proofs.Text.Utf8
import Bookkeeping.Proofs.Time.RoundTrip
import Bookkeeping.Proofs.Uuid.RoundTrip
import Bookkeeping.Proofs.Csv.Amounts
import Bookkeeping.Proofs.Csv.Batches
import Bookkeeping.Proofs.Csv.Reports
import Bookkeeping.Proofs.Csv.RoundTrip
import Bookkeeping.Proofs.Engine.Counting
