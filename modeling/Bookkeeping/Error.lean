import Bookkeeping.Decimal.Basic
/-! What can go wrong in keeping the books, and how it is worded. -/
namespace Bookkeeping

inductive Error where
  | nonPositiveAmount (amount : Decimal)
  | missingAccount (side : String)
  | missingKey
  | storage (reason : String)
  | journalCorrupted (line : Nat) (reason : String)
  | overflow (operation : String) (account : Option String)
  | notification (reason : String)
  | fileNotFound (path : String)
  | badRow (line : Option Nat) (reason : String)
  deriving DecidableEq, Repr

namespace Error

def message : Error → String
  | nonPositiveAmount amount => "Amount must be strictly positive, got " ++ amount.text
  | missingAccount side => "Missing " ++ side ++ " account"
  | missingKey => "Missing idempotency key"
  | storage reason => "Storage error: " ++ reason
  | journalCorrupted line reason =>
    "Journal corrupted at line " ++ Text.natText line ++ ": " ++ reason
  | overflow operation account =>
    "Arithmetic overflow in " ++ operation ++ (account.map (" for account " ++ ·)).getD ""
  | notification reason => "Notification error: " ++ reason
  | fileNotFound path => "File not found: " ++ path
  | badRow line reason =>
    "CSV parse error" ++ (line.map (" at line " ++ Text.natText ·)).getD "" ++ ": " ++ reason

/-- The fault lies with the request itself. -/
def isRejection : Error → Bool
  | nonPositiveAmount _ | missingAccount _ | missingKey => true
  | _ => false

def unserialized (reason : String) : Error := storage ("serialization failed: " ++ reason)

end Error

end Bookkeeping
