import Bookkeeping.Decimal.Addition
import Bookkeeping.Posting.Basic
/-!
The book: the transactions and the entries in the order in which they were stored, the keys that
are taken, and the balances that follow from the entries.
-/
namespace Bookkeeping

/-- A transaction with its two sides as they are stored. -/
structure Posting where
  transaction : Transaction
  debit : Entry
  credit : Entry
  deriving DecidableEq, Repr

namespace Posting

def key (p : Posting) : String := p.transaction.key

def entries (p : Posting) : List Entry := [p.debit, p.credit]

end Posting

def Transaction.posting (t : Transaction) : Posting := ⟨t, t.debit, t.credit⟩

structure Book where
  transactions : List Transaction := []
  entries : List Entry := []
  /-- The keys that are taken. -/
  keys : List String := []
  deriving DecidableEq, Repr

inductive SaveOutcome where
  | saved
  | duplicateKey
  deriving DecidableEq, Repr

namespace Book

def entriesOf (b : Book) (account : String) : List Entry :=
  b.entries.filter (·.account == account)

def hasKey (b : Book) (key : String) : Bool := b.keys.contains key

/-- Stores a posting after all others, unless its key is taken. -/
def insert (b : Book) (p : Posting) : SaveOutcome × Book :=
  if b.hasKey p.key then (.duplicateKey, b)
  else
    (.saved,
      ⟨b.transactions ++ [p.transaction], b.entries ++ p.entries, b.keys ++ [p.key]⟩)

def paired : List Transaction → List Entry → List Posting
  | t :: ts, d :: c :: es => ⟨t, d, c⟩ :: paired ts es
  | _, _ => []

def postings (b : Book) : List Posting := paired b.transactions b.entries

end Book

def accountSum (account : String) (entries : List Entry) : Except Error Decimal :=
  match Decimal.sum (entries.map (·.amount)) with
  | some d => .ok d
  | none => .error (.overflow "balance" (some account))

def ledgerSum (entries : List Entry) : Except Error Decimal :=
  match Decimal.sum (entries.map (·.amount)) with
  | some d => .ok d
  | none => .error (.overflow "trial balance" none)

/-- Adds an entry to its account's balance, in a list in the order of the accounts. -/
def addEntry (e : Entry) : List (String × Decimal) → Option (List (String × Decimal))
  | [] => (Decimal.add .zero e.amount).map fun d => [(e.account, d)]
  | (account, balance) :: rest =>
    if e.account = account then
      (balance.add e.amount).map fun d => (account, d) :: rest
    else if e.account < account then
      (Decimal.add .zero e.amount).map fun d => (e.account, d) :: (account, balance) :: rest
    else (addEntry e rest).map ((account, balance) :: ·)

def balancesFrom (balances : List (String × Decimal)) :
    List Entry → Except Error (List (String × Decimal))
  | [] => .ok balances
  | e :: rest =>
    match addEntry e balances with
    | some balances => balancesFrom balances rest
    | none => .error (.overflow "balance" (some e.account))

def setBalance (account : String) (value : Decimal) :
    List (String × Decimal) → List (String × Decimal)
  | [] => [(account, value)]
  | b :: rest =>
    if b.1 = account then (account, value) :: rest
    else if account < b.1 then (account, value) :: b :: rest
    else b :: setBalance account value rest

/-- Balances in the order of their accounts; of those of one account the last counts. -/
def sortedBalances (balances : List (String × Decimal)) : List (String × Decimal) :=
  balances.foldl (fun sorted b => setBalance b.1 b.2 sorted) []

namespace Book

def balance (b : Book) (account : String) : Except Error Decimal :=
  accountSum account (b.entriesOf account)

def trialBalance (b : Book) : Except Error Decimal := ledgerSum b.entries

def balances (b : Book) : Except Error (List (String × Decimal)) := balancesFrom [] b.entries

end Book

end Bookkeeping
