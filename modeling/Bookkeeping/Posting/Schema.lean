import Bookkeeping.Decimal.Reading
import Bookkeeping.Json.Record
import Bookkeeping.Posting.Basic
import Bookkeeping.Time.Reading
import Bookkeeping.Time.Writing
import Bookkeeping.Uuid.Reading
/-! Transactions, entries and notices as JSON records. -/
namespace Bookkeeping

open Json (Reader Field Schema)

namespace Json

def uuidField : Reader Uuid :=
  spelled "a formatted UUID string" fun s =>
    match Uuid.ofChars s.toList with
    | .ok u => .ok u
    | .error e => .error ("UUID parsing failed: " ++ e.message)

def momentField : Reader Moment :=
  spelled "an RFC 3339 formatted date and time string" fun s =>
    match Moment.ofChars s.toList with
    | .ok m => .ok m
    | .error e => .error e.message

/-- An amount as text, or as a number; one that is not whole is taken by its shortest digits. -/
def amountField : Reader Decimal := do
  let expected := "a Decimal type representing a fixed-point number"
  match ← textOrNumber expected with
  | .inl s =>
    match Decimal.ofText s with
    | .ok d => return d
    | .error _ => fail (.invalidValue (.text s) expected)
  | .inr (.natural n) => return .ofWord false n
  | .inr (.negative n) => return .ofWord true n
  | .inr (.real negative x) =>
    match Decimal.ofChars ((if negative then ['-'] else []) ++ (x.shortest .up).positional) with
    | .ok d => return d
    | .error _ => fail (.invalidValue (.number (.real negative x)) expected)

/-- A field whose value is read by `read` and put into the draft by `put`. -/
def fieldOf {δ α : Type} (name : String) (get : δ → Option α) (read : Reader α)
    (put : α → δ → δ) : Field δ :=
  ⟨name, fun d => (get d).isSome, fun d => do return put (← read) d⟩

def required {α : Type} (name : String) (value : Option α) : Except String α :=
  match value with
  | some a => .ok a
  | none => .error name

def writeObject (members : List (String × List Char)) : List Char :=
  '{' :: List.intercalate [','] (members.map fun m => writeText m.1 ++ ':' :: m.2) ++ ['}']

end Json

open Json (fieldOf required textField uuidField momentField amountField writeObject writeText)

namespace Transaction

structure Draft where
  id : Option Uuid := none
  key : Option String := none
  fromAccount : Option String := none
  toAccount : Option String := none
  amount : Option Decimal := none
  createdAt : Option Moment := none

def schema : Schema Draft Transaction where
  title := "struct Transaction"
  start := {}
  fields :=
    [fieldOf "id" Draft.id uuidField fun x d => { d with id := some x },
      fieldOf "idempotency_key" Draft.key (textField "a string")
        fun x d => { d with key := some x },
      fieldOf "from_account" Draft.fromAccount (textField "a string")
        fun x d => { d with fromAccount := some x },
      fieldOf "to_account" Draft.toAccount (textField "a string")
        fun x d => { d with toAccount := some x },
      fieldOf "amount" Draft.amount amountField fun x d => { d with amount := some x },
      fieldOf "created_at" Draft.createdAt momentField fun x d => { d with createdAt := some x }]
  finish d := do
    return {
      id := ← required "id" d.id
      key := ← required "idempotency_key" d.key
      fromAccount := ← required "from_account" d.fromAccount
      toAccount := ← required "to_account" d.toAccount
      amount := ← required "amount" d.amount
      createdAt := ← required "created_at" d.createdAt }

def write (t : Transaction) : List Char :=
  writeObject
    [("id", writeText t.id.text), ("idempotency_key", writeText t.key),
      ("from_account", writeText t.fromAccount), ("to_account", writeText t.toAccount),
      ("amount", writeText t.amount.text), ("created_at", writeText t.createdAt.text)]

end Transaction

namespace Entry

structure Draft where
  id : Option Uuid := none
  account : Option String := none
  amount : Option Decimal := none
  createdAt : Option Moment := none

def schema : Schema Draft Entry where
  title := "struct LedgerEntry"
  start := {}
  fields :=
    [fieldOf "id" Draft.id uuidField fun x d => { d with id := some x },
      fieldOf "account_id" Draft.account (textField "a string")
        fun x d => { d with account := some x },
      fieldOf "amount" Draft.amount amountField fun x d => { d with amount := some x },
      fieldOf "created_at" Draft.createdAt momentField fun x d => { d with createdAt := some x }]
  finish d := do
    return {
      id := ← required "id" d.id
      account := ← required "account_id" d.account
      amount := ← required "amount" d.amount
      createdAt := ← required "created_at" d.createdAt }

def write (e : Entry) : List Char :=
  writeObject
    [("id", writeText e.id.text), ("account_id", writeText e.account),
      ("amount", writeText e.amount.text), ("created_at", writeText e.createdAt.text)]

end Entry

namespace Completion

structure Draft where
  transactionId : Option Uuid := none
  fromAccount : Option String := none
  toAccount : Option String := none
  amount : Option Decimal := none
  occurredAt : Option Moment := none

def schema : Schema Draft Completion where
  title := "struct TransactionCompleted"
  start := {}
  fields :=
    [fieldOf "transaction_id" Draft.transactionId uuidField
        fun x d => { d with transactionId := some x },
      fieldOf "from_account" Draft.fromAccount (textField "a string")
        fun x d => { d with fromAccount := some x },
      fieldOf "to_account" Draft.toAccount (textField "a string")
        fun x d => { d with toAccount := some x },
      fieldOf "amount" Draft.amount amountField fun x d => { d with amount := some x },
      fieldOf "occurred_at" Draft.occurredAt momentField fun x d => { d with occurredAt := some x }]
  finish d := do
    return {
      transactionId := ← required "transaction_id" d.transactionId
      fromAccount := ← required "from_account" d.fromAccount
      toAccount := ← required "to_account" d.toAccount
      amount := ← required "amount" d.amount
      occurredAt := ← required "occurred_at" d.occurredAt }

def write (c : Completion) : List Char :=
  writeObject
    [("transaction_id", writeText c.transactionId.text),
      ("from_account", writeText c.fromAccount), ("to_account", writeText c.toAccount),
      ("amount", writeText c.amount.text), ("occurred_at", writeText c.occurredAt.text)]

end Completion

end Bookkeeping
