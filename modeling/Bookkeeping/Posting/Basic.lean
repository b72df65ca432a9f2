import Bookkeeping.Error
import Bookkeeping.Text.Blank
import Bookkeeping.Time.Basic
import Bookkeeping.Uuid.Named
/-!
Postings: a request to move an amount from one account to another, the transaction that it
becomes, the debit and the credit that the transaction consists of, and the notice of it.
-/
namespace Bookkeeping

structure PostingRequest where
  fromAccount : String
  toAccount : String
  amount : Decimal
  key : String
  deriving DecidableEq, Repr

structure Transaction where
  id : Uuid
  key : String
  fromAccount : String
  toAccount : String
  amount : Decimal
  createdAt : Moment
  deriving DecidableEq, Repr

/-- One side of a transaction: an amount that an account gains, or loses if negative. -/
structure Entry where
  id : Uuid
  account : String
  amount : Decimal
  createdAt : Moment
  deriving DecidableEq, Repr

structure Completion where
  transactionId : Uuid
  fromAccount : String
  toAccount : String
  amount : Decimal
  occurredAt : Moment
  deriving DecidableEq, Repr

namespace PostingRequest

/-- A request needs a positive amount and two accounts; its key is not looked at. -/
def validate (r : PostingRequest) : Except Error Unit :=
  if !r.amount.isPositive then .error (.nonPositiveAmount r.amount)
  else if Text.blank r.fromAccount then .error (.missingAccount "from")
  else if Text.blank r.toAccount then .error (.missingAccount "to")
  else .ok ()

def toTransaction (r : PostingRequest) (id : Uuid) (now : Moment) : Transaction :=
  ⟨id, r.key, r.fromAccount, r.toAccount, r.amount, now⟩

theorem validate_eq_ok {r : PostingRequest} :
    r.validate = .ok () ↔
      r.amount.isPositive = true ∧ Text.blank r.fromAccount = false ∧
        Text.blank r.toAccount = false := by
  unfold validate
  split
  · simp_all
  · split
    · simp_all
    · split <;> simp_all

end PostingRequest

namespace Transaction

def debit (t : Transaction) : Entry :=
  ⟨t.id.named "debit", t.fromAccount, t.amount.negate, t.createdAt⟩

def credit (t : Transaction) : Entry :=
  ⟨t.id.named "credit", t.toAccount, t.amount, t.createdAt⟩

def completion (t : Transaction) (now : Moment) : Completion :=
  ⟨t.id, t.fromAccount, t.toAccount, t.amount, now⟩

end Transaction

end Bookkeeping
