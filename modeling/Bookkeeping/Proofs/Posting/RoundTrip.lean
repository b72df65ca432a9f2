import Bookkeeping.Book
import Bookkeeping.Journal.Line
import Bookkeeping.Proofs.Decimal.RoundTrip
import Bookkeeping.Proofs.Json.Record
import Bookkeeping.Proofs.Time.RoundTrip
import Bookkeeping.Proofs.Uuid.RoundTrip

/-! Transactions, entries, notices and postings are read back from the records that are written for
them, with every amount plain. -/
namespace Bookkeeping

open Json (Yields yields_textValue yields_peekValue writeText writeObject)

namespace Json

variable {rest : List Char}

theorem yields_textField (expected s : String) :
    Yields (textField expected) (writeText s ++ rest) s rest :=
  (yields_peekValue (by decide)).bind (yields_textValue s rest)

theorem yields_spelled {α : Type} {expected s : String} {read : String → Except String α} {a : α}
    (h : read s = .ok a) : Yields (spelled expected read) (writeText s ++ rest) a rest := by
  refine (yields_textField expected s).bind ?_
  simp only [h]
  exact Yields.pure a

theorem yields_uuidField (u : Uuid) : Yields uuidField (writeText u.text ++ rest) u rest :=
  yields_spelled (by simp only [Uuid.text, String.toList_ofList, Uuid.ofChars_chars])

theorem yields_momentField (m : Moment) : Yields momentField (writeText m.text ++ rest) m rest :=
  yields_spelled (by simp only [Moment.text, String.toList_ofList, Moment.ofChars_chars])

theorem yields_amountField (d : Decimal) :
    Yields amountField (writeText d.text ++ rest) d.plain rest := by
  refine Yields.bind (show Yields _ (writeText d.text ++ rest) (.inl d.text) rest from ?_) ?_
  · exact (yields_peekValue (by decide)).bind ((yields_textValue d.text rest).bind (Yields.pure _))
  · simp only [Decimal.ofText_text]
    exact Yields.pure d.plain

end Json

def Transaction.plain (t : Transaction) : Transaction := { t with amount := t.amount.plain }

def Entry.plain (e : Entry) : Entry := { e with amount := e.amount.plain }

def Completion.plain (c : Completion) : Completion := { c with amount := c.amount.plain }

/-- A posting as it is read back. -/
def Posting.plain (p : Posting) : Posting :=
  ⟨p.transaction.plain, p.debit.plain, p.credit.plain⟩

open Json

namespace Transaction

def members (t : Transaction) : List (String × List Char) :=
  [("id", writeText t.id.text), ("idempotency_key", writeText t.key),
    ("from_account", writeText t.fromAccount), ("to_account", writeText t.toAccount),
    ("amount", writeText t.amount.text), ("created_at", writeText t.createdAt.text)]

theorem fills_members (t : Transaction) : schema.Fills schema.start t.members
    ⟨t.id, t.key, t.fromAccount, t.toAccount, t.amount.plain, t.createdAt⟩ :=
  ⟨_, _, rfl, rfl, fun _ => Schema.yields_fieldOf _ (yields_uuidField t.id),
    _, _, rfl, rfl, fun _ => Schema.yields_fieldOf _ (yields_textField _ t.key),
    _, _, rfl, rfl, fun _ => Schema.yields_fieldOf _ (yields_textField _ t.fromAccount),
    _, _, rfl, rfl, fun _ => Schema.yields_fieldOf _ (yields_textField _ t.toAccount),
    _, _, rfl, rfl, fun _ => Schema.yields_fieldOf _ (yields_amountField t.amount),
    _, _, rfl, rfl, fun _ => Schema.yields_fieldOf _ (yields_momentField t.createdAt), rfl⟩

theorem yields_write (t : Transaction) (rest : List Char) :
    Yields schema.read (t.write ++ rest) t.plain rest :=
  Schema.yields_read rest t.fills_members rfl

end Transaction

namespace Entry

def members (e : Entry) : List (String × List Char) :=
  [("id", writeText e.id.text), ("account_id", writeText e.account),
    ("amount", writeText e.amount.text), ("created_at", writeText e.createdAt.text)]

theorem fills_members (e : Entry) :
    schema.Fills schema.start e.members ⟨e.id, e.account, e.amount.plain, e.createdAt⟩ :=
  ⟨_, _, rfl, rfl, fun _ => Schema.yields_fieldOf _ (yields_uuidField e.id),
    _, _, rfl, rfl, fun _ => Schema.yields_fieldOf _ (yields_textField _ e.account),
    _, _, rfl, rfl, fun _ => Schema.yields_fieldOf _ (yields_amountField e.amount),
    _, _, rfl, rfl, fun _ => Schema.yields_fieldOf _ (yields_momentField e.createdAt), rfl⟩

theorem yields_write (e : Entry) (rest : List Char) :
    Yields schema.read (e.write ++ rest) e.plain rest :=
  Schema.yields_read rest e.fills_members rfl

end Entry

namespace Completion

def members (c : Completion) : List (String × List Char) :=
  [("transaction_id", writeText c.transactionId.text), ("from_account", writeText c.fromAccount),
    ("to_account", writeText c.toAccount), ("amount", writeText c.amount.text),
    ("occurred_at", writeText c.occurredAt.text)]

theorem fills_members (c : Completion) : schema.Fills schema.start c.members
    ⟨c.transactionId, c.fromAccount, c.toAccount, c.amount.plain, c.occurredAt⟩ :=
  ⟨_, _, rfl, rfl, fun _ => Schema.yields_fieldOf _ (yields_uuidField c.transactionId),
    _, _, rfl, rfl, fun _ => Schema.yields_fieldOf _ (yields_textField _ c.fromAccount),
    _, _, rfl, rfl, fun _ => Schema.yields_fieldOf _ (yields_textField _ c.toAccount),
    _, _, rfl, rfl, fun _ => Schema.yields_fieldOf _ (yields_amountField c.amount),
    _, _, rfl, rfl, fun _ => Schema.yields_fieldOf _ (yields_momentField c.occurredAt), rfl⟩

theorem yields_write (c : Completion) (rest : List Char) :
    Yields schema.read (c.write ++ rest) c.plain rest :=
  Schema.yields_read rest c.fills_members rfl

end Completion

namespace Posting

def members (p : Posting) : List (String × List Char) :=
  [("transaction", p.transaction.write), ("debit", p.debit.write), ("credit", p.credit.write)]

theorem write_eq (p : Posting) : p.write = writeObject p.members := rfl

theorem fills_members (p : Posting) : schema.Fills schema.start p.members
    ⟨p.transaction.plain, p.debit.plain, p.credit.plain⟩ :=
  ⟨_, _, rfl, rfl, fun _ => Schema.yields_fieldOf _ (p.transaction.yields_write _),
    _, _, rfl, rfl, fun _ => Schema.yields_fieldOf _ (p.debit.yields_write _),
    _, _, rfl, rfl, fun _ => Schema.yields_fieldOf _ (p.credit.yields_write _), rfl⟩

theorem yields_write (p : Posting) (rest : List Char) :
    Yields schema.read (p.write ++ rest) p.plain rest :=
  Schema.yields_read rest p.fills_members rfl

end Posting

theorem Transaction.newline_notMem_write (t : Transaction) : '\n' ∉ t.write :=
  newline_notMem_writeObject (by simp [newline_notMem_writeText])

theorem Entry.newline_notMem_write (e : Entry) : '\n' ∉ e.write :=
  newline_notMem_writeObject (by simp [newline_notMem_writeText])

theorem Posting.newline_notMem_write (p : Posting) : '\n' ∉ p.write :=
  newline_notMem_writeObject (by
    simp [p.transaction.newline_notMem_write, p.debit.newline_notMem_write,
      p.credit.newline_notMem_write])

end Bookkeeping
