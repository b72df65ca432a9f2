import Bookkeeping.Proofs.Json.Pieces
import Bookkeeping.Proofs.Posting.RoundTrip

/-! The records of transactions, entries and postings are refused when their end is missing. -/
namespace Bookkeeping

open Json (RefusesPieces writeText refuses_failNext refusesPieces_textValue refusesPieces_peeked)
open Json.Schema (refusesPieces_fieldOf refusesPieces_read)

namespace Json

variable (s : String)

theorem refusesPieces_textField (expected : String) :
    RefusesPieces (textField expected) (writeText s) :=
  refusesPieces_peeked (refuses_failNext _ _) (refusesPieces_textValue s)

theorem refusesPieces_spelled {α : Type} (expected : String) (read : String → Except String α) :
    RefusesPieces (spelled expected read) (writeText s) :=
  (refusesPieces_textField s expected).bind_left

theorem refusesPieces_amountField : RefusesPieces amountField (writeText s) :=
  RefusesPieces.bind_left <|
    refusesPieces_peeked (refuses_failNext _ _) (refusesPieces_textValue s).bind_left

end Json

open Json (refusesPieces_textField refusesPieces_spelled refusesPieces_amountField)

theorem Transaction.refusesPieces_write (t : Transaction) : RefusesPieces schema.read t.write := by
  refine refusesPieces_read t.fills_members ?_
  simp only [List.forall_mem_cons]
  exact ⟨refusesPieces_fieldOf rfl (refusesPieces_spelled _ _ _),
    refusesPieces_fieldOf rfl (refusesPieces_textField _ _),
    refusesPieces_fieldOf rfl (refusesPieces_textField _ _),
    refusesPieces_fieldOf rfl (refusesPieces_textField _ _),
    refusesPieces_fieldOf rfl (refusesPieces_amountField _),
    refusesPieces_fieldOf rfl (refusesPieces_spelled _ _ _), by simp⟩

theorem Entry.refusesPieces_write (e : Entry) : RefusesPieces schema.read e.write := by
  refine refusesPieces_read e.fills_members ?_
  simp only [List.forall_mem_cons]
  exact ⟨refusesPieces_fieldOf rfl (refusesPieces_spelled _ _ _),
    refusesPieces_fieldOf rfl (refusesPieces_textField _ _),
    refusesPieces_fieldOf rfl (refusesPieces_amountField _),
    refusesPieces_fieldOf rfl (refusesPieces_spelled _ _ _), by simp⟩

theorem Posting.refusesPieces_write (p : Posting) : RefusesPieces schema.read p.write := by
  refine refusesPieces_read p.fills_members ?_
  simp only [List.forall_mem_cons]
  exact ⟨refusesPieces_fieldOf rfl p.transaction.refusesPieces_write,
    refusesPieces_fieldOf rfl p.debit.refusesPieces_write,
    refusesPieces_fieldOf rfl p.credit.refusesPieces_write, by simp⟩

end Bookkeeping
