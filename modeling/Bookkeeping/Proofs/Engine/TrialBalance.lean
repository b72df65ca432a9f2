import Bookkeeping.Proofs.Decimal.Addition
import Bookkeeping.Proofs.Engine.Ledger

/-! The trial balance of an engine that is only posted to: every debit is followed by its credit, so
that the sum never leaves the range of a decimal and ends at zero. -/
namespace Bookkeeping

theorem map_amount_entries (ts : List Transaction) :
    (ts.flatMap (·.posting.entries)).map (·.amount) =
      (ts.map (·.amount)).flatMap fun d => [d.negate, d] := by
  rw [List.map_flatMap, List.flatMap_map]
  rfl

theorem Book.trialBalance_of_pairs {b : Book}
    (h : b.entries = b.transactions.flatMap (·.posting.entries)) :
    ∃ d, b.trialBalance = .ok d ∧ d.isZero = true := by
  have hzero : Decimal.zero.isZero = true := rfl
  obtain ⟨d, hsum, hd⟩ := Decimal.foldlM_add_negate (b.transactions.map (·.amount)) hzero
  rw [← map_amount_entries, ← h] at hsum
  refine ⟨d, ?_, hd⟩
  rw [trialBalance, ledgerSum, Decimal.sum, hsum]

namespace Engine

variable {e : Engine}

/-- The trial balance of a book that can be read is zero, even where balances of accounts
overflow. -/
theorem trialBalance_acts (h : Fresh e) (as : List Act) {s : Surroundings}
    (hread : s.faults.read = none) :
    ∃ d, ((e.acts as).read s >>= fun book => book.trialBalance) = .ok d ∧ d.isZero = true := by
  obtain ⟨ps, hnow⟩ := h.sound.acts as
  rw [List.nil_append] at hnow
  have hentries : (e.acts as).book.entries =
      (e.acts as).book.transactions.flatMap (·.posting.entries) := by
    rw [book, hnow.store.book]
    exact Book.entries_of_proper hnow.store.proper
  obtain ⟨d, hd, hzero⟩ := Book.trialBalance_of_pairs hentries
  refine ⟨d, ?_, hzero⟩
  rw [read, hread]
  exact hd

theorem trialBalance_acts_race :
    Fresh (inMemory .absent) ∧ calm.faults.read = none ∧
      ∃ d, (((inMemory .absent).acts (race.map .move)).read calm >>=
        fun book => book.trialBalance) = .ok d ∧ d.isZero = true :=
  ⟨.inMemory _, rfl, trialBalance_acts (.inMemory _) (race.map .move) rfl⟩

end Engine

end Bookkeeping
