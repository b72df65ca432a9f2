import Bookkeeping.Csv.Row
import Bookkeeping.Proofs.Decimal.Exponents

/-! The amounts of rows. A text whose number is too large is refused, but one whose number has more
places than there are is rounded, and another amount is posted in its stead. -/
namespace Bookkeeping.Csv

open Decimal

/-- A row with an amount that is not blank either is refused, or its request has the row's accounts
and key and an amount for the number written in the text: it is off by less than one unit in its
last place, and equal just if the number and its digits before the exponent both have a decimal. -/
theorem amounts_read {row : PostingRow} {text : String} (h : row.amount = some text)
    (hne : Text.trim text.toList ≠ []) :
    row.toRequest = .error (.badAmount text row.key) ∨
      ∃ d, row.toRequest = .ok ⟨row.fromAccount, row.toAccount, d, row.key⟩ ∧
        |written (Text.trim text.toList)| < twoTo 96 ∧
        d.Approximates (significand (mantissa (Text.trim text.toList)))
          (written (Text.trim text.toList)) := by
  unfold PostingRow.toRequest
  simp only [h, List.isEmpty_iff, if_neg hne]
  cases hread : ofChars (Text.trim text.toList) with
  | error e => exact .inl rfl
  | ok d =>
    have happrox := ofChars_approximates hread
    exact .inr ⟨d, rfl, happrox.abs_lt, happrox⟩

theorem amounts_read_moved :
    ∃ d, (⟨"a", "b", some " 1.5e3 ", "k1"⟩ : PostingRow).toRequest = .ok ⟨"a", "b", d, "k1"⟩ ∧
      |written "1.5e3".toList| < twoTo 96 ∧
      d.Approximates (significand "1.5".toList) (written "1.5e3".toList) := by
  have hrow : (⟨"a", "b", some " 1.5e3 ", "k1"⟩ : PostingRow).amount = some " 1.5e3 " := rfl
  have htrim : Text.trim " 1.5e3 ".toList = "1.5e3".toList := by decide
  have hmantissa : mantissa "1.5e3".toList = "1.5".toList := by decide
  have hread := amounts_read hrow (by decide)
  rw [htrim, hmantissa] at hread
  exact hread.resolve_left (by decide)

/-- A number with too many places is accepted as another one, but refused where its exponent says
so. -/
theorem amounts_misread :
    (∃ d, (⟨"a", "b", some "0.00000000000000000000000000006", "k1"⟩ : PostingRow).toRequest =
        .ok ⟨"a", "b", d, "k1"⟩ ∧
      d.isPositive = true ∧ d.value ≠ written "0.00000000000000000000000000006".toList) ∧
    written "6e-29".toList = written "0.00000000000000000000000000006".toList ∧
    (⟨"a", "b", some "6e-29", "k1"⟩ : PostingRow).toRequest = .error (.badAmount "6e-29" "k1") := by
  refine ⟨⟨⟨false, 1, 28, by decide, by decide⟩, ?_, ?_, ?_⟩, ?_, ?_⟩
  · decide +kernel
  · decide +kernel
  · decide +kernel
  · decide +kernel
  · decide +kernel

end Bookkeeping.Csv
