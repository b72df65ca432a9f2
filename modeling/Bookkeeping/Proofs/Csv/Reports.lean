import Bookkeeping.Proofs.Book.Balances
import Bookkeeping.Proofs.Csv.Standard
import Bookkeeping.Proofs.Journal.Line

/-! Reports lose nothing of what they report. A parser that knows the standard alone finds one record
for each account or entry, in their order, and from its fields all is read back; so different books
have different reports. -/
namespace Bookkeeping

theorem ascending_sortedBalances (bs : List (String × Decimal)) : Ascending (sortedBalances bs) := by
  suffices ∀ sorted, Ascending sorted →
      Ascending (bs.foldl (fun sorted b => setBalance b.1 b.2 sorted) sorted) from
    this [] ascending_nil
  induction bs with
  | nil => exact fun _ h => h
  | cons b bs ih => exact fun sorted h => ih _ (h.setBalance b.1 b.2)

theorem lookup_sortedBalances (bs : List (String × Decimal)) (a : String) :
    (sortedBalances bs).lookup a = bs.reverse.lookup a := by
  suffices ∀ sorted, (bs.foldl (fun sorted b => setBalance b.1 b.2 sorted) sorted).lookup a =
      (bs.reverse.lookup a).or (sorted.lookup a) from
    (this []).trans (Option.or_none ..)
  induction bs with
  | nil => exact fun _ => rfl
  | cons b bs ih =>
    intro sorted
    rw [List.foldl_cons, ih, lookup_setBalance, List.reverse_cons, List.lookup_append,
      Option.or_assoc, lookup_cons_eq]
    split <;> simp

namespace Csv

open Standard (parse parse_writeRecords)

def readBalance : List String → Option (String × Decimal)
  | [account, balance] => (Decimal.ofText balance).toOption.map (account, ·)
  | _ => none

def readEntry : List String → Option Entry
  | [id, account, amount, createdAt] => do
    let id ← (Uuid.ofChars id.toList).toOption
    let amount ← (Decimal.ofText amount).toOption
    let createdAt ← (Moment.ofChars createdAt.toList).toOption
    some ⟨id, account, amount, createdAt⟩
  | _ => none

def balanceCells (b : String × Decimal) : List String := [b.1, b.2.text]

def entryCells (e : Entry) : List String :=
  [e.id.text, e.account, e.amount.text, e.createdAt.offsetText]

theorem readBalance_balanceCells (b : String × Decimal) :
    readBalance (balanceCells b) = some (b.1, b.2.plain) := by
  rw [balanceCells, readBalance, Decimal.ofText_text]
  rfl

theorem readEntry_entryCells (e : Entry) : readEntry (entryCells e) = some e.plain := by
  rw [entryCells, readEntry, Uuid.text, String.toList_ofList, Uuid.ofChars_chars,
    Decimal.ofText_text, Moment.ofChars_offsetText]
  rfl

theorem balanceCells_injective : Function.Injective balanceCells := by
  intro a b h
  simp only [balanceCells, List.cons.injEq, and_true] at h
  exact Prod.ext h.1 (Decimal.text_inj h.2)

theorem entryCells_injective : Function.Injective entryCells := by
  intro a b h
  have hplain : a.plain = b.plain := by
    have hread := readEntry_entryCells a
    rw [h, readEntry_entryCells] at hread
    exact (Option.some.inj hread).symm
  simp only [entryCells, List.cons.injEq, and_true] at h
  have hamount : a.amount = b.amount := Decimal.text_inj h.2.2.1
  cases a
  cases b
  simp only [Entry.plain, Entry.mk.injEq] at hplain hamount ⊢
  exact ⟨hplain.1, hplain.2.1, hamount, hplain.2.2.2⟩

section Reports

variable {α : Type} {header : List String} {cells : α → List String}

theorem parse_report (hheader : header ≠ []) (hcells : ∀ a, cells a ≠ []) (items : List α) :
    parse (Text.encode (writeRecords (header :: items.map cells))) =
      some (header :: items.map cells) := by
  refine parse_writeRecords ?_
  rw [List.forall_mem_cons, List.forall_mem_map]
  exact ⟨hheader, fun a _ => hcells a⟩

/-- Where no two items have the same fields, no two lists of items have the same report. -/
theorem report_injective (hheader : header ≠ []) (hcells : ∀ a, cells a ≠ [])
    (hinjective : Function.Injective cells) {items items' : List α}
    (h : Text.encode (writeRecords (header :: items.map cells)) =
      Text.encode (writeRecords (header :: items'.map cells))) : items = items' := by
  have hparsed := congrArg parse h
  rw [parse_report hheader hcells, parse_report hheader hcells, Option.some.injEq,
    List.cons.injEq] at hparsed
  exact hinjective.list_map hparsed.2

end Reports

/-- A standard parser finds in the report on any map of balances the header and one record for each
account, in strictly ascending order, and in the report on any entries the header and one record for
each, in their order. Every field is read back; so different maps and different lists of entries
have different reports. -/
theorem reports_read_back (bs : List (String × Decimal)) (es : List Entry) :
    (Ascending (sortedBalances bs) ∧ (∀ a, (sortedBalances bs).lookup a = bs.reverse.lookup a) ∧
      ∃ rows, parse (Text.encode (balancesReport (sortedBalances bs))) =
          some (["account", "balance"] :: rows) ∧
        List.Forall₂ (fun row b => ∃ d, readBalance row = some (b.1, d) ∧ d.Same b.2)
          rows (sortedBalances bs)) ∧
      (∃ rows, parse (Text.encode (entriesReport es)) =
          some (["id", "account_id", "amount", "created_at"] :: rows) ∧
        List.Forall₂ (fun row e => ∃ e', readEntry row = some e' ∧ e'.Same e) rows es) ∧
      (∀ bs', Text.encode (balancesReport (sortedBalances bs)) =
        Text.encode (balancesReport (sortedBalances bs')) → sortedBalances bs = sortedBalances bs') ∧
      ∀ es', Text.encode (entriesReport es) = Text.encode (entriesReport es') → es = es' := by
  have hbalances (b : String × Decimal) : balanceCells b ≠ [] := List.cons_ne_nil _ _
  have hentries (e : Entry) : entryCells e ≠ [] := List.cons_ne_nil _ _
  refine ⟨⟨ascending_sortedBalances bs, lookup_sortedBalances bs, ?_⟩, ?_, ?_, ?_⟩
  · refine ⟨(sortedBalances bs).map balanceCells, parse_report (by simp) hbalances _, ?_⟩
    rw [List.forall₂_map_left_iff, List.forall₂_same]
    exact fun b _ => ⟨_, readBalance_balanceCells b, b.2.same_plain⟩
  · refine ⟨es.map entryCells, parse_report (by simp) hentries _, ?_⟩
    rw [List.forall₂_map_left_iff, List.forall₂_same]
    exact fun e _ => ⟨_, readEntry_entryCells e, e.same_plain⟩
  · exact fun bs' => report_injective (by simp) hbalances balanceCells_injective
  · exact fun es' => report_injective (by simp) hentries entryCells_injective

end Csv

end Bookkeeping
