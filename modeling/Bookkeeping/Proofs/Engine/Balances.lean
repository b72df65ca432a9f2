import Mathlib.Algebra.BigOperators.Group.List.Lemmas
import Mathlib.Tactic.NormNum
import Bookkeeping.Proofs.Book.Balances
import Bookkeeping.Proofs.Decimal.Exact
import Bookkeeping.Proofs.Engine.Ledger

/-! The balances of an engine that is only posted to are exact as long as its amounts add up to what
a decimal of their places can hold: on no account do credits or debits alone exceed that, so no sum
on the way is rounded. -/
namespace Bookkeeping

section Accounts

variable {places : Nat} {ts : List Transaction} {es : List Entry}

theorem Decimal.units_nonneg {d : Decimal} (h : d.isPositive = true) : 0 ≤ d.units places := by
  have hsign : d.negative = false := by
    unfold isPositive at h
    rw [Bool.and_eq_true, Bool.not_eq_true'] at h
    exact h.1
  have hsigned : d.signed = d.coefficient := by simp [signed, hsign]
  rw [units, hsigned]
  exact Int.mul_nonneg (Int.natCast_nonneg _) (Int.natCast_nonneg _)

def amountsOf (account : String) (es : List Entry) : List Decimal :=
  (es.filter (·.account == account)).map (·.amount)

theorem gains_losses_le (hts : ∀ t ∈ ts, t.amount.isPositive = true) (account : String) :
    Decimal.gains places (amountsOf account (ts.flatMap (·.posting.entries))) ≤
        (ts.map (·.amount.units places)).sum ∧
      Decimal.losses places (amountsOf account (ts.flatMap (·.posting.entries))) ≤
        (ts.map (·.amount.units places)).sum := by
  induction ts with
  | nil => exact ⟨le_refl _, le_refl _⟩
  | cons t ts ih =>
    obtain ⟨ht, hrest⟩ := List.forall_mem_cons.1 hts
    obtain ⟨hgains, hlosses⟩ := ih hrest
    have hamount : 0 ≤ t.amount.units places := Decimal.units_nonneg ht
    have hdebit : t.debit.amount.units places = -t.amount.units places := Decimal.units_negate _
    have hentries : (t :: ts).flatMap (·.posting.entries) =
        t.debit :: t.credit :: ts.flatMap (·.posting.entries) := rfl
    have hcredit : t.credit.amount = t.amount := rfl
    rw [hentries, List.map_cons, List.sum_cons]
    unfold amountsOf at hgains hlosses ⊢
    constructor
    · by_cases hfrom : t.debit.account = account <;> by_cases hto : t.credit.account = account <;>
        simp [hfrom, hto, Decimal.gains_cons, hdebit, hcredit] <;> omega
    · by_cases hfrom : t.debit.account = account <;> by_cases hto : t.credit.account = account <;>
        simp [hfrom, hto, Decimal.losses_cons, hdebit, hcredit] <;> omega

theorem sum_accounts {accounts : List String} (hnodup : accounts.Nodup)
    (hall : ∀ e ∈ es, e.account ∈ accounts) :
    (accounts.map fun a => ((amountsOf a es).map (·.value)).sum).sum =
      (es.map (·.amount.value)).sum := by
  induction es with
  | nil => simp [amountsOf]
  | cons e es ih =>
    obtain ⟨he, hrest⟩ := List.forall_mem_cons.1 hall
    have hsplit (a : String) : ((amountsOf a (e :: es)).map (·.value)).sum =
        (if a = e.account then e.amount.value else 0) + ((amountsOf a es).map (·.value)).sum := by
      by_cases ha : e.account = a
      · simp [amountsOf, ha]
      · simp [amountsOf, ha, Ne.symm ha]
    have hone : (accounts.map fun a => if a = e.account then e.amount.value else 0).sum =
        e.amount.value := by
      rw [List.sum_map_eq_nsmul_single e.account _ fun a ha _ => if_neg ha,
        List.count_eq_one_of_mem hnodup he, if_pos rfl, one_nsmul]
    simp only [hsplit]
    rw [List.sum_map_add, hone, ih hrest, List.map_cons, List.sum_cons]

theorem sum_value_entries (ts : List Transaction) :
    ((ts.flatMap (·.posting.entries)).map (·.amount.value)).sum = 0 := by
  induction ts with
  | nil => rfl
  | cons t ts ih =>
    have hentries : (t :: ts).flatMap (·.posting.entries) =
        t.debit :: t.credit :: ts.flatMap (·.posting.entries) := rfl
    have hdebit : t.debit.amount.value = -t.credit.amount.value := Decimal.value_negate t.amount
    simp [hentries, hdebit, ih]

end Accounts

/-- A book of proper postings whose amounts have at most so many places, and add up to what a decimal
of so many places can hold. -/
structure Book.Bounded (b : Book) (places : Nat) : Prop where
  entries : b.entries = b.transactions.flatMap (·.posting.entries)
  positive : ∀ t ∈ b.transactions, t.amount.isPositive = true
  scale : ∀ t ∈ b.transactions, t.amount.scale ≤ places
  total : (b.transactions.map (·.amount.value)).sum ≤ (2 ^ 96 - 1) / 10 ^ places

namespace Book.Bounded

variable {b : Book} {places : Nat}

theorem total_units (h : b.Bounded places) :
    (b.transactions.map (·.amount.units places)).sum < twoTo 96 := by
  have hscale : ∀ d ∈ b.transactions.map (·.amount), d.scale ≤ places := by
    intro d hd
    obtain ⟨t, ht, rfl⟩ := List.mem_map.1 hd
    exact h.scale t ht
  have htotal := h.total
  have hsum := Decimal.sum_value_eq hscale
  rw [List.map_map, List.map_map] at hsum
  have hten : (tenTo places : ℚ) = 10 ^ places := by exact_mod_cast rfl
  have hpos : (0 : ℚ) < 10 ^ places := by positivity
  rw [show (b.transactions.map (·.amount.value)).sum = _ from hsum, hten,
    div_le_div_iff_of_pos_right hpos] at htotal
  have hunits : (b.transactions.map (·.amount.units places)).sum ≤ 2 ^ 96 - 1 := by
    exact_mod_cast htotal
  have htwo : (twoTo 96 : Int) = 2 ^ 96 := rfl
  omega

theorem scale_amountsOf (h : b.Bounded places) (account : String) :
    ∀ d ∈ amountsOf account b.entries, d.scale ≤ places := by
  intro d hd
  obtain ⟨entry, hentry, rfl⟩ := List.mem_map.1 hd
  have hmem := (List.mem_filter.1 hentry).1
  rw [h.entries] at hmem
  obtain ⟨t, ht, hside⟩ := List.mem_flatMap.1 hmem
  have hamount : entry.amount.scale = t.amount.scale := by
    simp only [Transaction.posting, Posting.entries, List.mem_cons, List.not_mem_nil,
      or_false] at hside
    rcases hside with rfl | rfl <;> rfl
  exact hamount ▸ h.scale t ht

theorem sum_amountsOf (h : b.Bounded places) (account : String) :
    ∃ d, (amountsOf account b.entries).foldlM Decimal.add .zero = some d ∧
      d.value = ((amountsOf account b.entries).map (·.value)).sum := by
  have htotal := h.total_units
  have hscale := h.scale_amountsOf account
  obtain ⟨hgains, hlosses⟩ :
      Decimal.gains places (amountsOf account (b.transactions.flatMap (·.posting.entries))) ≤
          (b.transactions.map (·.amount.units places)).sum ∧
        Decimal.losses places (amountsOf account (b.transactions.flatMap (·.posting.entries))) ≤
          (b.transactions.map (·.amount.units places)).sum := gains_losses_le h.positive account
  rw [← h.entries] at hgains hlosses
  have hzero : Decimal.zero.units places = 0 := Decimal.units_zero
  have hstart : Decimal.zero.scale ≤ places := Nat.zero_le places
  obtain ⟨d, hsum, hd, hunits⟩ :=
    Decimal.foldlM_add_exact hstart hscale (by omega) (by omega)
  refine ⟨d, hsum, ?_⟩
  rw [Decimal.value_eq_units hd, hunits, hzero, Int.zero_add, Decimal.sum_value_eq hscale]

theorem balance (h : b.Bounded places) (account : String) :
    ∃ d, b.balance account = .ok d ∧
      d.value = ((b.entriesOf account).map (·.amount.value)).sum := by
  obtain ⟨d, hsum, hvalue⟩ := h.sum_amountsOf account
  refine ⟨d, ?_, by rw [hvalue, amountsOf, List.map_map]; rfl⟩
  have hsum' : Decimal.sum ((b.entriesOf account).map (·.amount)) = some d := hsum
  rw [Book.balance, accountSum, hsum']

theorem balances (h : b.Bounded places) :
    ∃ bs, b.balances = .ok bs ∧ Ascending bs ∧
      (∀ account, account ∈ bs.map (·.1) ↔ account ∈ b.entries.map (·.account)) ∧
      (∀ c ∈ bs, c.2.value = ((b.entriesOf c.1).map (·.amount.value)).sum) ∧
      (bs.map (·.2.value)).sum = 0 := by
  choose sums hsums hvalues using h.sum_amountsOf
  obtain ⟨bs, hok, hascending, haccounts, hlookup⟩ :=
    balancesFrom_of_sums ascending_nil hsums
  have heach : ∀ c ∈ bs, c.2.value = ((amountsOf c.1 b.entries).map (·.value)).sum := by
    intro c hc
    have hc' := hlookup c.1
    rw [hascending.lookup_of_mem hc, Option.getD_some] at hc'
    rw [hc', hvalues]
  refine ⟨bs, hok, hascending, by simpa using haccounts, ?_, ?_⟩
  · intro c hc
    rw [heach c hc, amountsOf, List.map_map]
    rfl
  · have hall : ∀ e ∈ b.entries, e.account ∈ bs.map (·.1) := fun e he =>
      (haccounts e.account).2 (.inr (List.mem_map_of_mem he))
    calc (bs.map (·.2.value)).sum
        = ((bs.map (·.1)).map fun a => ((amountsOf a b.entries).map (·.value)).sum).sum := by
          rw [List.map_map]
          exact congrArg List.sum (List.map_congr_left heach)
      _ = (b.entries.map (·.amount.value)).sum := sum_accounts hascending.nodup hall
      _ = 0 := by rw [h.entries, sum_value_entries]

end Book.Bounded

namespace Engine

variable {e : Engine}

/-- If all amounts have at most so many places, and together are no more than a decimal of so many
places can hold, then every balance can be had, one by one and all at once, and is exactly the sum
of its account's entries; all together come to zero. -/
theorem balances_acts (h : Fresh e) (as : List Act) {s : Surroundings}
    (hread : s.faults.read = none) {places : Nat}
    (hscale : ∀ t ∈ (e.acts as).book.transactions, t.amount.scale ≤ places)
    (htotal : ((e.acts as).book.transactions.map (·.amount.value)).sum ≤
      (2 ^ 96 - 1) / 10 ^ places) :
    (∀ account, ∃ d, ((e.acts as).read s >>= fun book => book.balance account) = .ok d ∧
        d.value = (((e.acts as).book.entriesOf account).map (·.amount.value)).sum) ∧
      ∃ bs, ((e.acts as).read s >>= fun book => book.balances) = .ok bs ∧ Ascending bs ∧
        (∀ account, account ∈ bs.map (·.1) ↔
          account ∈ (e.acts as).book.entries.map (·.account)) ∧
        (∀ c ∈ bs, c.2.value =
          (((e.acts as).book.entriesOf c.1).map (·.amount.value)).sum) ∧
        (bs.map (·.2.value)).sum = 0 := by
  obtain ⟨ps, hnow⟩ := h.sound.acts as
  rw [List.nil_append] at hnow
  have hbook : (e.acts as).book = Book.of ps := hnow.store.book
  have hbounded : (e.acts as).book.Bounded places := by
    refine ⟨?_, ?_, hscale, htotal⟩
    · rw [hbook]
      exact Book.entries_of_proper hnow.store.proper
    · intro t ht
      rw [hbook] at ht
      obtain ⟨p, hp, rfl⟩ := List.mem_map.1 ht
      exact (hnow.store.proper p hp).valid.amount
  have hreads : (e.acts as).read s = .ok (e.acts as).book := by rw [read, hread]
  rw [hreads]
  exact ⟨hbounded.balance, hbounded.balances⟩

def transfers : List Act :=
  let post (i : Nat) (r : PostingRequest) : List Act :=
    .move (.start r) :: List.replicate 7 (.move (.step calm i))
  post 0 ⟨"a", "b", .ofWord false 5, "k"⟩ ++
    post 1 ⟨"b", "c", ⟨false, 25, 1, by decide, by decide⟩, "l"⟩ ++
    post 2 ⟨"c", "c", ⟨false, 75, 2, by decide, by decide⟩, "m"⟩

theorem balances_acts_transfers :
    let book := ((inMemory .absent).acts transfers).book
    Fresh (inMemory .absent) ∧ calm.faults.read = none ∧
      (∀ t ∈ book.transactions, t.amount.scale ≤ 2) ∧
      (book.transactions.map (·.amount.value)).sum ≤ (2 ^ 96 - 1) / 10 ^ 2 ∧
      ∃ d, (((inMemory .absent).acts transfers).read calm >>= fun book => book.balance "c") =
          .ok d ∧
        d.value = ((book.entriesOf "c").map (·.amount.value)).sum := by
  intro book
  have hamounts : book.transactions.map (·.amount) =
      [.ofWord false 5, ⟨false, 25, 1, by decide, by decide⟩,
        ⟨false, 75, 2, by decide, by decide⟩] := by decide +kernel
  have hscale : ∀ t ∈ book.transactions, t.amount.scale ≤ 2 := by decide +kernel
  have htotal : (book.transactions.map (·.amount.value)).sum ≤ (2 ^ 96 - 1) / 10 ^ 2 := by
    have hvalues : book.transactions.map (·.amount.value) =
        (book.transactions.map (·.amount)).map (·.value) := by rw [List.map_map]; rfl
    have hfive : (5 : UInt64).toNat = 5 := rfl
    rw [hvalues, hamounts]
    norm_num [Decimal.value, Decimal.signed, Decimal.ofWord, tenTo, hfive]
  exact ⟨.inMemory _, rfl, hscale, htotal,
    (balances_acts (.inMemory .absent) transfers rfl hscale htotal).1 "c"⟩

end Engine

end Bookkeeping
