import Bookkeeping.Proofs.Book.Balances
import Bookkeeping.Proofs.Decimal.Rounding

/-! The sums that are reported. Amounts are added one after the other, and each partial sum has to
be a decimal: where none stands for it exactly it is rounded, and the sum is off without an error.
An overflow is reported just if a partial sum is too large even as a whole number. -/
namespace Bookkeeping

namespace Decimal

/-- What becomes of a sum when more terms are added to it one by one. -/
inductive Tally : Decimal → List Decimal → Option Decimal → Prop where
  | done (acc : Decimal) : Tally acc [] (some acc)
  | outgrown {acc d : Decimal} {ds : List Decimal}
      (h : twoTo 96 - 1 / 2 ≤ |acc.value + d.value|) : Tally acc (d :: ds) none
  | added {acc d acc' : Decimal} {ds : List Decimal} {out : Option Decimal}
      (h : |acc.value + d.value| < twoTo 96 - 1 / 2) (hr : acc'.Rounds (acc.value + d.value))
      (rest : Tally acc' ds out) : Tally acc (d :: ds) out

variable {acc d : Decimal} {ds : List Decimal} {out : Option Decimal}

theorem tally_foldlM (acc : Decimal) (ds : List Decimal) : Tally acc ds (ds.foldlM add acc) := by
  induction ds generalizing acc with
  | nil => exact .done acc
  | cons d ds ih =>
    rw [List.foldlM_cons]
    rcases add_cases acc d with ⟨hadd, hlarge⟩ | ⟨acc', hadd, hsmall, hr⟩
    · rw [hadd]
      exact .outgrown hlarge
    · rw [hadd]
      exact .added hsmall hr (ih acc')

theorem tally_sum (ds : List Decimal) : Tally zero ds (sum ds) := tally_foldlM zero ds

/-- The number that decimals add up to. -/
def total (ds : List Decimal) : ℚ := (ds.map value).sum

theorem total_cons (d : Decimal) (ds : List Decimal) : total (d :: ds) = d.value + total ds :=
  List.sum_cons

/-- Every partial sum after a number is one that some decimal stands for, until one is too large. -/
def Stateable : ℚ → List Decimal → Prop
  | _, [] => True
  | x, d :: ds =>
    twoTo 96 - 1 / 2 ≤ |x + d.value| ∨
      (∃ e : Decimal, e.value = x + d.value) ∧ Stateable (x + d.value) ds

theorem stateable_cons_of_large (ds : List Decimal)
    (h : twoTo 96 - 1 / 2 ≤ |acc.value + d.value|) : Stateable acc.value (d :: ds) := .inl h

theorem stateable_cons_of_small (h : |acc.value + d.value| < twoTo 96 - 1 / 2) :
    Stateable acc.value (d :: ds) ↔
      (∃ e : Decimal, e.value = acc.value + d.value) ∧ Stateable (acc.value + d.value) ds :=
  or_iff_right (not_le.2 h)

/-- A sum and all sums of fewer of its terms are exact, as far as there are any, just if all partial
sums can be. -/
theorem stateable_iff (acc : Decimal) (ds : List Decimal) :
    Stateable acc.value ds ↔ ∀ k d, (ds.take k).foldlM add acc = some d →
      d.value = acc.value + total (ds.take k) := by
  induction ds generalizing acc with
  | nil => simp [Stateable, total]
  | cons d ds ih =>
    have hnone : ∀ d', ((d :: ds).take 0).foldlM add acc = some d' →
        d'.value = acc.value + total ((d :: ds).take 0) := by simp [total]
    have hsucc (k : Nat) : ((d :: ds).take (k + 1)).foldlM add acc =
        (acc.add d).bind ((ds.take k).foldlM add) := List.foldlM_cons
    rcases add_cases acc d with ⟨hadd, hlarge⟩ | ⟨acc', hadd, hsmall, hr⟩
    · refine iff_of_true (stateable_cons_of_large ds hlarge) fun k d' hsum => ?_
      cases k with
      | zero => exact hnone d' hsum
      | succ k =>
        rw [hsucc, hadd] at hsum
        cases hsum
    · rw [stateable_cons_of_small hsmall]
      constructor
      · rintro ⟨⟨e, he⟩, hrest⟩ k d' hsum
        have hexact : acc'.value = acc.value + d.value := (he ▸ hr).exact.trans he
        cases k with
        | zero => exact hnone d' hsum
        | succ k =>
          rw [hsucc, hadd] at hsum
          rw [← hexact] at hrest
          rw [(ih acc').1 hrest k d' hsum, hexact, List.take_succ_cons, total_cons, add_assoc]
      · intro hall
        -- the sum with one term more is exact, and all others are sums that start from it
        have hexact : acc'.value = acc.value + d.value := by
          have hone := hall 1 acc' (by rw [hsucc, hadd]; simp)
          simpa [total] using hone
        refine ⟨⟨acc', hexact⟩, hexact ▸ (ih acc').2 fun k d' hsum => ?_⟩
        have hmore := hall (k + 1) d' (by rw [hsucc, hadd]; exact hsum)
        rw [hmore, hexact, List.take_succ_cons, total_cons, add_assoc]

theorem Rounds.abs_sub_le {x : ℚ} (h : d.Rounds x) : |d.value - x| ≤ 1 / 2 :=
  calc |d.value - x| ≤ |d.value - x| * tenTo d.scale := le_mul_tenTo (abs_nonneg _) _
    _ ≤ 1 / 2 := h.near

/-- A sum is off by half for each of its terms at most. -/
theorem Tally.drift (h : Tally acc ds (some d)) :
    |d.value - (acc.value + total ds)| ≤ ds.length / 2 := by
  generalize hout : some d = out at h
  induction h with
  | done acc =>
    cases hout
    simp [total]
  | outgrown => cases hout
  | @added acc d' acc' ds out hsmall hr rest ih =>
    have hrest := ih hout
    have hsplit : d.value - (acc.value + total (d' :: ds)) =
        (d.value - (acc'.value + total ds)) + (acc'.value - (acc.value + d'.value)) := by
      rw [total_cons]
      ring
    calc |d.value - (acc.value + total (d' :: ds))|
        ≤ |d.value - (acc'.value + total ds)| + |acc'.value - (acc.value + d'.value)| := by
          rw [hsplit]
          exact abs_add_le _ _
      _ ≤ ds.length / 2 + 1 / 2 := add_le_add hrest hr.abs_sub_le
      _ = (d' :: ds).length / 2 := by
          rw [List.length_cons]
          push_cast
          ring

end Decimal

/-- The exact sum, or the overflow that stands in its place. -/
def Exact (amounts : List Decimal) (overflow : Error) (answer : Except Error Decimal) : Prop :=
  (∃ d, answer = .ok d ∧ d.value = Decimal.total amounts) ∨ answer = .error overflow

/-- An answer that gives the sum of some amounts as far as their tally goes. -/
structure Reports (amounts : List Decimal) (overflow : Error) (answer : Except Error Decimal) :
    Prop where
  tally : Decimal.Tally .zero amounts answer.toOption
  error : ∀ error, answer = .error error → error = overflow
  exact : Decimal.Stateable 0 amounts → Exact amounts overflow answer
  drift : ∀ d, answer = .ok d → |d.value - Decimal.total amounts| ≤ amounts.length / 2

variable {amounts : List Decimal} {out : Option Decimal} {b : Book}

def answerOf (overflow : Error) (out : Option Decimal) : Except Error Decimal :=
  out.elim (.error overflow) .ok

theorem exact_answerOf {overflow : Error} : Exact amounts overflow (answerOf overflow out) ↔
    ∀ d, out = some d → d.value = Decimal.total amounts := by
  cases out <;> simp [Exact, answerOf]

theorem value_zero : Decimal.zero.value = 0 := Decimal.value_of_isZero rfl

theorem reports_answerOf (hsum : Decimal.sum amounts = out) (overflow : Error) :
    Reports amounts overflow (answerOf overflow out) := by
  have htally := Decimal.tally_sum amounts
  rw [hsum] at htally
  have hexact (h : Decimal.Stateable 0 amounts) :
      Exact amounts overflow (answerOf overflow out) := by
    rw [← value_zero, Decimal.stateable_iff] at h
    refine exact_answerOf.2 fun d hd => ?_
    have hall := h amounts.length d (by rw [List.take_length, ← hd, ← hsum]; rfl)
    rwa [value_zero, zero_add, List.take_length] at hall
  cases out with
  | none => exact ⟨htally, fun _ h => (Except.error.inj h).symm, hexact, nofun⟩
  | some d =>
    refine ⟨htally, nofun, hexact, fun d' hd => ?_⟩
    cases hd
    simpa [value_zero] using htally.drift

theorem exact_take_iff {overflow : Error} :
    (∀ k, Exact (amounts.take k) overflow
      (answerOf overflow (Decimal.sum (amounts.take k)))) ↔ Decimal.Stateable 0 amounts := by
  have h := Decimal.stateable_iff .zero amounts
  simp only [value_zero, zero_add] at h
  simp only [exact_answerOf, h]
  rfl

theorem accountSum_eq (account : String) (es : List Entry) : accountSum account es =
    answerOf (.overflow "balance" (some account)) (Decimal.sum (es.map (·.amount))) := by
  unfold accountSum
  cases Decimal.sum (es.map (·.amount)) <;> rfl

theorem ledgerSum_eq (es : List Entry) : ledgerSum es =
    answerOf (.overflow "trial balance" none) (Decimal.sum (es.map (·.amount))) := by
  unfold ledgerSum
  cases Decimal.sum (es.map (·.amount)) <;> rfl

theorem reports_accountSum (account : String) (es : List Entry) :
    Reports (es.map (·.amount)) (.overflow "balance" (some account)) (accountSum account es) := by
  rw [accountSum_eq]
  exact reports_answerOf rfl _

theorem reports_ledgerSum (es : List Entry) :
    Reports (es.map (·.amount)) (.overflow "trial balance" none) (ledgerSum es) := by
  rw [ledgerSum_eq]
  exact reports_answerOf rfl _

/-- An answer that lists the sums of all accounts as far as their tallies go, or has an overflow of
one of them. -/
inductive Lists (b : Book) : Except Error (List (String × Decimal)) → Prop where
  | listed {bs : List (String × Decimal)} (hascending : Ascending bs)
      (haccounts : ∀ a, a ∈ bs.map (·.1) ↔ a ∈ b.entries.map (·.account))
      (hsums : ∀ c ∈ bs, Reports ((b.entriesOf c.1).map (·.amount))
        (.overflow "balance" (some c.1)) (.ok c.2)) : Lists b (.ok bs)
  | failed {a : String} (hsum : Reports ((b.entriesOf a).map (·.amount))
      (.overflow "balance" (some a)) (.error (.overflow "balance" (some a)))) :
      Lists b (.error (.overflow "balance" (some a)))

theorem lists_balances (b : Book) : Lists b b.balances := by
  unfold Book.balances
  rcases balancesFrom_cases b.entries ascending_nil with
    ⟨bs, hok, hascending, haccounts, hsums⟩ | ⟨a, herror, hnone⟩
  · rw [hok]
    refine .listed hascending (by simpa using haccounts) fun c hc => ?_
    have hsum := hsums c.1
    rw [hascending.lookup_of_mem hc] at hsum
    exact reports_answerOf hsum _
  · rw [herror]
    exact .failed (reports_answerOf hnone _)

/-- Every sum that is reported is added up term by term, rounded where it must be, and off by half
for each of its terms at most; it is an overflow just if a partial sum is too large. The sums of an
account's first few entries, as those of a ledger's, are exact or overflows, all of them, just if
every partial sum is a number that some decimal stands for, until one is too large. -/
theorem sums_rounded (account : String) (es : List Entry) (b : Book) :
    Reports (es.map (·.amount)) (.overflow "balance" (some account)) (accountSum account es) ∧
    Reports (es.map (·.amount)) (.overflow "trial balance" none) (ledgerSum es) ∧
    Reports ((b.entriesOf account).map (·.amount)) (.overflow "balance" (some account))
      (b.balance account) ∧
    Reports (b.entries.map (·.amount)) (.overflow "trial balance" none) b.trialBalance ∧
    Lists b b.balances ∧
    ((∀ k, Exact ((es.take k).map (·.amount)) (.overflow "balance" (some account))
        (accountSum account (es.take k))) ↔ Decimal.Stateable 0 (es.map (·.amount))) ∧
    ((∀ k, Exact ((es.take k).map (·.amount)) (.overflow "trial balance" none)
        (ledgerSum (es.take k))) ↔ Decimal.Stateable 0 (es.map (·.amount))) := by
  refine ⟨reports_accountSum account es, reports_ledgerSum es, reports_accountSum account _,
    reports_ledgerSum _, lists_balances b, ?_, ?_⟩
  · simp only [accountSum_eq, List.map_take]
    exact exact_take_iff
  · simp only [ledgerSum_eq, List.map_take]
    exact exact_take_iff

def lossy : List Entry :=
  [⟨.ofNat 0, "a", { Decimal.zero with coefficient := twoTo 96 - 1, coefficient_lt := by decide },
      .epoch⟩,
    ⟨.ofNat 1, "a", ⟨false, 125, 3, by decide, by decide⟩, .epoch⟩]

theorem sums_lossy : ∃ d, accountSum "a" lossy = .ok d ∧ ledgerSum lossy = .ok d ∧
    d.value ≠ (lossy.map (·.amount.value)).sum := by
  refine ⟨⟨false, twoTo 96 - 1, 0, by decide, by decide⟩, by decide +kernel, by decide +kernel, ?_⟩
  norm_num [lossy, Decimal.zero, Decimal.value, Decimal.signed, tenTo]

end Bookkeeping
