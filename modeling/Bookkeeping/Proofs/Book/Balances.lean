import Mathlib.Data.List.Nodup
import Mathlib.Data.String.Basic
import Bookkeeping.Book

/-! The balances of all accounts in one pass over the entries: each account's is the sum of its own
entries in their order, whatever entries of other accounts come between them. -/
namespace Bookkeeping

/-- Each account once, in ascending order. -/
def Ascending (bs : List (String × Decimal)) : Prop := (bs.map (·.1)).Pairwise (· < ·)

variable {bs : List (String × Decimal)} {a b : String} {d : Decimal} {e : Entry}

theorem ascending_nil : Ascending [] := List.Pairwise.nil

theorem ascending_cons {b : String × Decimal} :
    Ascending (b :: bs) ↔ (∀ c ∈ bs.map (·.1), b.1 < c) ∧ Ascending bs := List.pairwise_cons

theorem Ascending.nodup (h : Ascending bs) : (bs.map (·.1)).Nodup := h.imp ne_of_lt

theorem lookup_cons_eq (c : String × Decimal) (bs : List (String × Decimal)) (a : String) :
    (c :: bs).lookup a = if a = c.1 then some c.2 else bs.lookup a := by
  obtain ⟨account, d⟩ := c
  rw [List.lookup_cons]
  by_cases ha : a = account
  · simp [ha]
  · simp [ha, beq_eq_false_iff_ne.2 ha]

theorem lookup_eq_none_of_lt (h : ∀ c ∈ bs.map (·.1), a < c) : bs.lookup a = none := by
  rw [List.lookup_eq_none_iff]
  intro c hc
  exact bne_iff_ne.2 (ne_of_lt (h c.1 (List.mem_map_of_mem hc)))

theorem Ascending.lookup_of_mem (h : Ascending bs) {b : String × Decimal} (hb : b ∈ bs) :
    bs.lookup b.1 = some b.2 := by
  induction bs with
  | nil => cases hb
  | cons c bs ih =>
    obtain ⟨hlt, hbs⟩ := ascending_cons.1 h
    rw [lookup_cons_eq]
    cases hb with
    | head => exact if_pos rfl
    | tail _ hb =>
      have hne : b.1 ≠ c.1 := (hlt b.1 (List.mem_map_of_mem hb)).ne'
      rw [if_neg hne, ih hbs hb]

theorem mem_accounts_setBalance :
    b ∈ (setBalance a d bs).map (·.1) ↔ b = a ∨ b ∈ bs.map (·.1) := by
  induction bs with
  | nil => simp [setBalance]
  | cons c bs ih =>
    unfold setBalance
    split
    · next hc => simp [hc]
    · split
      · simp
      · rw [List.map_cons, List.mem_cons, ih, List.map_cons, List.mem_cons, or_left_comm]

theorem Ascending.setBalance (h : Ascending bs) (a : String) (d : Decimal) :
    Ascending (setBalance a d bs) := by
  induction bs with
  | nil => simp [Bookkeeping.setBalance, Ascending]
  | cons c bs ih =>
    obtain ⟨hlt, hbs⟩ := ascending_cons.1 h
    unfold Bookkeeping.setBalance
    split
    · next hc => exact ascending_cons.2 ⟨hc ▸ hlt, hbs⟩
    · next hne =>
      split
      · next hac =>
        refine ascending_cons.2 ⟨fun x hx => ?_, h⟩
        cases hx with
        | head => exact hac
        | tail _ hx => exact hac.trans (hlt x hx)
      · next hac =>
        refine ascending_cons.2 ⟨fun x hx => ?_, ih hbs⟩
        rw [mem_accounts_setBalance] at hx
        cases hx with
        | inl hx => exact hx ▸ lt_of_le_of_ne (not_lt.1 hac) hne
        | inr hx => exact hlt x hx

theorem lookup_setBalance :
    (setBalance a d bs).lookup b = if b = a then some d else bs.lookup b := by
  induction bs with
  | nil => rw [setBalance, lookup_cons_eq]
  | cons c bs ih =>
    unfold setBalance
    split
    · next hc => simp only [lookup_cons_eq, hc]; split <;> rfl
    · next hne =>
      split
      · rw [lookup_cons_eq]
      · rw [lookup_cons_eq, lookup_cons_eq, ih]
        by_cases hb : b = c.1
        · rw [if_pos hb, if_pos hb, if_neg (hb ▸ hne)]
        · rw [if_neg hb, if_neg hb]

theorem addEntry_eq (h : Ascending bs) (e : Entry) :
    addEntry e bs =
      (((bs.lookup e.account).getD .zero).add e.amount).map (setBalance e.account · bs) := by
  induction bs with
  | nil => rfl
  | cons c bs ih =>
    obtain ⟨hlt, hbs⟩ := ascending_cons.1 h
    unfold addEntry setBalance
    rw [lookup_cons_eq]
    by_cases hc : e.account = c.1
    · simp [hc]
    · simp only [hc, Ne.symm hc, if_false]
      by_cases hac : e.account < c.1
      · have hnone : bs.lookup e.account = none :=
          lookup_eq_none_of_lt fun x hx => hac.trans (hlt x hx)
        simp [hac, hnone]
      · simp only [hac, if_false, ih hbs, Option.map_map]
        rfl

/-- The pass over all entries comes to what each account's entries add up to after what it has, or
it ends at an account whose entries do not add up. -/
theorem balancesFrom_cases (es : List Entry) (hbs : Ascending bs) :
    (∃ bs', balancesFrom bs es = .ok bs' ∧ Ascending bs' ∧
      (∀ a, a ∈ bs'.map (·.1) ↔ a ∈ bs.map (·.1) ∨ a ∈ es.map (·.account)) ∧
      ∀ a, ((es.filter (·.account == a)).map (·.amount)).foldlM Decimal.add
        ((bs.lookup a).getD .zero) = some ((bs'.lookup a).getD .zero)) ∨
    ∃ a, balancesFrom bs es = .error (.overflow "balance" (some a)) ∧
      ((es.filter (·.account == a)).map (·.amount)).foldlM Decimal.add
        ((bs.lookup a).getD .zero) = none := by
  induction es generalizing bs with
  | nil => exact .inl ⟨bs, rfl, hbs, by simp, fun a => rfl⟩
  | cons e es ih =>
    have hentry := addEntry_eq hbs e
    have hfirst {a : String} (ha : a = e.account) :
        (((e :: es).filter (·.account == a)).map (·.amount)) =
          e.amount :: (es.filter (·.account == a)).map (·.amount) := by
      rw [List.filter_cons_of_pos (by simp [ha]), List.map_cons]
    have hother {a : String} (ha : a ≠ e.account) :
        (e :: es).filter (·.account == a) = es.filter (·.account == a) :=
      List.filter_cons_of_neg (by simpa using Ne.symm ha)
    cases hadd : ((bs.lookup e.account).getD .zero).add e.amount with
    | none =>
      rw [hadd] at hentry
      refine .inr ⟨e.account, by rw [balancesFrom, hentry]; rfl, ?_⟩
      rw [hfirst rfl, List.foldlM_cons, hadd]
      rfl
    | some d =>
      rw [hadd] at hentry
      have hpass : balancesFrom bs (e :: es) = balancesFrom (setBalance e.account d bs) es := by
        rw [balancesFrom, hentry]
        rfl
      -- what the rest adds to the new balances, all entries add to the old ones
      have hsum (a : String) : (((e :: es).filter (·.account == a)).map (·.amount)).foldlM
          Decimal.add ((bs.lookup a).getD .zero) =
            ((es.filter (·.account == a)).map (·.amount)).foldlM Decimal.add
              (((setBalance e.account d bs).lookup a).getD .zero) := by
        rw [lookup_setBalance]
        by_cases ha : a = e.account
        · rw [hfirst ha, List.foldlM_cons, if_pos ha, ha, hadd]
          rfl
        · rw [hother ha, if_neg ha]
      simp only [hpass, hsum]
      refine (ih (hbs.setBalance e.account d)).imp ?_ id
      rintro ⟨bs', hok, hascending, haccounts, hsums⟩
      refine ⟨bs', hok, hascending, fun a => ?_, hsums⟩
      rw [haccounts, mem_accounts_setBalance, List.map_cons, List.mem_cons]
      tauto

/-- If every account's entries add up one after the other to what it has, the pass over all entries
comes to these sums. -/
theorem balancesFrom_of_sums {es : List Entry} (hbs : Ascending bs) {sums : String → Decimal}
    (hsums : ∀ a, ((es.filter (·.account == a)).map (·.amount)).foldlM Decimal.add
      ((bs.lookup a).getD .zero) = some (sums a)) :
    ∃ bs', balancesFrom bs es = .ok bs' ∧ Ascending bs' ∧
      (∀ a, a ∈ bs'.map (·.1) ↔ a ∈ bs.map (·.1) ∨ a ∈ es.map (·.account)) ∧
      ∀ a, (bs'.lookup a).getD .zero = sums a := by
  rcases balancesFrom_cases es hbs with ⟨bs', hok, hascending, haccounts, hsums'⟩ | ⟨a, -, hnone⟩
  · exact ⟨bs', hok, hascending, haccounts, fun a =>
      Option.some.inj ((hsums' a).symm.trans (hsums a))⟩
  · rw [hsums a] at hnone
    cases hnone

namespace Book

variable {error : Error}

theorem balance_eq_ok_iff {b : Book} :
    b.balance a = .ok d ↔ Decimal.sum ((b.entriesOf a).map (·.amount)) = some d := by
  unfold balance accountSum
  cases Decimal.sum ((b.entriesOf a).map (·.amount)) <;> simp

theorem balance_eq_error_iff {b : Book} : b.balance a = .error error ↔
    Decimal.sum ((b.entriesOf a).map (·.amount)) = none ∧ error = .overflow "balance" (some a) := by
  unfold balance accountSum
  cases Decimal.sum ((b.entriesOf a).map (·.amount)) <;> simp [eq_comm]

theorem mem_accounts_of_overflow {b : Book} (h : b.balance a = .error error) :
    a ∈ b.entries.map (·.account) := by
  by_contra hnone
  have hempty : b.entriesOf a = [] := by
    refine List.filter_eq_nil_iff.2 fun e he hea => hnone ?_
    exact beq_iff_eq.1 hea ▸ List.mem_map_of_mem he
  rw [balance_eq_error_iff, hempty] at h
  cases h.1

/-- All balances can be had at once just if each can be had by itself. They are then those of the
accounts with entries, in ascending order, each the very decimal that it is by itself; otherwise the
answer is the overflow of an account whose own balance has it. -/
theorem balances_each (b : Book) :
    ((∃ bs, b.balances = .ok bs) ↔ ∀ a, ∃ d, b.balance a = .ok d) ∧
    (∀ bs, b.balances = .ok bs → Ascending bs ∧
      (∀ a, a ∈ bs.map (·.1) ↔ a ∈ b.entries.map (·.account)) ∧
      ∀ c ∈ bs, b.balance c.1 = .ok c.2) ∧
    ∀ error, b.balances = .error error →
      ∃ a ∈ b.entries.map (·.account), error = .overflow "balance" (some a) ∧
        b.balance a = .error error := by
  unfold balances
  rcases balancesFrom_cases b.entries ascending_nil with
    ⟨bs, hok, hascending, haccounts, hsums⟩ | ⟨a, herror, hnone⟩
  · rw [hok]
    have heach (a : String) : b.balance a = .ok ((bs.lookup a).getD .zero) :=
      balance_eq_ok_iff.2 (hsums a)
    refine ⟨⟨fun _ a => ⟨_, heach a⟩, fun _ => ⟨bs, rfl⟩⟩, fun bs' hbs' => ?_, nofun⟩
    cases hbs'
    refine ⟨hascending, by simpa using haccounts, fun c hc => ?_⟩
    rw [heach, hascending.lookup_of_mem hc, Option.getD_some]
  · rw [herror]
    have hoverflow : b.balance a = .error (.overflow "balance" (some a)) :=
      balance_eq_error_iff.2 ⟨hnone, rfl⟩
    refine ⟨⟨nofun, fun hall => ?_⟩, nofun, fun error herror' => ?_⟩
    · obtain ⟨d, hd⟩ := hall a
      rw [hoverflow] at hd
      cases hd
    · cases herror'
      exact ⟨a, mem_accounts_of_overflow hoverflow, rfl, hoverflow⟩

end Book

end Bookkeeping
