import Bookkeeping.Proofs.Engine.Run

/-! The book of an engine that is only posted to, and that may be opened again on its journal at any
time: one invariant ties the transactions, the entries and the keys together, and the file to them.
-/
namespace Bookkeeping

structure Transaction.Valid (t : Transaction) : Prop where
  amount : t.amount.isPositive = true
  fromAccount : Text.blank t.fromAccount = false
  toAccount : Text.blank t.toAccount = false
  key : Text.blank t.key = false

/-- The rows of a valid transaction. -/
structure Posting.Proper (p : Posting) : Prop where
  rows : p = p.transaction.posting
  valid : p.transaction.Valid

theorem Decimal.isZero_of_isPositive {d : Decimal} (h : d.isPositive = true) :
    d.isZero = false := by
  unfold isPositive at h
  rw [Bool.and_eq_true, Bool.not_eq_true', Bool.not_eq_true'] at h
  exact h.2

theorem Transaction.plain_eq {t : Transaction} (h : t.amount.plain = t.amount) : t.plain = t := by
  rw [plain, h]

theorem Entry.plain_eq {e : Entry} (h : e.amount.plain = e.amount) : e.plain = e := by
  rw [plain, h]

theorem Transaction.amount_debit (t : Transaction) : t.debit.amount = t.amount.negate := rfl

theorem Transaction.amount_credit (t : Transaction) : t.credit.amount = t.amount := rfl

/-- The amounts of a proper posting are not zero, so its line says all there is to say. -/
theorem Posting.Proper.plain_eq {p : Posting} (h : p.Proper) : p.plain = p := by
  have hzero := Decimal.isZero_of_isPositive h.valid.amount
  have hamount : p.transaction.amount.plain = p.transaction.amount := Decimal.plain_eq_self hzero
  have hdebit : p.debit.plain = p.debit := by
    apply Entry.plain_eq
    rw [congrArg Posting.debit h.rows, Transaction.posting, Transaction.amount_debit]
    exact Decimal.plain_eq_self hzero
  have hcredit : p.credit.plain = p.credit := by
    apply Entry.plain_eq
    rw [congrArg Posting.credit h.rows, Transaction.posting, Transaction.amount_credit]
    exact hamount
  rw [plain, Transaction.plain_eq hamount, hdebit, hcredit]

theorem PostingRequest.proper_posting {r : PostingRequest} (hkey : Text.blank r.key = false)
    (hvalid : r.validate = .ok ()) (id : Uuid) (now : Moment) :
    (r.toTransaction id now).posting.Proper := by
  obtain ⟨hamount, hfrom, hto⟩ := validate_eq_ok.1 hvalid
  exact ⟨rfl, hamount, hfrom, hto, hkey⟩

theorem map_plain_of_proper {ps : List Posting} (h : ∀ p ∈ ps, p.Proper) :
    ps.map (·.plain) = ps :=
  (List.map_congr_left (g := id) fun p hp => (h p hp).plain_eq).trans (List.map_id _)

theorem Book.entries_of_proper {ps : List Posting} (h : ∀ p ∈ ps, p.Proper) :
    (of ps).entries = (of ps).transactions.flatMap (·.posting.entries) := by
  simp only [of, List.flatMap_map]
  apply congrArg List.flatten
  apply List.map_congr_left
  intro p hp
  exact congrArg Posting.entries (h p hp).rows

/-- The file of a journal holds the rows, and those of postings that answered that they failed; if
it can be written to, the rows are all it holds. -/
def Store.Backs (store : Store) (ps : List Posting) : Prop :=
  match store with
  | .memory _ => True
  | .journal s file => ∃ more tail, Journal.Holds file (ps ++ more) tail ∧
      (∀ p ∈ more, p.Proper) ∧ (s.broken = false → more = [] ∧ tail = [] ∧ s.AtEnd file)

/-- The book is that of proper postings with different keys, and the file of a journal backs it. -/
structure Store.Sound (store : Store) (ps : List Posting) : Prop where
  book : store.book = Book.of ps
  keys : (ps.map (·.key)).Nodup
  proper : ∀ p ∈ ps, p.Proper
  backs : store.Backs ps

namespace Store.Sound

variable {store : Store} {ps : List Posting} {p : Posting}

theorem notMem_keys (h : store.Sound ps) (hkey : store.book.hasKey p.key = false) :
    p.key ∉ ps.map (·.key) :=
  Book.notMem_of_hasKey (by rw [h.book, Book.of]) hkey

theorem append {store' : Store} (h : store.Sound ps) (hp : p.Proper)
    (hkey : store.book.hasKey p.key = false) (hbook : store'.book = (store.book.insert p).2)
    (hbacks : store'.Backs (ps ++ [p])) : store'.Sound (ps ++ [p]) where
  book := by rw [hbook, Book.insert_of_not_hasKey hkey, Book.of_append_singleton, h.book]
  keys := Book.nodup_keys_append h.keys (h.notMem_keys hkey)
  proper := by
    intro q hq
    rw [List.mem_append, List.mem_singleton] at hq
    cases hq with
    | inl hq => exact h.proper q hq
    | inr hq => exact hq ▸ hp
  backs := hbacks

theorem save (h : store.Sound ps) (device : Journal.Device) (hp : p.Proper) :
    ∃ new, (store.save device p).store.Sound (ps ++ new) := by
  have hstay (h' : (store.save device p).store.Sound ps) :
      ∃ new, (store.save device p).store.Sound (ps ++ new) := ⟨[], by simpa using h'⟩
  cases store with
  | memory book =>
    cases hkey : book.hasKey p.key with
    | true => exact hstay (by simpa [Store.save, Book.insert_of_hasKey hkey] using h)
    | false => exact ⟨[p], h.append hp hkey rfl trivial⟩
  | journal s file =>
    obtain ⟨more, tail, hholds, hmore, hopen⟩ := h.backs
    by_cases hb : s.broken = true
    · exact hstay (by simpa [Store.save, Journal.Store.commit, hb] using h)
    · rw [Bool.not_eq_true] at hb
      obtain ⟨rfl, rfl, hend⟩ := hopen hb
      rw [List.append_nil] at hholds
      have hended := Journal.Store.commit_ended device p hb hend
      simp only [Store.save] at hstay ⊢
      generalize s.commit device file p = r at hended hstay ⊢
      cases hended with
      | known hkey => exact hstay h
      | undone hkey reason => exact hstay h
      | appended hkey =>
        refine ⟨[p], h.append hp hkey rfl ⟨[], [], ?_, by simp, fun _ => ⟨rfl, rfl, ?_, ?_⟩⟩⟩
        · simpa using hholds.append (h.notMem_keys hkey)
        · simp [hend.length]
        · simp [hend.cursor]
      | lost hkey stored cursor error reason =>
        -- the file may have got the whole line, which the book has not: it is one of the `more`
        obtain ⟨tail, hholds'⟩ := hholds.append_take (h.notMem_keys hkey) stored
        refine hstay ⟨h.book, h.keys, h.proper, _, tail, hholds', ?_, by simp⟩
        intro q hq
        rw [Option.mem_toList] at hq
        split at hq
        · cases hq
          exact hp
        · cases hq

end Store.Sound

namespace Engine

/-- The engine is given up, and another is opened on the journal that it leaves. What is only in
memory stays. -/
def restart (e : Engine) (notifier : Notifier) : Engine :=
  match e.store with
  | .memory _ => e
  | .journal _ file =>
    match onJournal notifier .regularFile file with
    | .ok e' => e'
    | .error _ => e

inductive Act where
  | move (m : Move)
  | restart (notifier : Notifier)

def act (e : Engine) : Act → Engine
  | .move m => e.move m
  | .restart notifier => e.restart notifier

def acts (e : Engine) (as : List Act) : Engine := as.foldl act e

theorem acts_append (e : Engine) (as bs : List Act) : e.acts (as ++ bs) = (e.acts as).acts bs :=
  List.foldl_append

end Engine

/-- What is known of a task's request in each of its stages. -/
def Task.Checked (t : Task) : Prop :=
  match t.stage with
  | .preCheck | .finished _ => True
  | .validation => Text.blank t.request.key = false
  | .firstLock | .awaitingFirst | .secondLock | .awaitingSecond | .saving =>
    Text.blank t.request.key = false ∧ t.request.validate = .ok ()

theorem Task.Checked.of_locking {t : Task} (h : t.Checked) (hstage : t.stage.isLocking = true) :
    Text.blank t.request.key = false ∧ t.request.validate = .ok () := by
  unfold Checked at h
  cases ht : t.stage <;> simp_all [Stage.isLocking]

theorem Advance.checked_task {store store' : Store} {t : Task} {stage : Stage}
    (h : Advance store t stage store') (ht : t.Checked) : ({ t with stage } : Task).Checked := by
  cases h with
  | checked _ hkey => exact hkey
  | known _ _ => trivial
  | failed _ => trivial
  | validated hstage hvalid =>
    rw [Task.Checked, hstage] at ht
    exact ⟨ht, hvalid⟩
  | locking hlocking hstage =>
    have hknown := ht.of_locking hlocking
    cases hstage with
    | inl hstage =>
      cases stage <;> first | exact hknown | cases hstage
    | inr hstage =>
      subst hstage
      exact hknown
  | panicked => trivial
  | saved _ _ _ _ => trivial

theorem Task.Checked.proper {t : Task} (h : t.Checked) (hstage : t.stage = .saving) (id : Uuid)
    (now : Moment) : (t.request.toTransaction id now).posting.Proper := by
  rw [Checked, hstage] at h
  exact PostingRequest.proper_posting h.1 h.2 id now

namespace Engine

variable {e : Engine} {ps : List Posting}

/-- The store is sound, and so is what the tasks take for granted. -/
structure Sound (e : Engine) (ps : List Posting) : Prop where
  store : e.store.Sound ps
  tasks : ∀ t ∈ e.tasks, t.Checked

theorem Fresh.sound (h : Fresh e) : e.Sound [] := by
  obtain ⟨htasks, hstore⟩ := h.empty
  refine ⟨?_, by simp [htasks]⟩
  cases hstore with
  | inl hstore =>
    rw [hstore]
    exact ⟨rfl, List.nodup_nil, by simp, trivial⟩
  | inr hstore =>
    rw [hstore]
    exact ⟨rfl, List.nodup_nil, by simp, [], [], .nil, by simp, fun _ => ⟨rfl, rfl, rfl, rfl⟩⟩

theorem Sound.advance {e' : Engine} {i : Nat} {t : Task} {stage : Stage} (h : e.Sound ps)
    (htask : e.tasks[i]? = some t)
    (htasks : e'.tasks = e.tasks.modify i fun t => { t with stage })
    (hadvance : Advance e.store t stage e'.store) : ∃ new, e'.Sound (ps ++ new) := by
  have hchecked : t.Checked := h.tasks t (List.mem_of_getElem? htask)
  have htasks' : ∀ t ∈ e'.tasks, t.Checked :=
    forall_modify_stage h.tasks htask htasks (hadvance.checked_task hchecked)
  suffices ∃ new, e'.store.Sound (ps ++ new) by
    obtain ⟨new, hstore⟩ := this
    exact ⟨new, hstore, htasks'⟩
  have hstay : ∃ new, e.store.Sound (ps ++ new) := ⟨[], by simpa using h.store⟩
  generalize e'.store = store at hadvance
  cases hadvance with
  | saved hstage device id now => exact h.store.save device (hchecked.proper hstage id now)
  | _ => exact hstay

theorem Sound.move (h : e.Sound ps) (m : Move) : ∃ new, (e.move m).Sound (ps ++ new) := by
  have hmoved := e.move_moved m
  generalize e.move m = e' at hmoved
  cases hmoved with
  | still htasks hstore =>
    exact ⟨[], by simpa [hstore] using h.store, by simpa [htasks] using h.tasks⟩
  | started r =>
    refine ⟨[], by simpa using h.store, ?_⟩
    intro t ht
    rw [start, List.mem_append, List.mem_singleton] at ht
    cases ht with
    | inl ht => exact h.tasks t ht
    | inr ht => exact ht ▸ trivial
  | advanced htask hopen htasks hadvance => exact h.advance htask htasks hadvance
  | cancelled htask hopen htasks hstore =>
    refine ⟨[], by simpa [hstore] using h.store, ?_⟩
    exact forall_modify_stage h.tasks htask htasks trivial

/-- Opening a journal again succeeds, and its book holds all rows and no others but those that were
left in the file by postings that answered that they failed. -/
theorem Sound.reopens (h : e.Sound ps) (notifier : Notifier) {s : Journal.Store}
    {file : List UInt8} (hstore : e.store = .journal s file) :
    ∃ e' new, onJournal notifier .regularFile file = .ok e' ∧ e'.Sound (ps ++ new) := by
  have hbacks := h.store.backs
  rw [hstore] at hbacks
  obtain ⟨more, tail, hholds, hmore, -⟩ := hbacks
  have hproper : ∀ p ∈ ps ++ more, p.Proper := by
    intro p hp
    rw [List.mem_append] at hp
    cases hp with
    | inl hp => exact h.store.proper p hp
    | inr hp => exact hmore p hp
  have hok := onJournal_of_holds hholds notifier
  rw [map_plain_of_proper hproper] at hok
  refine ⟨_, more, hok, ⟨rfl, hholds.keys, hproper, ?_⟩, by simp⟩
  exact ⟨[], [], by simpa using hholds.of_lines, by simp, fun _ => ⟨rfl, rfl, rfl, rfl⟩⟩

theorem Sound.act (h : e.Sound ps) (a : Act) : ∃ new, (e.act a).Sound (ps ++ new) := by
  cases a with
  | move m => exact h.move m
  | restart notifier =>
    cases hstore : e.store with
    | memory book => exact ⟨[], by simpa [Engine.act, restart, hstore] using h⟩
    | journal s file =>
      obtain ⟨e', new, hok, h'⟩ := h.reopens notifier hstore
      exact ⟨new, by simpa [Engine.act, restart, hstore, hok] using h'⟩

theorem Sound.acts (h : e.Sound ps) (as : List Act) : ∃ new, (e.acts as).Sound (ps ++ new) := by
  induction as generalizing e ps with
  | nil => exact ⟨[], by simpa [Engine.acts] using h⟩
  | cons a as ih =>
    obtain ⟨new, hnew⟩ := h.act a
    obtain ⟨newer, hnewer⟩ := ih hnew
    exact ⟨new ++ newer, by rwa [List.append_assoc] at hnewer⟩

theorem Sound.keys_eq (h : e.Sound ps) : e.book.keys = e.book.transactions.map (·.key) := by
  rw [Engine.book, h.store.book, Book.keys_of]

theorem Sound.earlier {e' : Engine} {new : List Posting} (h : e.Sound ps)
    (h' : e'.Sound (ps ++ new)) :
    e.book.transactions <+: e'.book.transactions ∧ e.book.entries <+: e'.book.entries := by
  rw [Engine.book, Engine.book, h.store.book, h'.store.book]
  simp [Book.of]

/-- In every state of an engine that is only posted to, restarts included, the keys are different
and those that the book knows, the transactions are valid, the entries are theirs, and what is
stored stays. -/
theorem acts_keep_double_entry (h : Fresh e) (as bs : List Act) :
    ((e.acts as).book.transactions.map (·.key)).Nodup ∧
      (∀ key, (e.acts as).book.hasKey key = true ↔
        key ∈ (e.acts as).book.transactions.map (·.key)) ∧
      (∀ t ∈ (e.acts as).book.transactions, t.Valid) ∧
      (e.acts as).book.entries =
        (e.acts as).book.transactions.flatMap (fun t => [t.debit, t.credit]) ∧
      (e.acts as).book.transactions <+: (e.acts (as ++ bs)).book.transactions ∧
      (e.acts as).book.entries <+: (e.acts (as ++ bs)).book.entries ∧
      ∀ notifier s file, (e.acts as).store = .journal s file →
        ∃ e', onJournal notifier .regularFile file = .ok e' := by
  obtain ⟨ps, hnow⟩ := h.sound.acts as
  rw [List.nil_append] at hnow
  obtain ⟨new, hlater⟩ := hnow.acts bs
  rw [← acts_append] at hlater
  have hbook : (e.acts as).book = Book.of ps := hnow.store.book
  refine ⟨?_, ?_, ?_, ?_, (hnow.earlier hlater).1, (hnow.earlier hlater).2, ?_⟩
  · rw [← hnow.keys_eq, hbook]
    exact hnow.store.keys
  · intro key
    rw [Book.hasKey_iff, hnow.keys_eq]
  · intro t ht
    rw [hbook] at ht
    obtain ⟨p, hp, rfl⟩ := List.mem_map.1 ht
    exact (hnow.store.proper p hp).valid
  · rw [hbook]
    exact Book.entries_of_proper hnow.store.proper
  · intro notifier s file hstore
    obtain ⟨e', _, hok, -⟩ := hnow.reopens notifier hstore
    exact ⟨e', hok⟩

theorem acts_keep_double_entry_race :
    ∃ e, onJournal .absent .regularFile [] = .ok e ∧
      (e.acts (race.map .move)).book.transactions.map (·.key) = ["k"] ∧
      (e.acts (race.map .move)).book.transactions <+:
        (e.acts (race.map .move ++ [.restart .absent])).book.transactions := by
  have hopen := onJournal_nil .absent
  obtain ⟨-, -, -, -, hstays, -⟩ :=
    acts_keep_double_entry (.onJournal hopen) (race.map .move) [.restart .absent]
  exact ⟨_, hopen, by decide +kernel, hstays⟩

end Engine

end Bookkeeping
