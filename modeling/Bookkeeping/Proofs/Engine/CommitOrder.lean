import Bookkeeping.Proofs.Engine.Exclusion

/-! The order in which transactions are committed where saves take their time. What a run puts into
the book belongs to the postings that end, or are to end, as posted; on each account the rows stand
in the order in which the postings that own them got its lock. -/
namespace Bookkeeping

def Transaction.touches (t : Transaction) (account : String) : Bool :=
  t.fromAccount == account || t.toAccount == account

namespace Office

def Event.index? : Event → Option Nat
  | .hall _ => none
  | .submit _ i | .answer _ i | .announce i _ | .release i => some i

/-- What an event puts at the end of a list, each piece with the task whose save the event is a
part of. -/
def puts {α : Type} (list : Office → List α) (o : Office) (event : Event) : List (Option Nat × α) :=
  ((list (o.step event)).drop (list o).length).map (event.index?, ·)

def added {α : Type} (list : Office → List α) (o : Office) : List Event → List (Option Nat × α)
  | [] => []
  | event :: events => puts list o event ++ added list (o.step event) events

def stored (o : Office) : List Transaction := o.engine.book.transactions

/-- The transactions that a run puts into the book, in their order. -/
def rows (o : Office) (events : List Event) : List (Option Nat × Transaction) :=
  added stored o events

variable {o : Office} {event : Event} {i j : Nat} {t : Task} {tx : Transaction}

theorem puts_eq_nil {α : Type} {list : Office → List α}
    (h : (list (o.step event)).length ≤ (list o).length) : puts list o event = [] := by
  rw [puts, List.drop_eq_nil_of_le h, List.map_nil]

theorem puts_eq_of_append {α : Type} {list : Office → List α} {new : List α}
    (h : list (o.step event) = list o ++ new) :
    puts list o event = new.map (event.index?, ·) := by
  rw [puts, h, List.drop_left]

/-- What has become of a posting by its task and its save, whether or not it has been told. -/
def fateOf (task : Option Task) : Option SaveStage → Option Outcome
  | some (.begun _) => none
  | some (.answered tx answer) => some (.ofSave tx answer)
  | some (.settled outcome) => some outcome
  | none => task.bind (·.outcome?)

def fate? (o : Office) (i : Nat) : Option Outcome := fateOf o.engine.tasks[i]? (o.saves i)

theorem fateOf_open {task : Option Task} {t : Task} (htask : task = some t)
    (hopen : t.isFinished = false) : fateOf task none = none := by
  rw [htask, fateOf, Option.bind_some, Task.outcome?]
  cases hstage : t.stage with
  | finished outcome => simp [Task.isFinished, hstage] at hopen
  | _ => rfl

theorem Progressed.fateOf {e : Engine} {j : Nat} {task task' : Option Task}
    {save save' : Option SaveStage} (h : Progressed e j task save task' save') :
    (∀ tx, fateOf task' save' = some (.posted tx) ↔ fateOf task save = some (.posted tx)) ∨
      ∃ tx, save = some (.begun tx) ∧ save' = some (.answered tx (.ok .saved)) := by
  cases h with
  | still => exact .inl fun tx => Iff.rfl
  | came r hnew =>
    subst hnew
    cases save with
    | none => exact .inl fun tx => by simp [Office.fateOf, Task.outcome?]
    | some stage => cases stage <;> exact .inl fun tx => Iff.rfl
  | onward htask hfree honward =>
    subst hfree
    rw [fateOf_open htask honward.opened]
    refine .inl fun tx => ⟨fun h => ?_, fun h => by cases h⟩
    rw [Office.fateOf, Option.bind_some, Task.outcome?_eq_some] at h
    exact absurd h (honward.unposted tx)
  | @submitted t _ _ htask hstage hfree =>
    have hopen : t.isFinished = false := by simp [Task.isFinished, hstage]
    subst hfree
    rw [fateOf_open htask hopen]
    exact .inl fun tx => Iff.rfl
  | panicked hbegun =>
    subst hbegun
    exact .inl fun tx => by simp [Office.fateOf]
  | answered hbegun answer =>
    subst hbegun
    cases answer with
    | error error => exact .inl fun tx => by simp [Office.fateOf, Outcome.ofSave]
    | ok outcome =>
      cases outcome with
      | saved => exact .inr ⟨_, rfl, rfl⟩
      | duplicateKey => exact .inl fun tx => by simp [Office.fateOf, Outcome.ofSave]
  | announced hanswered =>
    subst hanswered
    exact .inl fun tx => Iff.rfl
  | released htask hsettled =>
    subst hsettled
    exact .inl fun tx => by simp [Office.fateOf, Task.outcome?]

/-- What an event makes of the book and of the fates: nothing is committed, or the transaction of
one save that was begun. -/
inductive Committed (o : Office) :
    Event → Office → List (Option Nat × Transaction) → Prop where
  | nothing {event : Event} {o' : Office} (hbook : o'.engine.book = o.engine.book)
    (hfate : ∀ i tx, o'.fate? i = some (.posted tx) ↔ o.fate? i = some (.posted tx)) :
    Committed o event o' []
  | one {s : Surroundings} {i : Nat} {tx : Transaction} {o' : Office}
    (hbegun : o.saves i = some (.begun tx))
    (hsaved : o'.saves i = some (.answered tx (.ok .saved)))
    (hbook : o'.engine.book = ⟨o.engine.book.transactions ++ [tx],
      o.engine.book.entries ++ tx.posting.entries, o.engine.book.keys ++ [tx.key]⟩)
    (hfate : ∀ j tx', o'.fate? j = some (.posted tx') ↔
      j = i ∧ tx' = tx ∨ o.fate? j = some (.posted tx')) :
    Committed o (.answer s i) o' [(some i, tx)]

theorem fate?_step (h : ∀ j tx, o.saves j = some (.begun tx) →
    (o.step event).saves j ≠ some (.answered tx (.ok .saved))) (i : Nat) (tx : Transaction) :
    (o.step event).fate? i = some (.posted tx) ↔ o.fate? i = some (.posted tx) := by
  cases (o.step_progressed event i).fateOf with
  | inl hsame => exact hsame tx
  | inr hsaved =>
    obtain ⟨tx', hbegun, hanswered⟩ := hsaved
    exact absurd hanswered (h i tx' hbegun)

theorem step_committed (o : Office) (event : Event) :
    Committed o event (o.step event) (puts stored o event) := by
  have hputs (more : List Transaction)
      (h : (o.step event).stored = o.stored ++ more) :
      puts stored o event = more.map (event.index?, ·) := puts_eq_of_append h
  -- nothing is committed where the book stays and no save is answered that it is saved
  have hnothing (hbook : (o.step event).engine.book = o.engine.book)
      (h : ∀ j tx, o.saves j = some (.begun tx) →
        (o.step event).saves j ≠ some (.answered tx (.ok .saved))) :
      Committed o event (o.step event) (puts stored o event) := by
    rw [hputs [] (by simp [stored, hbook]), List.map_nil]
    exact .nothing hbook (fate?_step h)
  have hmoved := o.step_moved event
  have hprogressed := o.step_progressed event
  generalize puts stored o event = new at hputs hnothing ⊢
  generalize o.step event = o' at hmoved hprogressed hputs hnothing ⊢
  have hsame (hbook : o'.engine.book = o.engine.book) (hsaves : o'.saves = o.saves) :
      Committed o event o' new :=
    hnothing hbook fun j tx hbegun => by rw [hsaves, hbegun]; simp
  have hput {e : Engine} {i : Nat} {stage : Option SaveStage} (ho' : o' = o.put e i stage)
      (hbook : e.book = o.engine.book) (hstage : ∀ tx, stage ≠ some (.answered tx (.ok .saved))) :
      Committed o event o' new := by
    refine hnothing (ho' ▸ hbook) fun j tx hbegun => ?_
    rw [ho', saves_put]
    split
    · exact hstage tx
    · rw [hbegun]
      simp
  cases hmoved with
  | idle => exact hsame rfl rfl
  | rested hrest => exact hsame (congrArg Store.book hrest.store) hrest.saves
  | started r hengine hsaves => exact hsame (hengine ▸ rfl) hsaves
  | onward htask hfree honward hsaves => exact hsame (congrArg Store.book honward.store) hsaves
  | submitted htask hstage hfree => exact hput rfl rfl (by simp)
  | panicked hbegun => exact hput rfl rfl (by simp)
  | announced hanswered => exact hput rfl (Engine.book_announce ..) (by simp)
  | released htask hsettled => exact hput rfl (Engine.book_finish ..) (by simp)
  | @answered s i tx hbegun =>
    have hkept := o.engine.save_kept s tx.posting
    generalize o.engine.save s tx.posting = r at hkept hput hprogressed hputs ⊢
    obtain ⟨answer, e⟩ := r
    simp only at hkept hput hprogressed hputs ⊢
    generalize hbook : e.book = book at hkept
    cases hkept with
    | duplicate _ => exact hput rfl hbook (by simp)
    | failed error => exact hput rfl hbook (by simp)
    | saved _ =>
      rw [hputs [tx] (congrArg Book.transactions hbook), List.map_singleton]
      refine .one hbegun (saves_put_self ..) hbook fun j tx' => ?_
      by_cases hj : j = i
      · subst hj
        have hopen : o.fate? j = none := by rw [fate?, hbegun, fateOf]
        rw [hopen, fate?, saves_put_self, fateOf]
        simp [Outcome.ofSave, eq_comm]
      · simp only [hj, false_and, false_or]
        cases (hprogressed j).fateOf with
        | inl hsame => exact hsame tx'
        | inr hsaved =>
          obtain ⟨tx'', hbefore, hafter⟩ := hsaved
          rw [saves_put, if_neg hj, hbefore] at hafter
          cases hafter

/-- The book holds what it held before and the rows of the postings that end, or are to end, as
posted. -/
structure Booked (before : Book) (o : Office) (rows : List (Option Nat × Transaction)) : Prop where
  transactions : o.engine.book.transactions = before.transactions ++ rows.map (·.2)
  entries : o.engine.book.entries = before.entries ++ rows.flatMap (·.2.posting.entries)
  fate : ∀ i tx, (some i, tx) ∈ rows ↔ o.fate? i = some (.posted tx)
  nodup : (rows.map (·.1)).Nodup
  requested : ∀ row ∈ rows, ∃ i r id now, row.1 = some i ∧ o.engine.request? i = some r ∧
    row.2 = r.toTransaction id now

theorem booked_opened {e : Engine} (h : e.Idle) : Booked e.book (opened e) [] where
  transactions := by simp [opened, engine]
  entries := by simp [opened, engine]
  fate i tx := by simp [fate?, opened, engine, h.tasks, fateOf]
  nodup := List.nodup_nil
  requested row hrow := by cases hrow

theorem step_request? {r : PostingRequest} (h : o.engine.request? i = some r) (event : Event) :
    (o.step event).engine.request? i = some r := by
  obtain ⟨t, htask, rfl⟩ := Option.map_eq_some_iff.1 h
  have hprogressed := o.step_progressed event i
  rw [htask] at hprogressed
  unfold Engine.request?
  generalize (o.step event).engine.tasks[i]? = task', o.saves i = save,
    (o.step event).saves i = save' at hprogressed
  cases hprogressed with
  | came r hnew => cases hnew
  | onward ht hfree honward =>
    cases ht
    rfl
  | released ht hsettled =>
    cases ht
    rfl
  | _ => rfl

variable {before : Book} {rows : List (Option Nat × Transaction)}

theorem Booked.notMem_of_begun (h : Booked before o rows) (hbegun : o.saves i = some (.begun tx)) :
    some i ∉ rows.map (·.1) := by
  intro hmem
  obtain ⟨⟨k, tx'⟩, hrow, hk⟩ := List.mem_map.1 hmem
  cases hk
  have hfate := (h.fate i tx').1 hrow
  rw [fate?, hbegun, fateOf] at hfate
  cases hfate

theorem Booked.step (h : Booked before o rows) (hordered : o.Ordered) (event : Event) :
    Booked before (o.step event) (rows ++ puts stored o event) := by
  have hkeeps {i : Nat} {r : PostingRequest} (hr : o.engine.request? i = some r) :
      (o.step event).engine.request? i = some r := step_request? hr event
  have hcommitted := o.step_committed event
  generalize puts stored o event = new at hcommitted ⊢
  generalize o.step event = o' at hcommitted hkeeps ⊢
  have hrequested : ∀ row ∈ rows, ∃ i r id now, row.1 = some i ∧
      o'.engine.request? i = some r ∧ row.2 = r.toTransaction id now := by
    intro row hrow
    obtain ⟨i, r, id, now, hi, hr, htx⟩ := h.requested row hrow
    exact ⟨i, r, id, now, hi, hkeeps hr, htx⟩
  cases hcommitted with
  | nothing hbook hfate =>
    rw [List.append_nil]
    refine ⟨hbook ▸ h.transactions, hbook ▸ h.entries, fun i tx => ?_, h.nodup, hrequested⟩
    rw [hfate, h.fate]
  | @one s i tx _ hbegun hsaved hbook hfate =>
    obtain ⟨t, htask, -, hmade⟩ := hordered.saving i _ hbegun
    obtain ⟨id, now, htx⟩ := hmade tx rfl
    refine ⟨by simp [hbook, h.transactions], by simp [hbook, h.entries], fun j tx' => ?_, ?_, ?_⟩
    · rw [List.mem_append, List.mem_singleton, h.fate, hfate, Prod.mk.injEq,
        Option.some.injEq, or_comm]
    · rw [List.map_append, List.map_singleton]
      exact List.Nodup.append h.nodup (List.nodup_singleton _)
        (List.disjoint_singleton.2 (h.notMem_of_begun hbegun))
    · intro row hrow
      rw [List.mem_append, List.mem_singleton] at hrow
      cases hrow with
      | inl hrow => exact hrequested row hrow
      | inr hrow =>
        subst hrow
        exact ⟨i, t.request, id, now, rfl, hkeeps (Engine.request?_of_task htask), htx⟩

theorem sublist_concat {α : Type} {l m : List α} {x : α} (h : l.Sublist m)
    (hlast : m.getLast? = some x) (hx : x ∉ l) : (l ++ [x]).Sublist m := by
  obtain ⟨first, rfl⟩ := List.getLast?_eq_some_iff.1 hlast
  obtain ⟨l₁, l₂, rfl, hfirst, hlast⟩ := List.sublist_append_iff.1 h
  cases l₂ with
  | nil =>
    rw [List.append_nil]
    exact hfirst.append (List.Sublist.refl _)
  | cons y l₂ =>
    have hy : y = x := List.mem_singleton.1 (hlast.subset List.mem_cons_self)
    subst hy
    exact absurd (List.mem_append_right l₁ List.mem_cons_self) hx

def owners {α : Type} (p : α → Bool) (list : List (Option Nat × α)) : List (Option Nat) :=
  (list.filter (p ·.2)).map (·.1)

@[simp] theorem owners_nil {α : Type} (p : α → Bool) : owners p [] = [] := rfl

@[simp] theorem owners_append {α : Type} (p : α → Bool) (list list' : List (Option Nat × α)) :
    owners p (list ++ list') = owners p list ++ owners p list' := by
  rw [owners, List.filter_append, List.map_append, owners, owners]

theorem owners_singleton {α : Type} (p : α → Bool) (x : Option Nat × α) :
    owners p [x] = if p x.2 then [x.1] else [] := by
  cases hp : p x.2 <;> simp [owners, hp]

theorem mem_owners {α : Type} {p : α → Bool} {list : List (Option Nat × α)} {x : Option Nat} :
    x ∈ owners p list ↔ ∃ v, (x, v) ∈ list ∧ p v = true := by
  simp [owners]

theorem owners_sublist {α : Type} (p : α → Bool) (list : List (Option Nat × α)) :
    (owners p list).Sublist (list.map (·.1)) := List.filter_sublist.map _

theorem mem_accounts_of_touches {a : String} {id : Uuid} {now : Moment}
    (h : (t.request.toTransaction id now).touches a = true) : a ∈ t.accounts := by
  rw [Transaction.touches, Bool.or_eq_true, beq_iff_eq, beq_iff_eq] at h
  exact Task.mem_accounts_iff.2 (h.imp Eq.symm Eq.symm)

/-- The rows on an account belong to postings that got its lock, in the order in which they did. -/
structure InTurn (before : Book) (a : String) (o : Office)
    (rows : List (Option Nat × Transaction)) (served : List Nat) : Prop where
  ordered : o.Ordered
  booked : Booked before o rows
  turns : o.Turns a served
  inOrder : (owners (·.touches a) rows).Sublist (served.map some)

variable {a : String} {served : List Nat}

theorem inTurn_opened {e : Engine} (h : e.Idle) (a : String) :
    InTurn e.book a (opened e) [] [] :=
  ⟨ordered_opened h, booked_opened h, turns_opened h a, List.nil_sublist _⟩

theorem InTurn.step (h : InTurn before a o rows served) (event : Event) :
    InTurn before a (o.step event) (rows ++ puts stored o event)
      (served ++ o.gets a event) := by
  refine ⟨h.ordered.step event, h.booked.step h.ordered event,
    h.turns.step h.ordered.kept event, ?_⟩
  have hmore : (served.map some).Sublist ((served ++ o.gets a event).map some) :=
    (List.sublist_append_left _ _).map some
  refine List.Sublist.trans ?_ hmore
  have hcommitted := o.step_committed event
  generalize puts stored o event = new at hcommitted ⊢
  generalize o.step event = o' at hcommitted
  rw [owners_append]
  cases hcommitted with
  | nothing hbook hfate => simpa using h.inOrder
  | @one s i tx _ hbegun hsaved hbook hfate =>
    rw [owners_singleton]
    cases htouches : tx.touches a with
    | false => simpa using h.inOrder
    | true =>
      obtain ⟨t, htask, -, hmade⟩ := h.ordered.saving i _ hbegun
      obtain ⟨id, now, rfl⟩ := hmade tx rfl
      have ha : a ∈ t.accounts := mem_accounts_of_touches htouches
      have hholder := h.ordered.holder_of_saving hbegun htask ha
      have hlast : (served.map some).getLast? = some (some i) := by
        rw [List.getLast?_map, h.turns.last i hholder, Option.map_some]
      have hfresh : some i ∉ owners (·.touches a) rows := fun hmem =>
        h.booked.notMem_of_begun hbegun ((owners_sublist _ _).subset hmem)
      rw [if_pos rfl]
      exact sublist_concat h.inOrder hlast hfresh

theorem InTurn.after (h : InTurn before a o rows served) (events : List Event) :
    InTurn before a (o.after events) (rows ++ o.rows events) (served ++ o.acquired a events) := by
  induction events generalizing o rows served with
  | nil => simpa [Office.rows, added, acquired] using h
  | cons event events ih =>
    have hrest := ih (h.step event)
    rw [List.append_assoc, List.append_assoc] at hrest
    exact hrest

def entriesOn (a : String) (row : Option Nat × Transaction) : List Entry :=
  row.2.posting.entries.filter (·.account == a)

theorem flatMap_entriesOn (a : String) (rows : List (Option Nat × Transaction)) :
    rows.flatMap (entriesOn a) = (rows.filter (·.2.touches a)).flatMap (entriesOn a) := by
  induction rows with
  | nil => rfl
  | cons row rows ih =>
    rw [List.flatMap_cons, ih, List.filter_cons]
    split
    · rw [List.flatMap_cons]
    · next htouches =>
      have hnone : entriesOn a row = [] := by
        rw [Transaction.touches, Bool.or_eq_true, not_or] at htouches
        simp [entriesOn, Posting.entries, Transaction.posting, Transaction.debit,
          Transaction.credit, htouches]
      rw [hnone, List.nil_append]

theorem Booked.entriesOf (h : Booked before o rows) (a : String) :
    o.engine.book.entriesOf a = before.entriesOf a ++
      (rows.filter (·.2.touches a)).flatMap (entriesOn a) := by
  rw [Book.entriesOf, h.entries, List.filter_append, List.filter_flatMap, Book.entriesOf,
    ← flatMap_entriesOn]
  rfl

/-- Two postings that share an account are never both in their saves, and on every account the
entries are those of its rows, whose postings got the lock of the account in that order, each of
them once. -/
theorem commits_in_turn {e : Engine} (h : e.Idle) (events : List Event) :
    (∀ i j t u a, i ≠ j → ((opened e).after events).saves i ≠ none →
      ((opened e).after events).saves j ≠ none →
      ((opened e).after events).engine.tasks[i]? = some t →
      ((opened e).after events).engine.tasks[j]? = some u →
      (a = t.request.fromAccount ∨ a = t.request.toAccount) →
      a ≠ u.request.fromAccount ∧ a ≠ u.request.toAccount) ∧
    (∀ row ∈ (opened e).rows events, ∃ i r id now, row.1 = some i ∧
      ((opened e).after events).engine.request? i = some r ∧ row.2 = r.toTransaction id now) ∧
    ∀ a, ((opened e).after events).engine.book.entriesOf a = e.book.entriesOf a ++
        (((opened e).rows events).filter (·.2.touches a)).flatMap (entriesOn a) ∧
      ((opened e).acquired a events).Nodup ∧
      (owners (·.touches a) ((opened e).rows events)).Sublist
        (((opened e).acquired a events).map some) := by
  have hend (a : String) : InTurn e.book a ((opened e).after events) ((opened e).rows events)
      ((opened e).acquired a events) := (inTurn_opened h a).after events
  refine ⟨?_, (hend "").booked.requested,
    fun a => ⟨(hend a).booked.entriesOf a, (hend a).turns.nodup, (hend a).inOrder⟩⟩
  intro i j t u a hne hi hj hti htj ha
  obtain ⟨stage, hi⟩ := Option.ne_none_iff_exists'.1 hi
  obtain ⟨stage', hj⟩ := Option.ne_none_iff_exists'.1 hj
  have hfree : a ∉ u.accounts :=
    (hend a).ordered.disjoint hne hi hj hti htj (Task.mem_accounts_iff.2 ha)
  rwa [Task.mem_accounts_iff, not_or] at hfree

/-- One posting is in its save, and two others wait for the account that they share with it; one
more, which shares none with it, is in its save too. -/
def rush : List Event :=
  let steps (n i : Nat) : List Event := List.replicate n (.hall (.move (.step Engine.calm i)))
  let start (a b key : String) : Event := .hall (.move (.start ⟨a, b, .ofWord false 5, key⟩))
  [start "a" "b" "k", start "b" "c" "l", start "c" "b" "m", start "d" "e" "n"] ++ steps 6 0 ++
    [.submit Engine.calm 0] ++ steps 3 1 ++ steps 3 2 ++ steps 6 3 ++ [.submit Engine.calm 3]

/-- After the rush one of those that wait is cancelled, and the other saves when its turn has come. -/
def aftermath : List Event :=
  let steps (n i : Nat) : List Event := List.replicate n (.hall (.move (.step Engine.calm i)))
  let rest (i : Nat) : List Event := [.answer Engine.calm i, .announce i .epoch, .release i]
  [.hall (.move (.cancel 1))] ++ rest 0 ++ steps 4 2 ++ [.submit Engine.calm 2] ++ rest 2 ++ rest 3

theorem commits_in_turn_rush :
    (Engine.inMemory .absent).Idle ∧
      ((opened (Engine.inMemory .absent)).after rush).saves 0 ≠ none ∧
      ((opened (Engine.inMemory .absent)).after rush).saves 3 ≠ none ∧
      "b" ≠ "d" ∧ "b" ≠ "e" ∧
      (opened (Engine.inMemory .absent)).acquired "b" (rush ++ aftermath) = [0, 2] ∧
      owners (·.touches "b") ((opened (Engine.inMemory .absent)).rows (rush ++ aftermath)) =
        [some 0, some 2] ∧
      ((opened (Engine.inMemory .absent)).acquired "b" (rush ++ aftermath)).Nodup ∧
      (owners (·.touches "b")
        ((opened (Engine.inMemory .absent)).rows (rush ++ aftermath))).Sublist
          (((opened (Engine.inMemory .absent)).acquired "b" (rush ++ aftermath)).map some) := by
  have hidle : (Engine.inMemory .absent).Idle := (Engine.Fresh.inMemory .absent).idle
  have hfirst : ((opened (Engine.inMemory .absent)).after rush).saves 0 ≠ none := nofun
  have hother : ((opened (Engine.inMemory .absent)).after rush).saves 3 ≠ none := nofun
  obtain ⟨hfrom, hto⟩ := (commits_in_turn hidle rush).1 0 3
    ⟨⟨"a", "b", .ofWord false 5, "k"⟩, .saving⟩ ⟨⟨"d", "e", .ofWord false 5, "n"⟩, .saving⟩ "b"
    (by decide) hfirst hother (by decide +kernel) (by decide +kernel) (.inr rfl)
  obtain ⟨-, hnodup, horder⟩ := (commits_in_turn hidle (rush ++ aftermath)).2.2 "b"
  exact ⟨hidle, hfirst, hother, hfrom, hto, by decide +kernel, by decide +kernel, hnodup, horder⟩

end Office

end Bookkeeping
