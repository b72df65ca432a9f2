import Bookkeeping.Proofs.Engine.Notices

/-! Postings that are cancelled in their saves. Where the store has not started on the transaction
it is never booked; where it has, it may still be booked, once, though nobody waits for it any more
and the locks are free. -/
namespace Bookkeeping

namespace Office

variable {o : Office} {i j : Nat} {outcome : Outcome}

/-- A posting is given up in its save: it ends as cancelled, and nobody waits for the answer. -/
def forsake (o : Office) (i : Nat) : Office :=
  (o.put o.engine i (some (.settled .cancelled))).step (.release i)

theorem Ordered.settled {stage : SaveStage} (h : o.Ordered) (hsave : o.saves i = some stage)
    (outcome : Outcome) : (o.put o.engine i (some (.settled outcome))).Ordered where
  kept := kept_put h.kept rfl rfl
  held := h.held
  saving j stage' hj := by
    rw [saves_put] at hj
    split at hj
    · next hji =>
      obtain ⟨t, htask, hstage, -⟩ := h.saving i stage hsave
      cases hj
      exact ⟨t, hji ▸ htask, hstage, by simp⟩
    · exact h.saving j stage' hj

theorem Ordered.step_outcome? (h : o.Ordered) (hout : o.engine.outcome? i = some outcome)
    (event : Event) : (o.step event).engine.outcome? i = some outcome := by
  have hfree := h.saves_of_outcome hout
  obtain ⟨t, htask, hended⟩ := Option.bind_eq_some_iff.1 hout
  have hprogressed := o.step_progressed event i
  rw [htask, hfree] at hprogressed
  unfold Engine.outcome?
  generalize (o.step event).engine.tasks[i]? = task', (o.step event).saves i = save' at hprogressed
  cases hprogressed with
  | still => exact hended
  | came r hnew => cases hnew
  | onward ht hfree honward =>
    cases ht
    have hopen : t.outcome? = none := by
      have h : fateOf (some t) none = none := fateOf_open rfl honward.opened
      rwa [fateOf, Option.bind_some] at h
    rw [hopen] at hended
    cases hended
  | submitted ht hstage hfree => exact hended
  | panicked hbegun => cases hbegun
  | answered hbegun answer => cases hbegun
  | announced hanswered => cases hanswered
  | released ht hsettled => cases hsettled

/-- What is left of a posting that was given up in its save, and of the others. -/
structure Forsaken (o : Office) (i : Nat) (o' : Office) : Prop where
  ordered : o'.Ordered
  book : o'.engine.book = o.engine.book
  outcome : o'.engine.outcome? i = some .cancelled
  others : ∀ j, j ≠ i → o'.engine.tasks[j]? = o.engine.tasks[j]? ∧ o'.saves j = o.saves j
  request : ∀ j r, o.engine.request? j = some r → o'.engine.request? j = some r

theorem Ordered.forsaken {stage : SaveStage} (h : o.Ordered) (hsave : o.saves i = some stage) :
    o.Forsaken i (o.forsake i) := by
  obtain ⟨t, htask, -⟩ := h.saving i stage hsave
  have hstep : o.forsake i = o.put (o.engine.finish i t .cancelled) i none := by
    rw [forsake, step_release (o := o.put o.engine i (some (.settled .cancelled))) htask
      (saves_put_self ..), put_put, engine_put]
  have htasks := Engine.getElem?_modify_stage htask (o.engine.tasks_finish i t .cancelled)
  refine ⟨(h.settled hsave .cancelled).step (.release i), ?_, ?_, fun j hj => ?_, fun j r hr => ?_⟩
  · rw [hstep]
    exact o.engine.book_finish i t .cancelled
  · rw [hstep, engine_put]
    exact Engine.outcome?_of_ended htask (o.engine.tasks_finish i t .cancelled)
  · rw [hstep, engine_put, htasks, if_neg hj, saves_put, if_neg hj]
    exact ⟨rfl, rfl⟩
  · exact step_request? (o := o.put o.engine i (some (.settled .cancelled))) hr (.release i)

/-- Where a posting is not in its save, another engine with the same tasks and locks takes the
place of the one that is there. -/
theorem Ordered.put_free {e : Engine} (h : o.Ordered) (hfree : o.saves i = none)
    (htasks : e.tasks = o.engine.tasks) (hlocks : e.locks = o.engine.locks) :
    (o.put e i none).Ordered := by
  rw [put_none hfree]
  refine ⟨h.kept.congr hlocks fun w => ?_, fun j t htask a ha => ?_, fun j stage hj => ?_⟩
  · cases w with
    | task j => exact congrArg (fun ts => ((ts[j]?).map Task.asked).getD []) htasks
    | guard n => rfl
  · exact (congrArg (·.holder a) hlocks).trans (h.held j t (htasks ▸ htask) a ha)
  · obtain ⟨t, htask, hstage⟩ := h.saving j stage hj
    exact ⟨t, (congrArg (·[j]?) htasks).trans htask, hstage⟩

theorem fate?_put_free {e : Engine} (hfree : o.saves i = none) (htasks : e.tasks = o.engine.tasks)
    (j : Nat) : (o.put e i none).fate? j = o.fate? j := by
  rw [put_none hfree, fate?, fate?, ← htasks]
  rfl

namespace Forsaken

variable {o' : Office} (h : o.Forsaken i o')
include h

theorem fate? (hj : j ≠ i) : o'.fate? j = o.fate? j := by
  obtain ⟨htask, hsave⟩ := h.others j hj
  rw [Office.fate?, Office.fate?, htask, hsave]

theorem fate?_self : o'.fate? i = some .cancelled := by
  rw [fate?_of_free (h.ordered.saves_of_outcome h.outcome), h.outcome]

end Forsaken

end Office

/-- An office, and the transactions that the store has started on for postings that were cancelled
since. -/
structure Bureau where
  office : Office
  adrift : List (Nat × Transaction) := []

namespace Bureau

def engine (b : Bureau) : Engine := b.office.engine

def opened (e : Engine) : Bureau := { office := .opened e }

inductive Event where
  | office (event : Office.Event)
  /-- A posting is cancelled, wherever it has come to; if it is in its save the store may have
  started on its transaction. -/
  | cancel (started : Bool) (index : Nat)
  /-- The store comes to the end of a transaction that nobody waits for. -/
  | settle (surroundings : Surroundings) (index : Nat)

def cancel (b : Bureau) (started : Bool) (i : Nat) : Bureau :=
  match b.office.saves i with
  | none => { b with office := b.office.step (.hall (.move (.cancel i))) }
  | some (.begun tx) =>
    { office := b.office.forsake i
      adrift := if started then b.adrift ++ [(i, tx)] else b.adrift }
  | some (.answered _ _) => { b with office := b.office.forsake i }
  -- a posting that has queued its notice waits for nothing more, so it comes to its end
  | some (.settled _) => b

def settle (b : Bureau) (s : Surroundings) (i : Nat) : Bureau :=
  match b.adrift.find? (·.1 == i) with
  | none => b
  | some (_, tx) =>
    { office :=
        if s.faults.panics then b.office else b.office.put (b.engine.save s tx.posting).2 i none
      adrift := b.adrift.filter (·.1 != i) }

def step (b : Bureau) : Event → Bureau
  | .office event => { b with office := b.office.step event }
  | .cancel started i => b.cancel started i
  | .settle s i => b.settle s i

def after (b : Bureau) (events : List Event) : Bureau := events.foldl step b

def Event.index? : Event → Option Nat
  | .office event => event.index?
  | .cancel _ i | .settle _ i => some i

def stored (b : Bureau) : List Transaction := b.engine.book.transactions

def puts (b : Bureau) (event : Event) : List (Option Nat × Transaction) :=
  ((b.step event).stored.drop b.stored.length).map (event.index?, ·)

/-- The transactions that a run puts into the book, in their order. -/
def rows (b : Bureau) : List Event → List (Option Nat × Transaction)
  | [] => []
  | event :: events => b.puts event ++ (b.step event).rows events

variable {b b' : Bureau} {event : Event} {i j : Nat} {tx : Transaction} {before : Book}
  {rows : List (Option Nat × Transaction)}

theorem rows_append (b : Bureau) (events events' : List Event) :
    b.rows (events ++ events') = b.rows events ++ (b.after events).rows events' := by
  induction events generalizing b with
  | nil => rfl
  | cons event events ih =>
    rw [List.cons_append, Bureau.rows, ih, Bureau.rows, List.append_assoc]
    rfl

theorem puts_office (b : Bureau) (event : Office.Event) :
    b.puts (.office event) = Office.puts Office.stored b.office event := rfl

theorem puts_eq_of_append {new : List Transaction} (h : (b.step event).stored = b.stored ++ new) :
    b.puts event = new.map (event.index?, ·) := by
  rw [puts, h, List.drop_left]

/-- The postings whose transactions are adrift were cancelled. -/
structure Orderly (b : Bureau) : Prop where
  ordered : b.office.Ordered
  cancelled : ∀ i tx, (i, tx) ∈ b.adrift → b.engine.outcome? i = some .cancelled

/-- What no event takes back: requests, cancellations, and, but for these, that a posting is to end
as posted. -/
structure Onward (b b' : Bureau) : Prop where
  ordered : b'.office.Ordered
  request : ∀ i r, b.engine.request? i = some r → b'.engine.request? i = some r
  cancelled : ∀ i, b.engine.outcome? i = some .cancelled → b'.engine.outcome? i = some .cancelled
  kept : ∀ i tx, b.office.fate? i = some (.posted tx) → b'.office.fate? i = some (.posted tx) ∨
    b'.engine.outcome? i = some .cancelled

/-- What an event puts into the book: nothing, or a transaction that the store was given, by a
posting that is in its save or one that was cancelled in it. -/
inductive Stepped (b b' : Bureau) : List (Option Nat × Transaction) → Prop where
  | still (hbook : b'.engine.book = b.engine.book)
    (hposted : ∀ i tx, b'.office.fate? i = some (.posted tx) →
      b.office.fate? i = some (.posted tx))
    (hadrift : ∀ i tx, (i, tx) ∈ b'.adrift → (i, tx) ∈ b.adrift ∨
      b.office.saves i = some (.begun tx) ∧ b'.engine.outcome? i = some .cancelled) :
    Stepped b b' []
  | one {i : Nat} {tx : Transaction}
    (hgiven : b.office.saves i = some (.begun tx) ∨ (i, tx) ∈ b.adrift)
    (htransactions : b'.engine.book.transactions = b.engine.book.transactions ++ [tx])
    (hentries : b'.engine.book.entries = b.engine.book.entries ++ tx.posting.entries)
    (hposted : ∀ j tx', b'.office.fate? j = some (.posted tx') →
      j = i ∧ tx' = tx ∨ b.office.fate? j = some (.posted tx'))
    (howned : b'.office.fate? i = some (.posted tx) ∨ b'.engine.outcome? i = some .cancelled)
    (hadrift : ∀ j tx', (j, tx') ∈ b'.adrift → (j, tx') ∈ b.adrift ∧ j ≠ i) :
    Stepped b b' [(some i, tx)]

theorem open_of_begun (h : b.office.Ordered) (hbegun : b.office.saves i = some (.begun tx)) :
    b.engine.outcome? i = none := by
  obtain ⟨t, htask, hstage, -⟩ := h.saving i _ hbegun
  exact Engine.outcome?_of_open htask (by simp [Task.isFinished, hstage])

namespace Orderly

theorem office (h : b.Orderly) (event : Office.Event) :
    b.Onward (b.step (.office event)) ∧
      b.Stepped (b.step (.office event)) (b.puts (.office event)) := by
  have hordered := h.ordered.step event
  have hrequest : ∀ i r, b.engine.request? i = some r →
      (b.office.step event).engine.request? i = some r := fun _ _ hr =>
    Office.step_request? hr event
  have hcancelled : ∀ i, b.engine.outcome? i = some .cancelled →
      (b.office.step event).engine.outcome? i = some .cancelled := fun _ hout =>
    h.ordered.step_outcome? hout event
  have hcommitted := b.office.step_committed event
  rw [puts_office]
  change b.Onward ⟨b.office.step event, b.adrift⟩ ∧ b.Stepped ⟨b.office.step event, b.adrift⟩ _
  generalize Office.puts Office.stored b.office event = new at hcommitted ⊢
  generalize b.office.step event = o' at hordered hrequest hcancelled hcommitted ⊢
  cases hcommitted with
  | nothing hbook hfate =>
    exact ⟨⟨hordered, hrequest, hcancelled, fun i tx hf => .inl ((hfate i tx).2 hf)⟩,
      .still hbook (fun i tx => (hfate i tx).1) fun i tx => .inl⟩
  | @one s i tx _ hbegun hsaved hbook hfate =>
    refine ⟨⟨hordered, hrequest, hcancelled, fun i tx hf => .inl ((hfate i tx).2 (.inr hf))⟩,
      .one (.inl hbegun) (congrArg Book.transactions hbook) (congrArg Book.entries hbook)
        (fun j tx' => (hfate j tx').1) (.inl ((hfate i tx).2 (.inl ⟨rfl, rfl⟩)))
        fun j tx' hmem => ⟨hmem, ?_⟩⟩
    rintro rfl
    have hopen := open_of_begun h.ordered hbegun
    rw [h.cancelled j tx' hmem] at hopen
    cases hopen

theorem forsaken (h : b.Orderly) {stage : SaveStage} (hsave : b.office.saves i = some stage)
    {adrift : List (Nat × Transaction)}
    (hadrift : ∀ j tx, (j, tx) ∈ adrift → (j, tx) ∈ b.adrift ∨ j = i ∧ stage = .begun tx) :
    b.Onward ⟨b.office.forsake i, adrift⟩ ∧ b.Stepped ⟨b.office.forsake i, adrift⟩ [] := by
  have hforsaken := h.ordered.forsaken hsave
  refine ⟨⟨hforsaken.ordered, hforsaken.request, fun j hj => ?_, fun j tx hj => ?_⟩,
    .still hforsaken.book (fun j tx hj => ?_) fun j tx hmem => ?_⟩
  · by_cases hji : j = i
    · exact hji ▸ hforsaken.outcome
    · rw [engine, Engine.outcome?, (hforsaken.others j hji).1]
      exact hj
  · by_cases hji : j = i
    · exact .inr (hji ▸ hforsaken.outcome)
    · exact .inl ((hforsaken.fate? hji).trans hj)
  · by_cases hji : j = i
    · rw [hji, hforsaken.fate?_self] at hj
      cases hj
    · rwa [hforsaken.fate? hji] at hj
  · refine (hadrift j tx hmem).imp_right fun hnew => ?_
    rw [hnew.1, ← hnew.2]
    exact ⟨hsave, hforsaken.outcome⟩

theorem idle (h : b.Orderly) {adrift : List (Nat × Transaction)}
    (hadrift : ∀ j tx, (j, tx) ∈ adrift → (j, tx) ∈ b.adrift) :
    b.Onward ⟨b.office, adrift⟩ ∧ b.Stepped ⟨b.office, adrift⟩ [] :=
  ⟨⟨h.ordered, fun _ _ => id, fun _ => id, fun _ _ => .inl⟩,
    .still rfl (fun _ _ => id) fun j tx hmem => .inl (hadrift j tx hmem)⟩

theorem cancel (h : b.Orderly) (started : Bool) (i : Nat) :
    b.Onward (b.cancel started i) ∧ b.Stepped (b.cancel started i) [] := by
  cases hsave : b.office.saves i with
  | none =>
    have hcancel : b.cancel started i = b.step (.office (.hall (.move (.cancel i)))) := by
      rw [Bureau.cancel, hsave]
      rfl
    have hoffice := h.office (.hall (.move (.cancel i)))
    have hcommitted := b.office.step_committed (.hall (.move (.cancel i)))
    rw [puts_office] at hoffice
    rw [hcancel]
    generalize Office.puts _ _ _ = new at hcommitted hoffice
    cases hcommitted with
    | nothing => exact hoffice
  | some stage =>
    cases stage with
    | settled outcome =>
      have hcancel : b.cancel started i = b := by rw [Bureau.cancel, hsave]
      rw [hcancel]
      exact h.idle fun _ _ => id
    | answered tx answer =>
      have hcancel : b.cancel started i = ⟨b.office.forsake i, b.adrift⟩ := by
        rw [Bureau.cancel, hsave]
      rw [hcancel]
      exact h.forsaken hsave fun j tx => .inl
    | begun tx =>
      have hcancel : b.cancel started i =
          ⟨b.office.forsake i, if started then b.adrift ++ [(i, tx)] else b.adrift⟩ := by
        rw [Bureau.cancel, hsave]
      rw [hcancel]
      refine h.forsaken hsave fun j tx' hmem => ?_
      split at hmem
      · rw [List.mem_append, List.mem_singleton, Prod.mk.injEq] at hmem
        exact hmem.imp_right fun hnew => ⟨hnew.1, by rw [hnew.2]⟩
      · exact .inl hmem

/-- The store answers to what is adrift as to any other transaction; nobody hears it. -/
theorem saved (h : b.Orderly) (hgiven : (i, tx) ∈ b.adrift) (s : Surroundings)
    (hb' : b' = ⟨b.office.put (b.engine.save s tx.posting).2 i none,
      b.adrift.filter (·.1 != i)⟩) :
    b.Onward b' ∧ ∃ new, b'.stored = b.stored ++ new ∧ b.Stepped b' (new.map (some i, ·)) := by
  have hcancelled := h.cancelled i tx hgiven
  have hfree : b.office.saves i = none := h.ordered.saves_of_outcome hcancelled
  have hrest : ∀ j tx', (j, tx') ∈ b.adrift.filter (·.1 != i) → (j, tx') ∈ b.adrift ∧ j ≠ i :=
    fun j tx' hmem => by simpa using hmem
  obtain ⟨htasks, hlocks⟩ := b.engine.save_frame s tx.posting
  have hkept := b.engine.save_kept s tx.posting
  generalize b.engine.save s tx.posting = r at htasks hlocks hkept hb'
  obtain ⟨answer, e⟩ := r
  subst hb'
  have hfate := Office.fate?_put_free hfree htasks
  have honward : b.Onward ⟨b.office.put e i none, b.adrift.filter (·.1 != i)⟩ := by
    refine ⟨h.ordered.put_free hfree htasks hlocks, fun j r hr => ?_, fun j hj => ?_,
      fun j tx' hj => .inl ((hfate j).trans hj)⟩
    · rw [engine, Office.engine_put, Engine.request?, htasks]
      exact hr
    · rw [engine, Office.engine_put, Engine.outcome?, htasks]
      exact hj
  refine ⟨honward, ?_⟩
  have hsame (hbook : e.book = b.engine.book) :
      b.Stepped ⟨b.office.put e i none, b.adrift.filter (·.1 != i)⟩ [] :=
    .still hbook (fun j tx' hj => (hfate j).symm.trans hj)
      fun j tx' hmem => .inl (hrest j tx' hmem).1
  simp only at hkept
  generalize hbook : e.book = book at hkept
  cases hkept with
  | duplicate _ => exact ⟨[], by simp [stored, engine, hbook], hsame hbook⟩
  | failed _ => exact ⟨[], by simp [stored, engine, hbook], hsame hbook⟩
  | saved _ =>
    exact ⟨[tx], congrArg Book.transactions hbook, .one (.inr hgiven)
      (congrArg Book.transactions hbook) (congrArg Book.entries hbook)
      (fun j tx' hj => .inr ((hfate j).symm.trans hj))
      (.inr (honward.cancelled i hcancelled)) hrest⟩

theorem settle (h : b.Orderly) (s : Surroundings) (i : Nat) :
    b.Onward (b.settle s i) ∧ b.Stepped (b.settle s i) (b.puts (.settle s i)) := by
  have hputs (new : List Transaction) (hnew : (b.settle s i).stored = b.stored ++ new) :
      b.puts (.settle s i) = new.map (some i, ·) := puts_eq_of_append hnew
  cases hfind : b.adrift.find? (·.1 == i) with
  | none =>
    have hstill : b.settle s i = b := by rw [Bureau.settle, hfind]
    rw [hputs [] (by simp [hstill]), hstill]
    exact h.idle fun _ _ => id
  | some found =>
    obtain ⟨k, tx⟩ := found
    obtain rfl : k = i := by simpa using List.find?_some hfind
    cases hpanics : s.faults.panics with
    | true =>
      have hnone : b.settle s k = ⟨b.office, b.adrift.filter (·.1 != k)⟩ := by
        rw [Bureau.settle, hfind]
        simp [hpanics]
      rw [hputs [] (by simp [hnone, stored, engine]), hnone]
      exact h.idle fun j tx' hmem => (List.mem_filter.1 hmem).1
    | false =>
      have hsettle : b.settle s k = ⟨b.office.put (b.engine.save s tx.posting).2 k none,
          b.adrift.filter (·.1 != k)⟩ := by
        rw [Bureau.settle, hfind]
        simp [hpanics]
      obtain ⟨honward, new, hstored, hstepped⟩ :=
        h.saved (List.mem_of_find?_eq_some hfind) s hsettle
      rw [hputs new hstored]
      exact ⟨honward, hstepped⟩

theorem puts_cancel (h : b.Orderly) (started : Bool) (i : Nat) :
    b.puts (.cancel started i) = [] := by
  have hstored : (b.step (.cancel started i)).stored = b.stored ++ [] := by
    cases (h.cancel started i).2 with
    | still hbook => simp [stored, step, hbook]
  rw [puts_eq_of_append hstored, List.map_nil]

theorem stepped (h : b.Orderly) (event : Event) :
    b.Onward (b.step event) ∧ b.Stepped (b.step event) (b.puts event) := by
  cases event with
  | office event => exact h.office event
  | settle s i => exact h.settle s i
  | cancel started i =>
    rw [h.puts_cancel]
    exact h.cancel started i

theorem step (h : b.Orderly) (event : Event) : (b.step event).Orderly := by
  obtain ⟨honward, hstepped⟩ := h.stepped event
  refine ⟨honward.ordered, fun i tx hmem => ?_⟩
  generalize b.puts event = new at hstepped
  cases hstepped with
  | still _ _ hadrift =>
    cases hadrift i tx hmem with
    | inl hold => exact honward.cancelled i (h.cancelled i tx hold)
    | inr hnew => exact hnew.2
  | one _ _ _ _ _ hadrift => exact honward.cancelled i (h.cancelled i tx (hadrift i tx hmem).1)

end Orderly

/-- The book holds what it held before and the rows of postings, each of which has one at most: all
that are posted have theirs, and any other row is one of a posting that was cancelled. No row is
there yet of what the store has only started on. -/
structure Booked (before : Book) (b : Bureau) (rows : List (Option Nat × Transaction)) : Prop where
  orderly : b.Orderly
  transactions : b.engine.book.transactions = before.transactions ++ rows.map (·.2)
  entries : b.engine.book.entries = before.entries ++ rows.flatMap (·.2.posting.entries)
  nodup : (rows.map (·.1)).Nodup
  posted : ∀ i tx, b.office.fate? i = some (.posted tx) → (some i, tx) ∈ rows
  owned : ∀ row ∈ rows, ∃ i r id now, row.1 = some i ∧ b.engine.request? i = some r ∧
    row.2 = r.toTransaction id now ∧
    (b.office.fate? i = some (.posted row.2) ∨ b.engine.outcome? i = some .cancelled)
  adrift : ∀ i tx, (i, tx) ∈ b.adrift → some i ∉ rows.map (·.1) ∧
    ∃ r id now, b.engine.request? i = some r ∧ tx = r.toTransaction id now

theorem booked_opened {e : Engine} (h : e.Idle) : Booked e.book (opened e) [] := by
  have hbooked := Office.booked_opened h
  exact ⟨⟨Office.ordered_opened h, by simp [opened]⟩, hbooked.transactions, hbooked.entries,
    hbooked.nodup, fun i tx hfate => (hbooked.fate i tx).2 hfate, by simp, by simp [opened]⟩

namespace Booked

theorem notMem (h : Booked before b rows) (hopen : b.engine.outcome? i = none)
    (hfate : b.office.fate? i = none) : some i ∉ rows.map (·.1) := by
  intro hmem
  obtain ⟨row, hrow, hi⟩ := List.mem_map.1 hmem
  obtain ⟨k, r, id, now, hk, -, -, hended⟩ := h.owned row hrow
  cases hk.symm.trans hi
  simp [hopen, hfate] at hended

theorem of_given (h : Booked before b rows)
    (hgiven : b.office.saves i = some (.begun tx) ∨ (i, tx) ∈ b.adrift) :
    some i ∉ rows.map (·.1) ∧
      ∃ r id now, b.engine.request? i = some r ∧ tx = r.toTransaction id now := by
  cases hgiven with
  | inr hadrift => exact h.adrift i tx hadrift
  | inl hbegun =>
    obtain ⟨t, htask, -, hmade⟩ := h.orderly.ordered.saving i _ hbegun
    obtain ⟨id, now, htx⟩ := hmade tx rfl
    exact ⟨h.notMem (open_of_begun h.orderly.ordered hbegun)
      (by rw [Office.fate?, hbegun, Office.fateOf]), t.request, id, now,
      Engine.request?_of_task htask, htx⟩

theorem owned_onward (h : Booked before b rows) (honward : b.Onward b') :
    ∀ row ∈ rows, ∃ i r id now, row.1 = some i ∧ b'.engine.request? i = some r ∧
      row.2 = r.toTransaction id now ∧
      (b'.office.fate? i = some (.posted row.2) ∨ b'.engine.outcome? i = some .cancelled) := by
  intro row hrow
  obtain ⟨i, r, id, now, hi, hr, htx, hended⟩ := h.owned row hrow
  refine ⟨i, r, id, now, hi, honward.request i r hr, htx, ?_⟩
  cases hended with
  | inl hposted => exact honward.kept i row.2 hposted
  | inr hcancelled => exact .inr (honward.cancelled i hcancelled)

theorem step (h : Booked before b rows) (event : Event) :
    Booked before (b.step event) (rows ++ b.puts event) := by
  have horderly := h.orderly.step event
  obtain ⟨honward, hstepped⟩ := h.orderly.stepped event
  have howned' := h.owned_onward honward
  generalize b.puts event = new at hstepped ⊢
  generalize b.step event = b' at horderly honward hstepped howned' ⊢
  cases hstepped with
  | still hbook hposted hadrift =>
    rw [List.append_nil]
    refine ⟨horderly, hbook ▸ h.transactions, hbook ▸ h.entries, h.nodup,
      fun i tx hfate => h.posted i tx (hposted i tx hfate), howned', fun i tx hmem => ?_⟩
    obtain ⟨hnone, r, id, now, hr, htx⟩ :=
      h.of_given ((hadrift i tx hmem).symm.imp_left And.left)
    exact ⟨hnone, r, id, now, honward.request i r hr, htx⟩
  | @one i tx hgiven htransactions hentries hposted howned hadrift =>
    obtain ⟨hfresh, r, id, now, hr, htx⟩ := h.of_given hgiven
    constructor
    case orderly => exact horderly
    case transactions => simp [htransactions, h.transactions]
    case entries => simp [hentries, h.entries]
    case nodup =>
      rw [List.map_append, List.map_singleton]
      exact h.nodup.append (List.nodup_singleton _) (List.disjoint_singleton.2 hfresh)
    case posted =>
      intro j tx' hfate
      rw [List.mem_append, List.mem_singleton, Prod.mk.injEq, Option.some.injEq]
      exact (hposted j tx' hfate).symm.imp_left (h.posted j tx')
    case owned =>
      rw [List.forall_mem_append, List.forall_mem_singleton]
      exact ⟨howned', i, r, id, now, rfl, honward.request i r hr, htx, howned⟩
    case adrift =>
      intro j tx' hmem
      obtain ⟨hold, hj⟩ := hadrift j tx' hmem
      obtain ⟨hnone, r, id, now, hr, htx⟩ := h.adrift j tx' hold
      refine ⟨?_, r, id, now, honward.request j r hr, htx⟩
      simp only [List.map_append, List.map_singleton, List.mem_append, List.mem_singleton,
        Option.some.injEq, not_or]
      exact ⟨hnone, hj⟩

theorem after (h : Booked before b rows) (events : List Event) :
    Booked before (b.after events) (rows ++ b.rows events) := by
  induction events generalizing b rows with
  | nil => simpa [Bureau.rows, Bureau.after] using h
  | cons event events ih =>
    have hrest := ih (h.step event)
    rwa [List.append_assoc] at hrest

end Booked

/-- A posting was cancelled, and the store has not started on it. -/
structure Void (b : Bureau) (i : Nat) : Prop where
  cancelled : b.engine.outcome? i = some .cancelled
  unstarted : ∀ tx, (i, tx) ∉ b.adrift

theorem Void.step (hvoid : b.Void i) (h : b.Orderly) (event : Event) :
    (b.step event).Void i ∧ some i ∉ (b.puts event).map (·.1) := by
  obtain ⟨honward, hstepped⟩ := h.stepped event
  have hcancelled := honward.cancelled i hvoid.cancelled
  have hended (tx : Transaction) : b.office.saves i ≠ some (.begun tx) := by
    intro hbegun
    have hopen := open_of_begun h.ordered hbegun
    rw [hvoid.cancelled] at hopen
    cases hopen
  generalize b.puts event = new at hstepped ⊢
  cases hstepped with
  | still _ _ hadrift =>
    refine ⟨⟨hcancelled, fun tx hmem => ?_⟩, List.not_mem_nil⟩
    cases hadrift i tx hmem with
    | inl hold => exact hvoid.unstarted tx hold
    | inr hnew => exact hended tx hnew.1
  | @one k tx hgiven _ _ _ _ hadrift =>
    refine ⟨⟨hcancelled, fun tx' hmem => hvoid.unstarted tx' (hadrift i tx' hmem).1⟩, ?_⟩
    rw [List.map_singleton, List.mem_singleton, Option.some.injEq]
    rintro rfl
    cases hgiven with
    | inl hbegun => exact hended tx hbegun
    | inr hold => exact hvoid.unstarted tx hold

theorem Void.notMem_rows (hvoid : b.Void i) (h : b.Orderly) (events : List Event) :
    some i ∉ (b.rows events).map (·.1) := by
  induction events generalizing b with
  | nil => exact List.not_mem_nil
  | cons event events ih =>
    obtain ⟨hnext, hnow⟩ := hvoid.step h event
    rw [Bureau.rows, List.map_append, List.mem_append, not_or]
    exact ⟨hnow, ih hnext (h.step event)⟩

/-- A posting has not ended, and the store has not answered, be it in its save or before it. -/
structure Pending (b : Bureau) (i : Nat) : Prop where
  task : ∃ t, b.engine.tasks[i]? = some t ∧ t.isFinished = false
  save : b.office.saves i = none ∨ ∃ tx, b.office.saves i = some (.begun tx)

theorem Pending.outcome? (hpending : b.Pending i) : b.engine.outcome? i = none := by
  obtain ⟨t, htask, hopen⟩ := hpending.task
  exact Engine.outcome?_of_open htask hopen

theorem Pending.fate? (hpending : b.Pending i) : b.office.fate? i = none := by
  rcases hpending.save with hfree | ⟨tx, hbegun⟩
  · rw [Office.fate?_of_free hfree]
    exact hpending.outcome?
  · rw [Office.fate?, hbegun, Office.fateOf]

theorem Pending.void (hpending : b.Pending i) (h : b.Orderly) :
    (b.step (.cancel false i)).Void i := by
  have hunstarted (tx : Transaction) : (i, tx) ∉ b.adrift := by
    intro hmem
    have hopen := hpending.outcome?
    rw [h.cancelled i tx hmem] at hopen
    cases hopen
  rcases hpending.save with hfree | ⟨tx, hbegun⟩
  · obtain ⟨t, htask, hopen⟩ := hpending.task
    have hcancel : b.step (.cancel false i) =
        ⟨b.office.step (.hall (.move (.cancel i))), b.adrift⟩ := by
      rw [step, cancel, hfree]
    have hadmits : b.office.admits (.move (.cancel i)) = true := by simp [Office.admits, hfree]
    have hengine : (b.office.step (.hall (.move (.cancel i)))).engine =
        b.engine.finish i t .cancelled := by
      rw [Office.step, if_pos hadmits]
      change b.engine.cancel i = _
      simp [Engine.cancel, htask, hopen]
    rw [hcancel]
    refine ⟨?_, hunstarted⟩
    rw [engine, hengine]
    exact Engine.outcome?_of_ended htask (b.engine.tasks_finish i t .cancelled)
  · have hcancel : b.step (.cancel false i) = ⟨b.office.forsake i, b.adrift⟩ := by
      rw [step, cancel, hbegun]
      simp
    rw [hcancel]
    exact ⟨(h.ordered.forsaken hbegun).outcome, hunstarted⟩

/-- Postings may be cancelled at any time. Each row that a run puts into the book is one of a
posting that is posted, or was cancelled after the store had been given its transaction, and no
posting has two; all that are posted have theirs. One that is cancelled before the store has started
on it has none, whatever happens then; and who has ended in any way neither holds a lock nor waits
for one. -/
theorem rows_of_cancelled {e : Engine} (h : e.Idle) (events more : List Event) :
    let b := (opened e).after events
    let rows := (opened e).rows events
    b.engine.book.transactions = e.book.transactions ++ rows.map (·.2) ∧
      b.engine.book.entries = e.book.entries ++ rows.flatMap (·.2.posting.entries) ∧
      (rows.map (·.1)).Nodup ∧
      (∀ row ∈ rows, ∃ i r id now, row.1 = some i ∧ b.engine.request? i = some r ∧
        row.2 = r.toTransaction id now ∧
        (b.office.fate? i = some (.posted row.2) ∨ b.engine.outcome? i = some .cancelled)) ∧
      (∀ i tx, b.engine.outcome? i = some (.posted tx) →
        rows.filter (·.1 == some i) = [(some i, tx)]) ∧
      (∀ i, b.Pending i →
        some i ∉ ((opened e).rows (events ++ .cancel false i :: more)).map (·.1)) ∧
      ∀ i outcome, b.engine.outcome? i = some outcome → ∀ l ∈ b.engine.locks.registered,
        l.holder ≠ some (.task i) ∧ .task i ∉ l.waiting := by
  intro b rows
  have hbooked : Booked e.book b rows := by
    have hafter := (booked_opened h).after events
    rwa [List.nil_append] at hafter
  refine ⟨hbooked.transactions, hbooked.entries, hbooked.nodup, hbooked.owned,
    fun i tx hout => ?_, fun i hpending => ?_, fun i outcome hout l hl => ?_⟩
  · have hfree := hbooked.orderly.ordered.saves_of_outcome hout
    exact Office.filter_eq_singleton hbooked.nodup
      (hbooked.posted i tx ((Office.fate?_of_free hfree).trans hout))
  · have hnow := hbooked.notMem hpending.outcome? hpending.fate?
    have hlater := (hpending.void hbooked.orderly).notMem_rows
      (hbooked.orderly.step (.cancel false i)) more
    rw [rows_append, Bureau.rows, hbooked.orderly.puts_cancel, List.nil_append, List.map_append,
      List.mem_append, not_or]
    exact ⟨hnow, hlater⟩
  · obtain ⟨t, htask, hended⟩ := Option.bind_eq_some_iff.1 hout
    have hasked : b.office.hall.asked (.task i) = [] := by
      rw [Hall.asked_task htask]
      exact Task.asked_of_finished (by simp [Task.isFinished, Task.outcome?_eq_some.1 hended])
    have hgone := hbooked.orderly.ordered.kept.notMem_line hasked hl
    exact ⟨fun hw => hgone (by simp [AccountLock.line, hw]), fun hw =>
      hgone (List.mem_append_right _ hw)⟩

/-- In the rush a posting is cancelled in its save; the others go on, and the store comes to the end
of what it has started on. -/
def desertion (started : Bool) : List Event :=
  .cancel started 0 :: (Office.aftermath.map .office ++ [.settle Engine.calm 0])

theorem rows_of_cancelled_rush :
    let start := opened (Engine.inMemory .absent)
    let rush := Office.rush.map Event.office
    (Engine.inMemory .absent).Idle ∧ (start.after rush).Pending 0 ∧
      (start.after (rush ++ desertion true)).engine.outcome? 0 = some .cancelled ∧
      (start.rows (rush ++ desertion true)).map (·.1) = [some 2, some 3, some 0] ∧
      ((start.rows (rush ++ desertion true)).map (·.1)).Nodup ∧
      some 0 ∉ (start.rows (rush ++ desertion false)).map (·.1) := by
  intro start rush
  have hidle : (Engine.inMemory .absent).Idle := (Engine.Fresh.inMemory .absent).idle
  have hpending : (start.after rush).Pending 0 :=
    ⟨⟨⟨⟨"a", "b", .ofWord false 5, "k"⟩, .saving⟩, by decide +kernel, rfl⟩,
      .inr ⟨⟨.ofNat 0, "k", "a", "b", .ofWord false 5, .epoch⟩, by decide +kernel⟩⟩
  obtain ⟨-, -, hnodup, -⟩ := rows_of_cancelled hidle (rush ++ desertion true) []
  obtain ⟨-, -, -, -, -, hvoid, -⟩ := rows_of_cancelled hidle rush
    (Office.aftermath.map .office ++ [.settle Engine.calm 0])
  exact ⟨hidle, hpending, by decide +kernel, by decide +kernel, hnodup, hvoid 0 hpending⟩

end Bureau

end Bookkeeping
