import Bookkeeping.Proofs.Engine.CommitOrder
import Bookkeeping.Proofs.Engine.Deciding
import Bookkeeping.Proofs.Engine.Ledger

/-! The registry of locks. It holds the accounts whose locks somebody has asked for, whatever became
of that, and no others. A posting that something speaks against before it is to lock puts none into
it, and one that locks puts its greater account in only while it holds the lesser. -/
namespace Bookkeeping

namespace Task

variable {t : Task} {a : String}

theorem firstAccount_mem_asked (ha : a ∈ t.asked) : t.firstAccount ∈ t.asked := by
  unfold asked accounts at ha ⊢
  cases hstage : t.stage <;> simp_all

theorem firstAccount_mem_held (hsecond : t.secondAccount? = some a) (ha : a ∈ t.asked) :
    t.firstAccount ∈ t.held := by
  have hne : a ≠ t.firstAccount := (firstAccount_lt hsecond).ne'
  unfold asked at ha
  unfold held accounts
  cases hstage : t.stage <;> simp_all

theorem Checked.of_asked (h : t.Checked) (ha : a ∈ t.asked) :
    Text.blank t.request.key = false ∧ t.request.validate = .ok () := by
  unfold asked at ha
  unfold Checked at h
  cases hstage : t.stage <;> simp_all

theorem Checked.account_of_asked (h : t.Checked) (ha : a ∈ t.asked) : Text.blank a = false := by
  obtain ⟨-, hfrom, hto⟩ := PostingRequest.validate_eq_ok.1 (h.of_asked ha).2
  cases mem_accounts (asked_subset ha) with
  | inl ha => exact ha ▸ hfrom
  | inr ha => exact ha ▸ hto

end Task

namespace Engine

variable {s : Surroundings} {e : Engine} {i : Nat} {t : Task} {outcome : Outcome}

/-- What speaks against a posting in its next step. Nothing does any more when it is to lock. -/
def objectionsTo (s : Surroundings) (e : Engine) (t : Task) : List Outcome :=
  match t.stage with
  | .preCheck => e.keyObjections s t.request.key
  | .validation => t.request.objections.map .failed
  | _ => []

theorem unasked_of_objection (hfirst : (e.objectionsTo s t).head? = some outcome) :
    t.asked = [] ∧ t.isFinished = false ∧ t.stage ≠ .saving := by
  unfold objectionsTo at hfirst
  unfold Task.asked Task.isFinished
  cases hstage : t.stage <;> simp_all

theorem step_of_objection (htask : e.tasks[i]? = some t)
    (hfirst : (e.objectionsTo s t).head? = some outcome) :
    e.step s i = some (e.finish i t outcome) := by
  unfold objectionsTo at hfirst
  split at hfirst
  · next hstage =>
    rw [step_preCheck htask hstage]
    cases hkey : e.keyObjections s t.request.key with
    | nil => simp [hkey] at hfirst
    | cons first rest => simp_all
  · next hstage =>
    rw [step_validation htask hstage]
    cases hrequest : t.request.objections with
    | nil => simp [hrequest] at hfirst
    | cons first rest => simp_all
  · cases hfirst

theorem checked_move (h : ∀ t ∈ e.tasks, t.Checked) (m : Move) :
    ∀ t ∈ (e.move m).tasks, t.Checked := by
  have hmoved := e.move_moved m
  generalize e.move m = e' at hmoved
  cases hmoved with
  | still htasks hstore => exact htasks ▸ h
  | started r =>
    intro t ht
    rw [start, List.mem_append, List.mem_singleton] at ht
    cases ht with
    | inl ht => exact h t ht
    | inr ht => exact ht ▸ trivial
  | advanced htask hopen htasks hadvance =>
    have hchecked := h _ (List.mem_of_getElem? htask)
    exact forall_modify_stage h htask htasks (hadvance.checked_task hchecked)
  | cancelled htask hopen htasks hstore => exact forall_modify_stage h htask htasks trivial

end Engine

namespace Office

variable {o : Office} {event : Event} {events more : List Event} {s : Surroundings} {i n : Nat}
  {t : Task} {a : String} {w : Owner} {outcome : Outcome}

def registry (o : Office) : List String := o.engine.locks.accounts

/-- Somebody asks for the lock of an account in the course of a run, or has asked for it before and
not given it up. -/
def Requests (o : Office) (w : Owner) (a : String) : List Event → Prop
  | [] => a ∈ o.hall.asked w
  | event :: events => a ∈ o.hall.asked w ∨ (o.step event).Requests w a events

theorem requests_of_asked (ha : a ∈ o.hall.asked w) (events : List Event) :
    o.Requests w a events := by
  cases events with
  | nil => exact ha
  | cons event events => exact .inl ha

theorem requests_append : o.Requests w a (events ++ more) ↔
    o.Requests w a events ∨ (o.after events).Requests w a more := by
  induction events generalizing o with
  | nil => exact ⟨.inr, fun h => h.elim (requests_of_asked · more) id⟩
  | cons event events ih => rw [List.cons_append, Requests, Requests, ih, after_cons, or_assoc]

theorem step_registry (h : o.hall.Kept) (event : Event) : (o.step event).registry = o.registry ∨
    ∃ a w, a ∉ o.registry ∧ (o.step event).registry = o.registry ++ [a] ∧
      a ∈ (o.step event).hall.asked w ∧ a ∉ o.hall.asked w := by
  obtain ⟨hkept, hturned⟩ := step_locks h event
  exact Locks.Kept.accounts_turned h hkept hturned

theorem mem_registry_of_asked (h : o.hall.Kept) (ha : a ∈ o.hall.asked w) : a ∈ o.registry :=
  Locks.Kept.mem_accounts h ha

theorem registry_grows (h : o.hall.Kept) (events : List Event) :
    o.registry <+: (o.after events).registry := by
  induction events generalizing o with
  | nil => exact List.prefix_rfl
  | cons event events ih =>
    refine List.IsPrefix.trans ?_ (ih (step_locks h event).1)
    cases step_registry h event with
    | inl hsame => exact hsame ▸ List.prefix_rfl
    | inr hmore =>
      obtain ⟨a, w, -, happend, -⟩ := hmore
      exact happend ▸ List.prefix_append ..

theorem mem_registry_after (h : o.hall.Kept) (events : List Event) :
    a ∈ (o.after events).registry ↔ a ∈ o.registry ∨ ∃ w, o.Requests w a events := by
  induction events generalizing o with
  | nil =>
    refine ⟨.inl, fun ha => ?_⟩
    obtain ha | ⟨w, ha⟩ := ha
    · exact ha
    · exact mem_registry_of_asked h ha
  | cons event events ih =>
    have hkept := (step_locks h event).1
    rw [after_cons, ih hkept]
    constructor
    · rintro (ha | ⟨w, ha⟩)
      · cases step_registry h event with
        | inl hsame => exact .inl (hsame ▸ ha)
        | inr hmore =>
          obtain ⟨b, w, -, happend, hb, -⟩ := hmore
          rw [happend, List.mem_append, List.mem_singleton] at ha
          cases ha with
          | inl ha => exact .inl ha
          | inr hab => exact .inr ⟨w, .inr (requests_of_asked (hab ▸ hb) events)⟩
      · exact .inr ⟨w, .inr ha⟩
    · rintro (ha | ⟨w, ha | ha⟩)
      · exact .inl ((registry_grows h [event]).subset ha)
      · exact .inl ((registry_grows h [event]).subset (mem_registry_of_asked h ha))
      · exact .inr ⟨w, ha⟩

theorem Ended.not_requests (h : o.Ended i) (a : String) (events : List Event) :
    ¬ o.Requests (.task i) a events := by
  induction events generalizing o with
  | nil => simp [Requests, h.asked]
  | cons event events ih => simp [Requests, h.asked, ih (h.step event)]

theorem Ended.after (h : o.Ended i) (events : List Event) : (o.after events).Ended i := by
  induction events generalizing o with
  | nil => exact h
  | cons event events ih => exact ih (h.step event)

theorem asked_of_requests (h : o.Requests (.task i) a events) :
    a ∈ (o.after events).hall.asked (.task i) ∨ (o.after events).Ended i := by
  induction events generalizing o with
  | nil => exact .inl h
  | cons event events ih =>
    cases h with
    | inr h => exact ih h
    | inl ha =>
      cases asked_or_ended ha event with
      | inl ha => exact ih (requests_of_asked ha events)
      | inr hended => exact .inr (hended.after events)

theorem Ordered.step_of_objection (h : o.Ordered) (htask : o.engine.tasks[i]? = some t)
    (hfirst : (o.engine.objectionsTo s t).head? = some outcome) :
    (o.step (.hall (.move (.step s i)))).engine = o.engine.finish i t outcome := by
  have hunsaved : t.stage ≠ .saving := (Engine.unasked_of_objection hfirst).2.2
  have hfree : o.saves i = none := by
    by_contra hsave
    obtain ⟨stage, hsave⟩ := Option.ne_none_iff_exists'.1 hsave
    obtain ⟨t', htask', hstage, -⟩ := h.saving i stage hsave
    rw [htask, Option.some.injEq] at htask'
    exact hunsaved (htask' ▸ hstage)
  have hadmits : o.admits (.move (.step s i)) = true := by
    simp [admits, hfree, htask, hunsaved]
  have hmove : o.engine.move (.step s i) = o.engine.finish i t outcome :=
    Engine.move_of_step (Engine.step_of_objection htask hfirst)
  rw [Office.step, if_pos hadmits, ← hmove]
  rfl

/-- A posting that something speaks against ends with the first such thing, and neither before nor
after that it asks for a lock. -/
theorem Ordered.stopped (h : (o.after events).Ordered)
    (htask : (o.after events).engine.tasks[i]? = some t)
    (hfirst : ((o.after events).engine.objectionsTo s t).head? = some outcome) :
    let stop := Event.hall (.move (.step s i))
    ((o.after events).step stop).engine.outcome? i = some outcome ∧
      ((o.after events).step stop).registry = (o.after events).registry ∧
      ∀ a, ¬ o.Requests (.task i) a (events ++ stop :: more) := by
  intro stop
  obtain ⟨hasked, hopen, -⟩ := Engine.unasked_of_objection hfirst
  have hstep := h.step_of_objection htask hfirst
  have htasks := (o.after events).engine.tasks_finish i t outcome
  have hended : ((o.after events).step stop).Ended i := by
    refine ⟨{ t with stage := .finished outcome }, ?_, rfl⟩
    rw [hstep, Engine.getElem?_modify_stage htask htasks, if_pos rfl]
  refine ⟨?_, ?_, fun a => ?_⟩
  · rw [hstep]
    exact Engine.outcome?_of_ended htask htasks
  · rw [registry, hstep, Engine.locks_finish]
    exact Locks.accounts_leaveAll ..
  · rw [requests_append, Requests, Hall.asked_task htask, hasked]
    rintro (hbefore | hnow | hafter)
    · cases asked_of_requests hbefore with
      | inl ha => simp [Hall.asked_task htask, hasked] at ha
      | inr hended =>
        obtain ⟨t', htask', hfinished⟩ := hended
        rw [htask, Option.some.injEq] at htask'
        rw [← htask', hopen] at hfinished
        cases hfinished
    · cases hnow
    · exact hended.not_requests a more hafter

/-- A posting comes to ask for the lock of an account: of its lesser one if it has asked for none,
of its greater one while it holds that of the lesser. -/
def AsksNext (o : Office) (i : Nat) (t : Task) (a : String) : Prop :=
  a = t.firstAccount ∧ o.hall.asked (.task i) = [] ∨
    t.secondAccount? = some a ∧ t.firstAccount < a ∧
      o.engine.locks.holder t.firstAccount = some (.task i)

theorem Ordered.asksNext (h : o.Ordered) (event : Event)
    (htask : (o.step event).engine.tasks[i]? = some t) (ha : a ∈ t.asked)
    (hnew : a ∉ o.hall.asked (.task i)) : o.AsksNext i t a := by
  cases List.mem_cons.1 (Task.asked_subset ha) with
  | inr hsecond =>
    have hsecond : t.secondAccount? = some a := Option.mem_toList.1 hsecond
    have hheld := h.holder_of_held event htask (Task.firstAccount_mem_held hsecond ha)
    exact .inr ⟨hsecond, Task.firstAccount_lt hsecond, hheld⟩
  | inl hfirst =>
    refine .inl ⟨hfirst, List.eq_nil_iff_forall_not_mem.2 fun b hb => hnew ?_⟩
    cases hold : o.engine.tasks[i]? with
    | none => simp [Hall.asked, show o.hall.engine.tasks[i]? = none from hold] at hb
    | some u =>
      have hrequest := step_request? (Engine.request?_of_task hold) event
      rw [Engine.request?_of_task htask, Option.some.injEq] at hrequest
      have hsame : t.firstAccount = u.firstAccount := by
        rw [Task.firstAccount, hrequest, ← Task.firstAccount]
      rw [Hall.asked_task hold] at hb ⊢
      rw [hfirst, hsame]
      exact Task.firstAccount_mem_asked hb

/-- The accounts of all that was put into the book are registered. -/
structure Registered (before : Book) (o : Office) (rows : List (Option Nat × Transaction)) :
    Prop where
  ordered : o.Ordered
  booked : Booked before o rows
  accounts : ∀ row ∈ rows, row.2.fromAccount ∈ o.registry ∧ row.2.toAccount ∈ o.registry

theorem Registered.step {before : Book} {rows : List (Option Nat × Transaction)}
    (h : Registered before o rows) (event : Event) :
    Registered before (o.step event) (rows ++ puts stored o event) := by
  refine ⟨h.ordered.step event, h.booked.step h.ordered event, fun row hrow => ?_⟩
  have hgrows : o.registry ⊆ (o.step event).registry :=
    (registry_grows h.ordered.kept [event]).subset
  suffices row.2.fromAccount ∈ o.registry ∧ row.2.toAccount ∈ o.registry from
    ⟨hgrows this.1, hgrows this.2⟩
  have hcommitted := o.step_committed event
  generalize puts stored o event = new at hcommitted hrow
  generalize o.step event = o' at hcommitted
  cases List.mem_append.1 hrow with
  | inl hrow => exact h.accounts row hrow
  | inr hrow =>
    cases hcommitted with
    | nothing => cases hrow
    | @one s i tx _ hbegun hsaved hbook hfate =>
      rw [List.mem_singleton] at hrow
      subst hrow
      obtain ⟨t, htask, -, hmade⟩ := h.ordered.saving i _ hbegun
      obtain ⟨id, now, rfl⟩ := hmade tx rfl
      have hregistered {a : String} (ha : a ∈ t.accounts) : a ∈ o.registry :=
        mem_registry_of_asked h.ordered.kept
          (h.ordered.kept.asked_of_holder (h.ordered.holder_of_saving hbegun htask ha))
      exact ⟨hregistered (Task.mem_accounts_iff.2 (.inl rfl)),
        hregistered (Task.mem_accounts_iff.2 (.inr rfl))⟩

theorem Registered.after {before : Book} {rows : List (Option Nat × Transaction)}
    (h : Registered before o rows) (events : List Event) :
    Registered before (o.after events) (rows ++ o.rows events) := by
  induction events generalizing o rows with
  | nil => simpa [Office.rows, added] using h
  | cons event events ih =>
    have hrest := ih (h.step event)
    rw [List.append_assoc] at hrest
    exact hrest

def Event.isVisit : Event → Bool
  | .hall (.acquire _) | .hall (.acquirePair _ _) => true
  | _ => false

theorem hall_checked {h : Hall} (hchecked : ∀ t ∈ h.engine.tasks, t.Checked)
    (event : Hall.Event) : ∀ t ∈ (h.step event).engine.tasks, t.Checked := by
  cases event with
  | acquire account => exact hchecked
  | acquirePair a b => exact hchecked
  | move m =>
    simp only [Hall.step]
    split
    · exact hchecked
    · exact Engine.checked_move hchecked m
  | ask n =>
    simp only [Hall.step, Hall.ask]
    split
    · exact hchecked
    · split
      · exact hchecked
      · split <;> exact hchecked
  | drop n =>
    simp only [Hall.step, Hall.drop]
    split
    · exact hchecked
    · next v _ => exact (Hall.leaves_frame n v.asked h.engine).1 ▸ hchecked

theorem step_checked (h : ∀ t ∈ o.engine.tasks, t.Checked) (event : Event) :
    ∀ t ∈ (o.step event).engine.tasks, t.Checked := by
  cases event with
  | hall event =>
    simp only [Office.step]
    split
    · exact hall_checked h event
    · exact h
  | submit s i =>
    have hmoved := o.step_moved (.submit s i)
    generalize o.step (.submit s i) = o' at hmoved ⊢
    cases hmoved <;> exact h
  | answer s i =>
    have hmoved := o.step_moved (.answer s i)
    generalize o.step (.answer s i) = o' at hmoved ⊢
    cases hmoved with
    | idle => exact h
    | panicked => exact h
    | @answered _ _ tx hbegun => exact (o.engine.save_frame s tx.posting).1 ▸ h
  | announce i now =>
    have hmoved := o.step_moved (.announce i now)
    generalize o.step (.announce i now) = o' at hmoved ⊢
    cases hmoved with
    | idle => exact h
    | announced => exact (o.engine.tasks_announce ..) ▸ h
  | release i =>
    have hmoved := o.step_moved (.release i)
    generalize o.step (.release i) = o' at hmoved ⊢
    cases hmoved with
    | idle => exact h
    | released htask =>
      exact Engine.forall_modify_stage h htask (Engine.tasks_finish ..) trivial

theorem step_unvisited (h : o.hall.visitors = []) (hevent : event.isVisit = false) :
    (o.step event).hall.visitors = [] := by
  obtain ⟨⟨e, vs⟩, saves⟩ := o
  subst h
  cases event with
  | hall event =>
    simp only [Office.step]
    split
    · cases event with
      | acquire account => cases hevent
      | acquirePair a b => cases hevent
      | move m => cases hm : m.isOfGuard <;> simp [Hall.step, hm]
      | ask n => simp [Hall.step, Hall.ask]
      | drop n => simp [Hall.step, Hall.drop]
    · rfl
  | submit s i =>
    simp only [Office.step]
    split
    · split <;> rfl
    · rfl
  | answer s i =>
    simp only [Office.step]
    split
    · split <;> rfl
    · rfl
  | announce i now =>
    simp only [Office.step]
    split <;> rfl
  | release i =>
    simp only [Office.step]
    split <;> rfl

theorem not_blank_of_requests (hchecked : ∀ t ∈ o.engine.tasks, t.Checked)
    (hunvisited : o.hall.visitors = []) (hevents : ∀ event ∈ events, event.isVisit = false)
    (h : o.Requests w a events) : Text.blank a = false := by
  have hnow {o : Office} (hchecked : ∀ t ∈ o.engine.tasks, t.Checked)
      (hunvisited : o.hall.visitors = []) (ha : a ∈ o.hall.asked w) : Text.blank a = false := by
    have hwants := Hall.wants_of_asked ha
    cases w with
    | task i =>
      obtain ⟨t, htask, -, hasked, -⟩ := hwants
      exact (hchecked t (List.mem_of_getElem? htask)).account_of_asked hasked
    | guard n =>
      obtain ⟨v, hv, -⟩ := hwants
      simp [hunvisited] at hv
  induction events generalizing o with
  | nil => exact hnow hchecked hunvisited h
  | cons event events ih =>
    cases h with
    | inl ha => exact hnow hchecked hunvisited ha
    | inr h =>
      have hevent := hevents event List.mem_cons_self
      exact ih (step_checked hchecked event) (step_unvisited hunvisited hevent)
        (fun event hmem => hevents event (List.mem_cons_of_mem _ hmem)) h

/-- In every run the registry holds each account whose lock somebody has asked for once, and no
others, and loses none. A posting that something speaks against adds none. An event adds one account
at most, which somebody now asks for; a posting asks for its lesser account first, and for the
greater one only while it holds the lesser. The accounts of all that is committed are registered,
and none that is blank if only postings come. -/
theorem registry_of_run {e : Engine} (h : e.Idle) (events more : List Event) :
    let o := (opened e).after events
    (o.registry.Nodup ∧ ∀ a, a ∈ o.registry ↔ ∃ w, (opened e).Requests w a events) ∧
    o.registry <+: (o.after more).registry ∧
    (∀ s i t outcome, o.engine.tasks[i]? = some t →
      (o.engine.objectionsTo s t).head? = some outcome →
      let stop := Event.hall (.move (.step s i))
      (o.step stop).engine.outcome? i = some outcome ∧ (o.step stop).registry = o.registry ∧
        ∀ a, ¬ (opened e).Requests (.task i) a (events ++ stop :: more)) ∧
    (∀ event, (o.step event).registry = o.registry ∨
      ∃ a w, a ∉ o.registry ∧ (o.step event).registry = o.registry ++ [a] ∧
        a ∈ (o.step event).hall.asked w ∧ a ∉ o.hall.asked w) ∧
    (∀ event i t a, (o.step event).engine.tasks[i]? = some t → a ∈ t.asked →
      a ∉ o.hall.asked (.task i) → o.AsksNext i t a) ∧
    (∃ new, o.engine.book.transactions = e.book.transactions ++ new ∧
      ∀ tx ∈ new, tx.fromAccount ∈ o.registry ∧ tx.toAccount ∈ o.registry) ∧
    ((∀ event ∈ events, event.isVisit = false) → ∀ a ∈ o.registry, Text.blank a = false) := by
  intro o
  have hordered : o.Ordered := (ordered_opened h).after events
  have hempty : (opened e).registry = [] := by
    simp [registry, opened, engine, h.locks, Locks.accounts]
  have hregistered : Registered e.book o ((opened e).rows events) :=
    Registered.after ⟨ordered_opened h, booked_opened h, by simp⟩ events
  have hmem (a : String) : a ∈ o.registry ↔ ∃ w, (opened e).Requests w a events := by
    rw [mem_registry_after (ordered_opened h).kept, hempty]
    simp
  refine ⟨⟨hordered.kept.orderly.accounts, hmem⟩, registry_grows hordered.kept more,
    fun s i t outcome htask hfirst => hordered.stopped htask hfirst,
    step_registry hordered.kept, fun event i t a htask => hordered.asksNext event htask,
    ⟨_, hregistered.booked.transactions, ?_⟩, fun hevents a ha => ?_⟩
  · intro tx htx
    obtain ⟨row, hrow, rfl⟩ := List.mem_map.1 htx
    exact hregistered.accounts row hrow
  · obtain ⟨w, hrequests⟩ := (hmem a).1 ha
    have hnobody : ∀ t ∈ (opened e).engine.tasks, t.Checked := by
      simp [opened, engine, h.tasks]
    exact not_blank_of_requests hnobody rfl hevents hrequests

def keyless : List Event :=
  [.hall (.move (.start ⟨"x", "y", .ofWord false 5, ""⟩)), .hall (.move (.step Engine.calm 4))]

/-- In the rush two postings wait for an account that they share with a third; the next account of
both is registered only when one of them, the other being cancelled, holds that one. -/
theorem registry_of_run_rush :
    (Engine.inMemory .absent).Idle ∧
      ((opened (Engine.inMemory .absent)).after rush).registry = ["a", "b", "d", "e"] ∧
      (((opened (Engine.inMemory .absent)).after rush).after aftermath).registry =
        ["a", "b", "d", "e", "c"] ∧
      (∃ w, (opened (Engine.inMemory .absent)).Requests w "e" rush) ∧
      (∀ a ∈ ((opened (Engine.inMemory .absent)).after rush).registry, Text.blank a = false) ∧
      ∀ a, ¬ (opened (Engine.inMemory .absent)).Requests (.task 4) a
        (rush ++ keyless ++ aftermath) := by
  have hidle : (Engine.inMemory .absent).Idle := (Engine.Fresh.inMemory .absent).idle
  have hrush : ((opened (Engine.inMemory .absent)).after rush).registry = ["a", "b", "d", "e"] := by
    decide +kernel
  obtain ⟨⟨-, hmem⟩, -, -, -, -, -, hblank⟩ := registry_of_run hidle rush aftermath
  obtain ⟨-, -, hstopped, -⟩ := registry_of_run hidle (rush ++ keyless.take 1) aftermath
  obtain ⟨-, -, hnever⟩ := hstopped Engine.calm 4 ⟨⟨"x", "y", .ofWord false 5, ""⟩, .preCheck⟩
    (.failed .missingKey) (by decide +kernel) (by decide +kernel)
  exact ⟨hidle, hrush, by decide +kernel, (hmem "e").1 (by rw [hrush]; decide),
    hblank (by decide), hnever⟩

end Office

end Bookkeeping
