import Bookkeeping.Proofs.Engine.CommitOrder
import Bookkeeping.Proofs.Engine.Publishing

/-! The notices of complete transactions. With a notifier that is running, one notice is queued for
each posting that ends as posted and none for any other; on each account the notices are queued in
the order in which the transactions were committed, since a posting queues its notice before it
gives up its locks. -/
namespace Bookkeeping

def Completion.touches (c : Completion) (account : String) : Bool :=
  c.fromAccount == account || c.toAccount == account

namespace Engine

theorem notify_running {e : Engine} (notice : Completion) (h : e.notifier.isRunning = true) :
    (e.notify notice).notifier.waiting = e.notifier.waiting ++ [notice] ∧
      (e.notify notice).notifier.isRunning = true := by
  unfold notify
  cases hnotifier : e.notifier with
  | running p waiting =>
    simp only [notifier_awaken]
    exact ⟨rfl, rfl⟩
  | _ =>
    rw [hnotifier] at h
    cases h

end Engine

namespace Office

/-- What has become of a posting by its task and its save, and been told. -/
def toldOf (task : Option Task) : Option SaveStage → Option Outcome
  | some (.begun _) | some (.answered _ _) => none
  | some (.settled outcome) => some outcome
  | none => task.bind (·.outcome?)

def told? (o : Office) (i : Nat) : Option Outcome := toldOf o.engine.tasks[i]? (o.saves i)

theorem Progressed.toldOf {e : Engine} {j : Nat} {task task' : Option Task}
    {save save' : Option SaveStage} (h : Progressed e j task save task' save') :
    (∀ tx, toldOf task' save' = some (.posted tx) ↔ toldOf task save = some (.posted tx)) ∨
      ∃ tx, save = some (.answered tx (.ok .saved)) ∧ save' = some (.settled (.posted tx)) := by
  cases h with
  | still => exact .inl fun tx => Iff.rfl
  | came r hnew =>
    subst hnew
    cases save with
    | none => exact .inl fun tx => by simp [Office.toldOf, Task.outcome?]
    | some stage => cases stage <;> exact .inl fun tx => Iff.rfl
  | onward htask hfree honward =>
    subst hfree
    have hbefore : Office.toldOf task none = none := fateOf_open htask honward.opened
    rw [hbefore]
    refine .inl fun tx => ⟨fun h => ?_, fun h => by cases h⟩
    rw [Office.toldOf, Option.bind_some, Task.outcome?_eq_some] at h
    exact absurd h (honward.unposted tx)
  | @submitted t _ _ htask hstage hfree =>
    subst hfree
    have hopen : t.isFinished = false := by simp [Task.isFinished, hstage]
    have hbefore : Office.toldOf task none = none := fateOf_open htask hopen
    rw [hbefore]
    exact .inl fun tx => Iff.rfl
  | panicked hbegun =>
    subst hbegun
    exact .inl fun tx => by simp [Office.toldOf]
  | answered hbegun answer =>
    subst hbegun
    exact .inl fun tx => Iff.rfl
  | @announced tx answer hanswered =>
    subst hanswered
    cases answer with
    | error error => exact .inl fun tx => by simp [Office.toldOf, Outcome.ofSave]
    | ok outcome =>
      cases outcome with
      | saved => exact .inr ⟨_, rfl, rfl⟩
      | duplicateKey => exact .inl fun tx => by simp [Office.toldOf, Outcome.ofSave]
  | released htask hsettled =>
    subst hsettled
    exact .inl fun tx => by simp [Office.toldOf, Task.outcome?]

variable {o : Office} {event : Event} {i j : Nat} {t : Task} {tx : Transaction}

theorem told?_step (h : ∀ j tx, o.saves j = some (.answered tx (.ok .saved)) →
    (o.step event).saves j ≠ some (.settled (.posted tx))) (i : Nat) (tx : Transaction) :
    (o.step event).told? i = some (.posted tx) ↔ o.told? i = some (.posted tx) := by
  cases (o.step_progressed event i).toldOf with
  | inl hsame => exact hsame tx
  | inr hsettled =>
    obtain ⟨tx', hanswered, htold⟩ := hsettled
    exact absurd htold (h i tx' hanswered)

def queue (o : Office) : List Completion := o.engine.notifier.waiting

def notices (o : Office) (events : List Event) : List (Option Nat × Completion) :=
  added queue o events

/-- What an event makes of the queue and of what is told: no notice is queued, or that of one save
of which the store has answered that its transaction is saved. -/
inductive Announced (o : Office) :
    Event → Office → List (Option Nat × Completion) → Prop where
  | nothing {event : Event} {o' : Office}
    (htold : ∀ i tx, o'.told? i = some (.posted tx) ↔ o.told? i = some (.posted tx)) :
    Announced o event o' []
  | one {i : Nat} {now : Moment} {tx : Transaction} {o' : Office}
    (hanswered : o.saves i = some (.answered tx (.ok .saved)))
    (htold : ∀ j tx', o'.told? j = some (.posted tx') ↔
      j = i ∧ tx' = tx ∨ o.told? j = some (.posted tx')) :
    Announced o (.announce i now) o' [(some i, tx.completion now)]

theorem step_announced (hrunning : o.engine.notifier.isRunning = true)
    (hgoing : event ≠ .hall (.move .stopNotifier)) :
    (o.step event).engine.notifier.isRunning = true ∧
      Announced o event (o.step event) (puts queue o event) := by
  have hputs (more : List Completion) (h : (o.step event).queue = o.queue ++ more) :
      puts queue o event = more.map (event.index?, ·) := puts_eq_of_append h
  -- nothing is queued where the queue does not grow and no save is settled as posted
  have hnothing (hqueue : (o.step event).queue.length ≤ o.queue.length)
      (h : ∀ j tx, o.saves j = some (.answered tx (.ok .saved)) →
        (o.step event).saves j ≠ some (.settled (.posted tx))) :
      Announced o event (o.step event) (puts queue o event) := by
    rw [puts_eq_nil hqueue]
    exact .nothing (told?_step h)
  have hmoved := o.step_moved event
  have hprogressed := o.step_progressed event
  generalize puts queue o event = new at hputs hnothing ⊢
  generalize o.step event = o' at hmoved hprogressed hputs hnothing ⊢
  have hsame (hnotifier : o'.engine.notifier = o.engine.notifier) (hsaves : o'.saves = o.saves) :
      o'.engine.notifier.isRunning = true ∧ Announced o event o' new := by
    refine ⟨hnotifier ▸ hrunning, hnothing ?_ fun j tx hanswered => ?_⟩
    · rw [queue, hnotifier, queue]
    · rw [hsaves, hanswered]
      simp
  have hput {e : Engine} {i : Nat} {stage : Option SaveStage} (ho' : o' = o.put e i stage)
      (hnotifier : e.notifier = o.engine.notifier)
      (hstage : ∀ tx, o.saves i = some (.answered tx (.ok .saved)) →
        stage ≠ some (.settled (.posted tx))) :
      o'.engine.notifier.isRunning = true ∧ Announced o event o' new := by
    have hengine : o'.engine = e := ho' ▸ rfl
    refine ⟨by rw [hengine, hnotifier, hrunning], hnothing ?_ fun j tx hanswered => ?_⟩
    · rw [queue, hengine, hnotifier, queue]
    · rw [ho', saves_put]
      split
      · next hj => exact hstage tx (hj ▸ hanswered)
      · rw [hanswered]
        simp
  cases hmoved with
  | idle => exact hsame rfl rfl
  | rested hrest =>
    have hstill : o'.engine.notifier.isRunning = o.engine.notifier.isRunning :=
      hrest.running fun hstop => hgoing (congrArg Event.hall hstop)
    refine ⟨hstill.trans hrunning, hnothing hrest.waiting.length_le fun j tx hanswered => ?_⟩
    rw [hrest.saves, hanswered]
    simp
  | started r hengine hsaves => exact hsame (hengine ▸ rfl) hsaves
  | onward htask hfree honward hsaves => exact hsame honward.notifier hsaves
  | submitted htask hstage hfree => exact hput rfl rfl (by simp)
  | panicked hbegun => exact hput rfl rfl (by simp)
  | answered hbegun => exact hput rfl (Engine.save_notifier ..) (by simp)
  | released htask hsettled => exact hput rfl (Engine.notifier_finish ..) (by simp)
  | @announced i now tx answer hanswered =>
    cases answer with
    | error error => exact hput rfl rfl (by simp [hanswered])
    | ok outcome =>
      cases outcome with
      | duplicateKey => exact hput rfl rfl (by simp [hanswered])
      | saved =>
        obtain ⟨hwaiting, hstill⟩ := Engine.notify_running (tx.completion now) hrunning
        refine ⟨hstill, ?_⟩
        rw [hputs [tx.completion now] hwaiting, List.map_singleton]
        refine .one hanswered fun j tx' => ?_
        by_cases hj : j = i
        · subst hj
          have hsilent : o.told? j = none := by rw [told?, hanswered, toldOf]
          rw [hsilent, told?, saves_put_self, toldOf]
          simp [Outcome.ofSave, eq_comm]
        · simp only [hj, false_and, false_or]
          cases (hprogressed j).toldOf with
          | inl hsame => exact hsame tx'
          | inr hsettled =>
            obtain ⟨tx'', hbefore, hafter⟩ := hsettled
            rw [saves_put, if_neg hj, hbefore] at hafter
            cases hafter

variable {before : Book} {rows : List (Option Nat × Transaction)}
  {notices : List (Option Nat × Completion)} {a : String}

/-- For each posting that is told to be posted there is one notice, that of its transaction. -/
structure Noticed (o : Office) (notices : List (Option Nat × Completion)) : Prop where
  told : ∀ i tx, o.told? i = some (.posted tx) → ∃ now, (some i, tx.completion now) ∈ notices
  posted : ∀ notice ∈ notices, ∃ i tx now, o.told? i = some (.posted tx) ∧
    notice = (some i, tx.completion now)
  nodup : (notices.map (·.1)).Nodup

theorem noticed_opened {e : Engine} (h : e.Idle) : (opened e).Noticed [] where
  told i tx htold := by simp [told?, opened, engine, h.tasks, toldOf] at htold
  posted notice hnotice := by cases hnotice
  nodup := List.nodup_nil

theorem Noticed.notMem (h : o.Noticed notices) (hsilent : ∀ tx, o.told? i ≠ some (.posted tx)) :
    some i ∉ notices.map (·.1) := by
  intro hmem
  obtain ⟨notice, hnotice, hi⟩ := List.mem_map.1 hmem
  obtain ⟨j, tx, now, htold, rfl⟩ := h.posted notice hnotice
  cases hi
  exact hsilent tx htold

theorem told?_of_answered {answer : Except Error SaveOutcome}
    (h : o.saves i = some (.answered tx answer)) : o.told? i = none := by
  rw [told?, h, toldOf]

theorem Noticed.step (h : o.Noticed notices) (hrunning : o.engine.notifier.isRunning = true)
    (hgoing : event ≠ .hall (.move .stopNotifier)) :
    (o.step event).Noticed (notices ++ puts queue o event) := by
  have hannounced := (step_announced hrunning hgoing).2
  generalize puts queue o event = new at hannounced ⊢
  generalize o.step event = o' at hannounced ⊢
  cases hannounced with
  | nothing htold =>
    rw [List.append_nil]
    refine ⟨fun i tx hposted => h.told i tx ((htold i tx).1 hposted), fun notice hnotice => ?_,
      h.nodup⟩
    obtain ⟨i, tx, now, hposted, heq⟩ := h.posted notice hnotice
    exact ⟨i, tx, now, (htold i tx).2 hposted, heq⟩
  | @one i now tx _ hanswered htold =>
    have hsilent : o.told? i = none := told?_of_answered hanswered
    have hfresh : some i ∉ notices.map (·.1) := h.notMem (by simp [hsilent])
    refine ⟨fun j tx' hposted => ?_, fun notice hnotice => ?_, ?_⟩
    · cases (htold j tx').1 hposted with
      | inl hnew =>
        obtain ⟨rfl, rfl⟩ := hnew
        exact ⟨now, by simp⟩
      | inr hold =>
        obtain ⟨now', hmem⟩ := h.told j tx' hold
        exact ⟨now', List.mem_append_left _ hmem⟩
    · rw [List.mem_append, List.mem_singleton] at hnotice
      cases hnotice with
      | inl hold =>
        obtain ⟨j, tx', now', hposted, heq⟩ := h.posted notice hold
        exact ⟨j, tx', now', (htold j tx').2 (.inr hposted), heq⟩
      | inr hnew => exact ⟨i, tx, now, (htold i tx).2 (.inl ⟨rfl, rfl⟩), hnew⟩
    · rw [List.map_append, List.map_singleton]
      exact h.nodup.append (List.nodup_singleton _) (List.disjoint_singleton.2 hfresh)

/-- The store has answered that the transaction of a posting is saved, and its notice is not queued
yet. -/
def Unannounced (o : Office) (x : Option Nat) : Prop :=
  ∃ i tx, x = some i ∧ o.saves i = some (.answered tx (.ok .saved))

/-- The notices on an account are queued in the order of its rows; those rows that have none yet
stand behind. -/
def Following (o : Office) (a : String) (rows : List (Option Nat × Transaction))
    (notices : List (Option Nat × Completion)) : Prop :=
  ∃ rest, owners (·.touches a) rows = owners (·.touches a) notices ++ rest ∧
    ∀ x ∈ rest, o.Unannounced x

theorem saves_step_of_answered (h : o.saves i = some (.answered tx (.ok .saved)))
    (hsilent : ∀ tx', (o.step event).told? i ≠ some (.posted tx')) :
    (o.step event).saves i = some (.answered tx (.ok .saved)) := by
  have hprogressed := o.step_progressed event i
  rw [h] at hprogressed
  unfold told? at hsilent
  generalize o.engine.tasks[i]? = task, (o.step event).engine.tasks[i]? = task',
    (o.step event).saves i = save' at hprogressed hsilent ⊢
  cases hprogressed with
  | still => rfl
  | came r hnew => rfl
  | onward htask hfree honward => cases hfree
  | submitted htask hstage hfree => cases hfree
  | panicked hbegun => cases hbegun
  | answered hbegun answer => cases hbegun
  | announced hanswered =>
    cases hanswered
    exact absurd rfl (hsilent tx)
  | released htask hsettled => cases hsettled

theorem Booked.mem_accounts (h : Booked before o rows) (hi : some i ∈ owners (·.touches a) rows)
    (htask : o.engine.tasks[i]? = some t) : a ∈ t.accounts := by
  obtain ⟨tx, hrow, htouches⟩ := mem_owners.1 hi
  obtain ⟨j, r, id, now, hj, hr, htx⟩ := h.requested _ hrow
  cases hj
  rw [Engine.request?_of_task htask, Option.some.injEq] at hr
  subst hr
  simp only at htx
  subst htx
  exact mem_accounts_of_touches htouches

theorem fate?_of_answered (h : o.saves i = some (.answered tx (.ok .saved))) :
    o.fate? i = some (.posted tx) := by
  rw [fate?, h, fateOf, Outcome.ofSave]

theorem Booked.touches_of_owner (h : Booked before o rows)
    (hi : some i ∈ owners (·.touches a) rows) (hfate : o.fate? i = some (.posted tx)) :
    tx.touches a = true := by
  obtain ⟨tx₀, hrow, htouches⟩ := mem_owners.1 hi
  rw [(h.fate i tx₀).1 hrow, Option.some.injEq, Outcome.posted.injEq] at hfate
  exact hfate ▸ htouches

theorem Booked.eq_of_saving (h : Booked before o rows) (hordered : o.Ordered)
    {stage stage' : SaveStage} (hi : some i ∈ owners (·.touches a) rows)
    (hj : some j ∈ owners (·.touches a) rows) (hsi : o.saves i = some stage)
    (hsj : o.saves j = some stage') : i = j := by
  obtain ⟨t, hti, -⟩ := hordered.saving i stage hsi
  obtain ⟨u, htj, -⟩ := hordered.saving j stage' hsj
  by_contra hne
  exact hordered.disjoint hne hsi hsj hti htj (h.mem_accounts hi hti) (h.mem_accounts hj htj)

theorem following_opened (e : Engine) (a : String) : (opened e).Following a [] [] :=
  ⟨[], rfl, by simp⟩

theorem eq_singleton_of_nodup {α : Type} {l : List α} {x : α} (hnodup : l.Nodup) (hx : x ∈ l)
    (h : ∀ y ∈ l, y = x) : l = [x] := by
  have hperm : l.Perm [x] := by
    rw [List.perm_ext_iff_of_nodup hnodup (List.nodup_singleton x)]
    intro y
    rw [List.mem_singleton]
    exact ⟨h y, fun hy => hy ▸ hx⟩
  exact List.perm_singleton.1 hperm

/-- When the notice of a row is queued, no other row on its accounts is left without one. -/
theorem Following.announce (h : o.Following a rows notices) (hbooked : Booked before o rows)
    (hordered : o.Ordered) (hnoticed : o.Noticed notices)
    (hanswered : o.saves i = some (.answered tx (.ok .saved))) (htouches : tx.touches a = true) :
    owners (·.touches a) rows = owners (·.touches a) notices ++ [some i] := by
  obtain ⟨rest, hrows, hrest⟩ := h
  have hmem : some i ∈ owners (·.touches a) rows :=
    mem_owners.2 ⟨tx, (hbooked.fate i tx).2 (fate?_of_answered hanswered), htouches⟩
  have hsilent : some i ∉ owners (·.touches a) notices := fun hi =>
    hnoticed.notMem (by simp [told?_of_answered hanswered]) ((owners_sublist _ _).subset hi)
  have hnodup : (owners (·.touches a) rows).Nodup := hbooked.nodup.sublist (owners_sublist _ _)
  have hlast : rest = [some i] := by
    rw [hrows] at hnodup
    refine eq_singleton_of_nodup (List.nodup_append.1 hnodup).2.1 ?_ fun x hx => ?_
    · rw [hrows, List.mem_append] at hmem
      exact hmem.resolve_left hsilent
    · obtain ⟨j, tx', rfl, hj⟩ := hrest x hx
      have hmem' : some j ∈ owners (·.touches a) rows := hrows ▸ List.mem_append_right _ hx
      rw [hbooked.eq_of_saving hordered hmem' hmem hj hanswered]
  rw [hrows, hlast]

theorem Following.step (h : o.Following a rows notices) (hbooked : Booked before o rows)
    (hordered : o.Ordered) (hnoticed : o.Noticed notices)
    (hrunning : o.engine.notifier.isRunning = true)
    (hgoing : event ≠ .hall (.move .stopNotifier)) :
    (o.step event).Following a (rows ++ puts stored o event) (notices ++ puts queue o event) := by
  have hkeeps {j : Nat} {tx : Transaction} (hj : o.saves j = some (.answered tx (.ok .saved)))
      (hsilent : ∀ tx', (o.step event).told? j ≠ some (.posted tx')) :
      (o.step event).Unannounced (some j) :=
    ⟨j, tx, rfl, saves_step_of_answered hj hsilent⟩
  have hcommitted := o.step_committed event
  have hannounced := (step_announced hrunning hgoing).2
  generalize puts stored o event = newRows at hcommitted ⊢
  generalize puts queue o event = newNotices at hannounced ⊢
  generalize o.step event = o' at hcommitted hannounced hkeeps ⊢
  unfold Following
  rw [owners_append, owners_append]
  obtain ⟨rest, hrows, hrest⟩ := id h
  cases hannounced with
  | nothing htold =>
    have hrest' : ∀ x ∈ rest, o'.Unannounced x := by
      intro x hx
      obtain ⟨j, tx, rfl, hj⟩ := hrest x hx
      exact hkeeps hj fun tx' hposted => by
        rw [htold, told?_of_answered hj] at hposted
        cases hposted
    cases hcommitted with
    | nothing hbook hfate => exact ⟨rest, by simpa using hrows, hrest'⟩
    | @one s i tx _ hbegun hsaved hbook hfate =>
      refine ⟨rest ++ owners (·.touches a) [(some i, tx)], by simp [hrows], ?_⟩
      intro x hx
      rw [List.mem_append] at hx
      cases hx with
      | inl hx => exact hrest' x hx
      | inr hx =>
        obtain ⟨tx', hmem, -⟩ := mem_owners.1 hx
        obtain ⟨rfl, rfl⟩ := Prod.mk.inj (List.mem_singleton.1 hmem)
        exact ⟨i, tx', rfl, hsaved⟩
  | @one i now tx _ hanswered htold =>
    cases hcommitted with
    | nothing hbook hfate =>
      rw [owners_singleton]
      have htouched : (tx.completion now).touches a = tx.touches a := rfl
      rw [htouched]
      cases htouches : tx.touches a with
      | true =>
        refine ⟨[], ?_, by simp⟩
        simpa using h.announce hbooked hordered hnoticed hanswered htouches
      | false =>
        refine ⟨rest, by simpa using hrows, fun x hx => ?_⟩
        obtain ⟨j, tx', rfl, hj⟩ := hrest x hx
        refine hkeeps hj fun tx'' hposted => ?_
        rw [htold, told?_of_answered hj] at hposted
        cases hposted with
        | inr hposted => cases hposted
        | inl hposted =>
          -- the posting whose notice is queued has its one row on other accounts
          obtain ⟨rfl, -⟩ := hposted
          have hmem : some j ∈ owners (·.touches a) rows := hrows ▸ List.mem_append_right _ hx
          rw [hbooked.touches_of_owner hmem (fate?_of_answered hanswered)] at htouches
          cases htouches

/-- The rows and the notices of a run while its notifier is running. -/
structure Published (before : Book) (o : Office) (rows : List (Option Nat × Transaction))
    (notices : List (Option Nat × Completion)) : Prop where
  running : o.engine.notifier.isRunning = true
  ordered : o.Ordered
  booked : Booked before o rows
  noticed : o.Noticed notices
  following : ∀ a, o.Following a rows notices

theorem published_opened {e : Engine} (h : e.Idle) (hrunning : e.notifier.isRunning = true) :
    Published e.book (opened e) [] [] :=
  ⟨hrunning, ordered_opened h, booked_opened h, noticed_opened h, following_opened e⟩

theorem Published.step (h : Published before o rows notices)
    (hgoing : event ≠ .hall (.move .stopNotifier)) :
    Published before (o.step event) (rows ++ puts stored o event)
      (notices ++ puts queue o event) where
  running := (step_announced h.running hgoing).1
  ordered := h.ordered.step event
  booked := h.booked.step h.ordered event
  noticed := h.noticed.step h.running hgoing
  following a := (h.following a).step h.booked h.ordered h.noticed h.running hgoing

theorem Published.after (h : Published before o rows notices) {events : List Event}
    (hgoing : ∀ event ∈ events, event ≠ .hall (.move .stopNotifier)) :
    Published before (o.after events) (rows ++ o.rows events) (notices ++ o.notices events) := by
  induction events generalizing o rows notices with
  | nil => simpa [Office.rows, Office.notices, added] using h
  | cons event events ih =>
    have hfirst := hgoing event List.mem_cons_self
    have hrest := ih (h.step hfirst) fun event' hmem => hgoing event' (List.mem_cons_of_mem _ hmem)
    rw [List.append_assoc, List.append_assoc] at hrest
    exact hrest

theorem Ordered.saves_of_outcome (h : o.Ordered) {outcome : Outcome}
    (hout : o.engine.outcome? i = some outcome) : o.saves i = none := by
  cases hsave : o.saves i with
  | none => rfl
  | some stage =>
    obtain ⟨t, htask, hstage, -⟩ := h.saving i stage hsave
    have hopen : t.isFinished = false := by simp [Task.isFinished, hstage]
    rw [Engine.outcome?_of_open htask hopen] at hout
    cases hout

theorem told?_of_free (h : o.saves i = none) : o.told? i = o.engine.outcome? i := by
  rw [told?, h, toldOf, Engine.outcome?]

theorem fate?_of_free (h : o.saves i = none) : o.fate? i = o.engine.outcome? i := by
  rw [fate?, h, fateOf, Engine.outcome?]

theorem ended_of_told (h : o.told? i = some (.posted tx)) :
    o.engine.outcome? i = some (.posted tx) ∨ o.saves i = some (.settled (.posted tx)) := by
  cases hsave : o.saves i with
  | none => exact .inl (told?_of_free hsave ▸ h)
  | some stage =>
    rw [told?, hsave] at h
    cases stage with
    | begun tx' => cases h
    | answered tx' answer => cases h
    | settled outcome =>
      rw [toldOf, Option.some.injEq] at h
      exact .inr (h ▸ rfl)

theorem filter_eq_singleton {α : Type} {list : List (Option Nat × α)} {k : Option Nat} {v : α}
    (hnodup : (list.map (·.1)).Nodup) (hmem : (k, v) ∈ list) :
    list.filter (·.1 == k) = [(k, v)] := by
  refine eq_singleton_of_nodup (hnodup.of_map.filter _) (by simp [hmem]) fun y hy => ?_
  obtain ⟨hy, hk⟩ := List.mem_filter.1 hy
  exact List.inj_on_of_nodup_map hnodup hy hmem (beq_iff_eq.1 hk)

/-- With a notifier that is running, the notices are one to one with the postings that end as
posted, and on each account they are queued in the order of the rows; how the publisher fares
changes neither the book nor any outcome. -/
theorem notices_of_posted {e : Engine} (h : e.Idle) (hrunning : e.notifier.isRunning = true)
    (events : List Event) (hgoing : ∀ event ∈ events, event ≠ .hall (.move .stopNotifier)) :
    (∀ i tx, ((opened e).after events).engine.outcome? i = some (.posted tx) → ∃ now,
      ((opened e).notices events).filter (·.1 == some i) = [(some i, tx.completion now)]) ∧
    (∀ i outcome, ((opened e).after events).engine.outcome? i = some outcome →
      (∀ tx, outcome ≠ .posted tx) → some i ∉ ((opened e).notices events).map (·.1)) ∧
    (∀ notice ∈ (opened e).notices events, ∃ i tx now, notice = (some i, tx.completion now) ∧
      (((opened e).after events).engine.outcome? i = some (.posted tx) ∨
        ((opened e).after events).saves i = some (.settled (.posted tx)))) ∧
    ((opened e).after events).engine.book.transactions =
      e.book.transactions ++ ((opened e).rows events).map (·.2) ∧
    (∀ i tx, ((opened e).after events).engine.outcome? i = some (.posted tx) →
      ((opened e).rows events).filter (·.1 == some i) = [(some i, tx)]) ∧
    (∀ a, ∃ rest, owners (·.touches a) ((opened e).rows events) =
        owners (·.touches a) ((opened e).notices events) ++ rest ∧
      ∀ x ∈ rest, ((opened e).after events).Unannounced x) ∧
    ∀ e' events', Engine.Twin e e' →
      events.filterMap Event.muted = events'.filterMap Event.muted →
      ((opened e).after events).engine.store = ((opened e').after events').engine.store ∧
        ∀ i, ((opened e).after events).engine.outcome? i =
          ((opened e').after events').engine.outcome? i := by
  have hend : Published e.book ((opened e).after events) ((opened e).rows events)
      ((opened e).notices events) := (published_opened h hrunning).after hgoing
  refine ⟨fun i tx hout => ?_, fun i outcome hout hposted => ?_, fun notice hnotice => ?_,
    hend.booked.transactions, fun i tx hout => ?_, hend.following, fun e' events' htwin hsame => ?_⟩
  · have hfree := hend.ordered.saves_of_outcome hout
    obtain ⟨now, hmem⟩ := hend.noticed.told i tx (told?_of_free hfree ▸ hout)
    exact ⟨now, filter_eq_singleton hend.noticed.nodup hmem⟩
  · have hfree := hend.ordered.saves_of_outcome hout
    refine hend.noticed.notMem fun tx htold => ?_
    rw [told?_of_free hfree, hout, Option.some.injEq] at htold
    exact hposted tx htold
  · obtain ⟨i, tx, now, htold, rfl⟩ := hend.noticed.posted notice hnotice
    exact ⟨i, tx, now, rfl, ended_of_told htold⟩
  · have hfree := hend.ordered.saves_of_outcome hout
    exact filter_eq_singleton hend.booked.nodup
      ((hend.booked.fate i tx).2 (fate?_of_free hfree ▸ hout))
  · have htwins := (opened_twin htwin).after hsame
    exact ⟨htwins.engine.store, htwins.engine.outcome?⟩

def publishedRush : List Event := rush ++ [.hall (.move (.deliver Engine.calm))] ++ aftermath

theorem notices_of_posted_rush :
    (Engine.inMemory (.running .keeping [])).Idle ∧
      (∀ event ∈ publishedRush, event ≠ .hall (.move .stopNotifier)) ∧
      (∃ now, ((opened (Engine.inMemory (.running .keeping []))).notices publishedRush).filter
        (·.1 == some 0) = [(some 0, ⟨.ofNat 0, "a", "b", .ofWord false 5, now⟩)]) ∧
      some 1 ∉ ((opened (Engine.inMemory (.running .keeping []))).notices publishedRush).map (·.1) ∧
      owners (·.touches "b") ((opened (Engine.inMemory (.running .keeping []))).notices
        publishedRush) = [some 0, some 2] ∧
      ((opened (Engine.inMemory (.running .keeping []))).after publishedRush).engine.store =
        ((opened (Engine.inMemory .stopped)).after (rush ++ aftermath)).engine.store := by
  have hidle : (Engine.inMemory (.running .keeping [])).Idle := (Engine.Fresh.inMemory _).idle
  have hgoing : ∀ event ∈ publishedRush, event ≠ .hall (.move .stopNotifier) := by
    simp [publishedRush, rush, aftermath]
  have htwin : Engine.Twin (Engine.inMemory (.running .keeping [])) (Engine.inMemory .stopped) :=
    ⟨rfl, rfl, rfl, rfl⟩
  have hsame : publishedRush.filterMap Event.muted = (rush ++ aftermath).filterMap Event.muted := by
    rw [publishedRush, List.append_assoc, List.filterMap_append, List.filterMap_append,
      List.filterMap_append]
    rfl
  obtain ⟨hposted, hother, -, -, -, -, hpublisher⟩ :=
    notices_of_posted hidle rfl publishedRush hgoing
  exact ⟨hidle, hgoing, hposted 0 ⟨.ofNat 0, "k", "a", "b", .ofWord false 5, .epoch⟩
    (by decide +kernel), hother 1 .cancelled (by decide +kernel) (by simp),
    by decide +kernel, (hpublisher _ _ htwin hsame).1⟩

end Office

end Bookkeeping
