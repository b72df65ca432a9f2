import Bookkeeping.Proofs.Engine.Office

/-! Postings that share an account save one after the other, in the order in which they got the
lock of the account: whoever is in a save holds the locks of all its accounts, from before its
beginning until its end. -/
namespace Bookkeeping

namespace Office

variable {o : Office} {event : Event} {i j : Nat} {t u : Task} {a : String} {w : Owner}

theorem kept_put {e : Engine} {stage : Option SaveStage} (h : o.hall.Kept)
    (htasks : e.tasks = o.engine.tasks) (hlocks : e.locks = o.engine.locks) :
    (o.put e i stage).hall.Kept := by
  refine h.congr hlocks fun w => ?_
  cases w with
  | task j => exact congrArg (fun ts => ((ts[j]?).map Task.asked).getD []) htasks
  | guard n => rfl

theorem step_locks (h : o.hall.Kept) (event : Event) :
    (o.step event).hall.Kept ∧ o.engine.locks.Turned (o.step event).engine.locks := by
  cases event with
  | hall event =>
    simp only [step]
    split
    · exact ⟨Hall.Kept.step h event, o.hall.step_turned event⟩
    · exact ⟨h, .still⟩
  | submit s i =>
    have hmoved := o.step_moved (.submit s i)
    generalize o.step (.submit s i) = o' at hmoved ⊢
    cases hmoved with
    | idle => exact ⟨h, .still⟩
    | submitted _ _ _ => exact ⟨kept_put h rfl rfl, .still⟩
  | answer s i =>
    have hmoved := o.step_moved (.answer s i)
    generalize o.step (.answer s i) = o' at hmoved ⊢
    cases hmoved with
    | idle => exact ⟨h, .still⟩
    | panicked _ => exact ⟨kept_put h rfl rfl, .still⟩
    | @answered _ _ tx hbegun =>
      obtain ⟨htasks, hlocks⟩ := o.engine.save_frame s tx.posting
      refine ⟨kept_put h htasks hlocks, ?_⟩
      rw [engine_put, hlocks]
      exact .still
  | announce i now =>
    have hmoved := o.step_moved (.announce i now)
    generalize o.step (.announce i now) = o' at hmoved ⊢
    cases hmoved with
    | idle => exact ⟨h, .still⟩
    | announced hanswered =>
      refine ⟨kept_put h (Engine.tasks_announce ..) (Engine.locks_announce ..), ?_⟩
      rw [engine_put, Engine.locks_announce]
      exact .still
  | release i =>
    have hmoved := o.step_moved (.release i)
    generalize o.step (.release i) = o' at hmoved ⊢
    cases hmoved with
    | idle => exact ⟨h, .still⟩
    | @released _ t outcome htask hsettled =>
      have hlocks := o.engine.locks_finish i t outcome
      have hended : Handled o.engine.locks i t (.finished outcome)
          (o.engine.finish i t outcome).locks := hlocks ▸ .ended outcome
      exact ⟨Hall.Kept.handled h htask (Engine.tasks_finish ..) hended, hended.turned⟩

/-- Who holds a lock and does not give it up goes on to hold it, whatever happens. -/
theorem holder_step (h : o.hall.Kept) (event : Event) (ha : o.engine.locks.holder a = some w)
    (hasked : a ∈ (o.step event).hall.asked w) :
    (o.step event).engine.locks.holder a = some w := by
  obtain ⟨hkept, hturned⟩ := step_locks h event
  exact Locks.Kept.holder_turned h hkept hturned ha hasked

/-- What a task has got it holds, and a save that is under way is one of a task that is to save. -/
structure Ordered (o : Office) : Prop where
  kept : o.hall.Kept
  held : ∀ i t, o.engine.tasks[i]? = some t → ∀ a ∈ t.held,
    o.engine.locks.holder a = some (.task i)
  saving : ∀ i stage, o.saves i = some stage → ∃ t, o.engine.tasks[i]? = some t ∧
    t.stage = .saving ∧ ∀ tx, stage = .begun tx → ∃ id now, tx = t.request.toTransaction id now

theorem ordered_opened {e : Engine} (h : e.Idle) : (opened e).Ordered where
  kept := Hall.kept_idle h
  held i t htask := by simp [opened, engine, h.tasks] at htask
  saving i stage hsave := by cases hsave

theorem Ordered.holder_of_held (h : o.Ordered) (event : Event)
    (htask : (o.step event).engine.tasks[i]? = some t) (ha : a ∈ t.held) :
    o.engine.locks.holder a = some (.task i) := by
  have hprogressed := o.step_progressed event i
  rw [htask] at hprogressed
  generalize hold : o.engine.tasks[i]? = old at hprogressed
  generalize o.saves i = save, (o.step event).saves i = save' at hprogressed
  cases hprogressed with
  | came r _ => cases ha
  | onward htask' hfree honward =>
    cases honward.held a ha with
    | inl hbefore => exact h.held i _ (hold.trans htask') a hbefore
    | inr hhanded => exact hhanded
  | released _ _ => cases ha
  | _ => exact h.held i t hold a ha

theorem Ordered.step (h : o.Ordered) (event : Event) : (o.step event).Ordered where
  kept := (step_locks h.kept event).1
  held i t htask a ha := by
    refine holder_step h.kept event (h.holder_of_held event htask ha) ?_
    rw [Hall.asked_task htask]
    exact Task.asked_of_held ha
  saving i stage hsave := by
    have hprogressed := o.step_progressed event i
    rw [hsave] at hprogressed
    generalize hold : o.saves i = old at hprogressed
    generalize htask : o.engine.tasks[i]? = task, htask' : (o.step event).engine.tasks[i]? = task'
      at hprogressed
    -- a save that goes on is one that was under way, and its task has not moved
    have hgoes {before after : SaveStage} (hbefore : o.saves i = some before)
        (hafter : ∀ tx, after ≠ .begun tx) : ∃ t, task = some t ∧ t.stage = .saving ∧
          ∀ tx, after = .begun tx → ∃ id now, tx = t.request.toTransaction id now := by
      obtain ⟨t, ht, hstage, -⟩ := h.saving i before hbefore
      exact ⟨t, htask.symm.trans ht, hstage, fun tx hbegun => absurd hbegun (hafter tx)⟩
    cases hprogressed with
    | still => exact htask ▸ h.saving i stage hold
    | came r hnew =>
      obtain ⟨t, ht, -⟩ := h.saving i stage hold
      rw [htask, hnew] at ht
      cases ht
    | @submitted t id now ht hstage hfree =>
      refine ⟨t, ht, hstage, fun tx hbegun => ⟨id, now, ?_⟩⟩
      cases hbegun
      rfl
    | panicked hbegun => exact hgoes (hold.trans hbegun) (by simp)
    | answered hbegun answer => exact hgoes (hold.trans hbegun) (by simp)
    | announced hanswered => exact hgoes (hold.trans hanswered) (by simp)

theorem Ordered.after (h : o.Ordered) (events : List Event) : (o.after events).Ordered := by
  induction events generalizing o with
  | nil => exact h
  | cons event events ih => exact ih (h.step event)

theorem Ordered.holder_of_saving (h : o.Ordered) {stage : SaveStage} (hsave : o.saves i = some stage)
    (htask : o.engine.tasks[i]? = some t) (ha : a ∈ t.accounts) :
    o.engine.locks.holder a = some (.task i) := by
  obtain ⟨t', htask', hstage, -⟩ := h.saving i stage hsave
  rw [htask, Option.some.injEq] at htask'
  subst htask'
  exact h.held i t htask a (Task.held_of_saving hstage ▸ ha)

/-- Two saves that are under way have no account in common. -/
theorem Ordered.disjoint (h : o.Ordered) {stage stage' : SaveStage} (hne : i ≠ j)
    (hi : o.saves i = some stage) (hj : o.saves j = some stage')
    (hti : o.engine.tasks[i]? = some t) (htj : o.engine.tasks[j]? = some u) (ha : a ∈ t.accounts) :
    a ∉ u.accounts := by
  intro ha'
  have hboth := (h.holder_of_saving hi hti ha).symm.trans (h.holder_of_saving hj htj ha')
  exact hne (by simpa using hboth)

/-- The task, if there is one, that gets the lock of an account. -/
def gets (o : Office) (a : String) (event : Event) : List Nat :=
  match (o.step event).engine.locks.holder a with
  | some (.task i) => if o.engine.locks.holder a = some (.task i) then [] else [i]
  | _ => []

/-- The tasks that get the lock of an account in the course of a run, in their order. -/
def acquired (o : Office) (a : String) : List Event → List Nat
  | [] => []
  | event :: events => o.gets a event ++ (o.step event).acquired a events

theorem mem_gets : i ∈ o.gets a event ↔
    (o.step event).engine.locks.holder a = some (.task i) ∧
      o.engine.locks.holder a ≠ some (.task i) := by
  unfold gets
  cases (o.step event).engine.locks.holder a with
  | none => simp
  | some w =>
    cases w with
    | guard n => simp
    | task k =>
      by_cases hk : k = i
      · subst hk
        simp
      · have hk' : i ≠ k := Ne.symm hk
        simp [hk, hk']

theorem gets_eq_of_mem (hi : i ∈ o.gets a event) : o.gets a event = [i] := by
  obtain ⟨hnow, hbefore⟩ := mem_gets.1 hi
  simp [gets, hnow, hbefore]

def Ended (o : Office) (i : Nat) : Prop := ∃ t, o.engine.tasks[i]? = some t ∧ t.isFinished = true

theorem Ended.asked (h : o.Ended i) : o.hall.asked (.task i) = [] := by
  obtain ⟨t, htask, hended⟩ := h
  rw [Hall.asked_task htask]
  exact Task.asked_of_finished hended

theorem Ended.step (h : o.Ended i) (event : Event) : (o.step event).Ended i := by
  obtain ⟨t, htask, hended⟩ := h
  have hprogressed := o.step_progressed event i
  rw [htask] at hprogressed
  unfold Ended
  generalize (o.step event).engine.tasks[i]? = task', o.saves i = save,
    (o.step event).saves i = save' at hprogressed
  cases hprogressed with
  | came r hnew => cases hnew
  | onward ht hfree honward =>
    cases ht
    rw [honward.opened] at hended
    cases hended
  | released ht hsettled => exact ⟨_, rfl, rfl⟩
  | _ => exact ⟨t, rfl, hended⟩

/-- Who has asked for a lock gives it up only when it ends. -/
theorem asked_or_ended (ha : a ∈ o.hall.asked (.task i)) (event : Event) :
    a ∈ (o.step event).hall.asked (.task i) ∨ (o.step event).Ended i := by
  cases htask : o.engine.tasks[i]? with
  | none =>
    have hnobody : o.hall.asked (.task i) = [] := by
      unfold Hall.asked
      exact congrArg (fun task : Option Task => (task.map (·.asked)).getD []) htask
    rw [hnobody] at ha
    cases ha
  | some t =>
    rw [Hall.asked_task htask] at ha
    have hprogressed := o.step_progressed event i
    rw [htask] at hprogressed
    generalize htask' : (o.step event).engine.tasks[i]? = task' at hprogressed
    generalize o.saves i = save, (o.step event).saves i = save' at hprogressed
    cases hprogressed with
    | came r hnew => cases hnew
    | onward ht hfree honward =>
      cases ht
      cases honward.asked with
      | inl hended => exact .inr ⟨_, htask', hended⟩
      | inr hmore => exact .inl (Hall.asked_task htask' ▸ hmore ha)
    | released ht hsettled => exact .inr ⟨_, htask', rfl⟩
    | _ => exact .inl (Hall.asked_task htask' ▸ ha)

/-- Those who got the lock of an account so far: who holds it got it last, and all before have
ended. -/
structure Turns (o : Office) (a : String) (served : List Nat) : Prop where
  last : ∀ i, o.engine.locks.holder a = some (.task i) → served.getLast? = some i
  past : ∀ i ∈ served, o.engine.locks.holder a = some (.task i) ∨ o.Ended i
  nodup : served.Nodup

theorem turns_opened {e : Engine} (h : e.Idle) (a : String) : (opened e).Turns a [] where
  last i hi := by simp [opened, engine, h.locks, Locks.holder, Locks.find?] at hi
  past i hi := by cases hi
  nodup := List.nodup_nil

theorem Turns.step {served : List Nat} (h : o.Turns a served) (hkept : o.hall.Kept)
    (event : Event) : (o.step event).Turns a (served ++ o.gets a event) := by
  have hkept' := (step_locks hkept event).1
  have hpast : ∀ i ∈ served,
      (o.step event).engine.locks.holder a = some (.task i) ∨ (o.step event).Ended i := by
    intro i hi
    cases h.past i hi with
    | inr hended => exact .inr (hended.step event)
    | inl hholds =>
      cases asked_or_ended (hkept.asked_of_holder hholds) event with
      | inl hasked => exact .inl (holder_step hkept event hholds hasked)
      | inr hended => exact .inr hended
  have hnew : ∀ i ∈ o.gets a event, i ∉ served := by
    intro i hi hmem
    obtain ⟨hnow, hbefore⟩ := mem_gets.1 hi
    have hended : o.Ended i := (h.past i hmem).resolve_left hbefore
    have hasked : a ∈ (o.step event).hall.asked (.task i) := hkept'.asked_of_holder hnow
    rw [(hended.step event).asked] at hasked
    cases hasked
  refine ⟨fun i hi => ?_, fun i hi => ?_, ?_⟩
  · by_cases hbefore : o.engine.locks.holder a = some (.task i)
    · have hnone : o.gets a event = [] := by
        refine List.eq_nil_iff_forall_not_mem.2 fun k hk => ?_
        obtain ⟨hnow, hother⟩ := mem_gets.1 hk
        exact hother (hbefore.trans (hi.symm.trans hnow))
      rw [hnone, List.append_nil]
      exact h.last i hbefore
    · rw [gets_eq_of_mem (mem_gets.2 ⟨hi, hbefore⟩), List.getLast?_concat]
  · rw [List.mem_append] at hi
    cases hi with
    | inl hi => exact hpast i hi
    | inr hi => exact .inl (mem_gets.1 hi).1
  · refine List.nodup_append.2 ⟨h.nodup, ?_, ?_⟩
    · cases hgets : o.gets a event with
      | nil => exact List.nodup_nil
      | cons k rest =>
        have hk : k ∈ o.gets a event := by simp [hgets]
        rw [← hgets, gets_eq_of_mem hk]
        exact List.nodup_singleton k
    · rintro i hi k hk rfl
      exact hnew i hk hi

end Office

end Bookkeeping
