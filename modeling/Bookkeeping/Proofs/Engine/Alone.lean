import Bookkeeping.Proofs.Engine.Locking

/-! A posting that nobody stands in the way of: it takes its steps one after the other, and what
they come to is what the pre-check, the validation and the save say of its request. -/
namespace Bookkeeping

namespace Store

/-- The outcome of a posting when nothing else goes on, under an identifier and a time, and the
store that it leaves. -/
def post (store : Store) (device : Journal.Device) (r : PostingRequest) (id : Uuid) (now : Moment) :
    Outcome × Store :=
  if Text.blank r.key then (.failed .missingKey, store)
  else if store.book.hasKey r.key then (.duplicate, store)
  else
    match r.validate with
    | .error error => (.failed error, store)
    | .ok () =>
      let saved := store.save device (r.toTransaction id now).posting
      (.ofSave (r.toTransaction id now) saved.result, saved.store)

end Store

/-- Nothing goes wrong but what may go wrong with notices. -/
structure Faults.Mild (f : Faults) : Prop where
  read : f.read = none
  stale : f.stale = false
  save : f.save = none
  panics : f.panics = false

theorem Faults.mild_none : ({} : Faults).Mild := ⟨rfl, rfl, rfl, rfl⟩

namespace Engine

variable {s : Surroundings} {e e' e'' : Engine} {i n m : Nat} {t : Task} {r : PostingRequest}

inductive Steps (s : Surroundings) (i : Nat) : Nat → Engine → Engine → Prop where
  | refl (e : Engine) : Steps s i 0 e e
  | step {n : Nat} {e e' e'' : Engine} (h : e.step s i = some e') (hrest : Steps s i n e' e'') :
    Steps s i (n + 1) e e''

theorem Steps.trans (h : Steps s i m e e') (h' : Steps s i n e' e'') :
    Steps s i (m + n) e e'' := by
  induction h with
  | refl e => simpa using h'
  | step hstep _ ih =>
    rw [Nat.succ_add]
    exact .step hstep (ih h')

theorem Steps.single (h : e.step s i = some e') : Steps s i 1 e e' := .step h (.refl e')

theorem runFor_of_step (h : e.step s i = some e') : runFor s (n + 1) e i = runFor s n e' i := by
  rw [runFor, h]

theorem runFor_of_stuck (h : e.step s i = none) (n : Nat) : runFor s n e i = e := by
  cases n with
  | zero => rfl
  | succ n => rw [runFor, h]

theorem runFor_of_steps (h : Steps s i n e e') (hend : e'.step s i = none) (hle : n ≤ m) :
    runFor s m e i = e' := by
  induction h generalizing m with
  | refl e => exact runFor_of_stuck hend m
  | step hstep _ ih =>
    cases m with
    | zero => cases hle
    | succ m =>
      rw [runFor_of_step hstep]
      exact ih hend (Nat.le_of_succ_le_succ hle)

/-- Nobody holds a lock or waits for one. -/
def Quiet (e : Engine) : Prop := e.locks.Kept fun _ => []

/-- Of what was there, only one task has changed, which is in a stage; it alone has asked for locks,
those of the given accounts. -/
structure Alone (e₀ e : Engine) (i : Nat) (stage : Stage) (accounts : List String) : Prop where
  tasks : e.tasks = e₀.tasks.modify i fun t => { t with stage }
  store : e.store = e₀.store
  made : e.made = e₀.made
  locks : e.locks.Kept fun w => if w = .task i then accounts else []

structure Ended (e₀ e : Engine) (i : Nat) (outcome : Outcome) (store : Store) : Prop where
  tasks : e.tasks = e₀.tasks.modify i fun t => { t with stage := .finished outcome }
  store : e.store = store
  quiet : e.Quiet

theorem modify_stage_modify_stage (ts : List Task) (i : Nat) (stage stage' : Stage) :
    (ts.modify i fun t => { t with stage }).modify i (fun t => { t with stage := stage' }) =
      ts.modify i fun t => { t with stage := stage' } := by
  rw [List.modify_modify_eq]
  rfl

namespace Alone

variable {e₀ : Engine} {stage stage' : Stage} {accounts : List String} {account : String}

theorem task (h : Alone e₀ e i stage accounts) (htask : e₀.tasks[i]? = some t) :
    e.tasks[i]? = some { t with stage } := by
  simp [h.tasks, htask]

theorem goOn (h : Alone e₀ e i stage accounts) (stage' : Stage) :
    Alone e₀ (e.setStage i stage') i stage' accounts where
  tasks := by rw [setStage, h.tasks, modify_stage_modify_stage]
  store := h.store
  made := h.made
  locks := h.locks

theorem request (h : Alone e₀ e i stage accounts) (hnew : account ∉ accounts) (stage' : Stage) :
    Alone e₀ ({ e with locks := e.locks.request account (.task i) }.setStage i stage') i stage'
      (accounts ++ [account]) where
  tasks := by rw [setStage, h.tasks, modify_stage_modify_stage]
  store := h.store
  made := h.made
  locks := by
    refine h.locks.request (by simpa using hnew) fun w b => ?_
    by_cases hw : w = .task i <;> simp [hw]

theorem isHeldBy (h : Alone e₀ e i stage accounts) (ha : account ∈ accounts) :
    e.locks.isHeldBy account (.task i) = true := by
  obtain ⟨w, hw⟩ := h.locks.holder_isSome (w := .task i) (by simpa using ha)
  have hasked := h.locks.asked_of_holder hw
  by_cases hi : w = .task i
  · simp [Locks.isHeldBy, hw, hi]
  · simp [hi] at hasked

theorem finish (h : Alone e₀ e i stage accounts) (haccounts : accounts ⊆ t.accounts)
    (htasks : e'.tasks = e.tasks) (hlocks : e'.locks = e.locks) {store : Store}
    (hstore : e'.store = store) (outcome : Outcome) :
    Ended e₀ (e'.finish i t outcome) i outcome store where
  tasks := by rw [tasks_finish, htasks, h.tasks, modify_stage_modify_stage]
  store := (store_finish ..).trans hstore
  quiet := by
    unfold Quiet
    rw [locks_finish, hlocks]
    refine h.locks.leaveAll fun w b => ?_
    by_cases hw : w = .task i
    · simpa [hw] using fun hb => haccounts hb
    · simp [hw]

end Alone

variable {e₀ : Engine} {account : String}

theorem Quiet.alone (h : e.Quiet) (htask : e.tasks[i]? = some t) : Alone e e i t.stage [] where
  tasks := by
    apply List.ext_getElem?
    intro j
    by_cases hj : i = j
    · subst hj
      simp [htask]
    · simp [hj]
  store := rfl
  made := rfl
  locks := by simpa [Quiet] using h

theorem hasKey_of_mild (hmild : s.faults.Mild) (key : String) :
    e.hasKey s key = .ok (e.book.hasKey key) := by
  simp [hasKey, read, hmild.read, hmild.stale, Functor.map, Except.map]

namespace Alone

theorem step_firstLock (h : Alone e₀ e i .firstLock []) (htask : e₀.tasks[i]? = some t) :
    ∃ e', e.step s i = some e' ∧ Alone e₀ e' i .awaitingFirst [t.firstAccount] := by
  refine ⟨_, ?_, h.request List.not_mem_nil .awaitingFirst⟩
  simp only [step, h.task htask]
  rfl

theorem step_awaitingFirst (h : Alone e₀ e i .awaitingFirst [t.firstAccount])
    (htask : e₀.tasks[i]? = some t) : ∃ e', e.step s i = some e' ∧
      Alone e₀ e' i (if t.secondAccount?.isSome then .secondLock else .saving)
        [t.firstAccount] := by
  refine ⟨_, ?_, h.goOn _⟩
  simp only [step, h.task htask]
  exact if_pos (h.isHeldBy (by simp))

theorem step_secondLock (h : Alone e₀ e i .secondLock [t.firstAccount])
    (htask : e₀.tasks[i]? = some t) (hsecond : t.secondAccount? = some account) :
    ∃ e', e.step s i = some e' ∧ Alone e₀ e' i .awaitingSecond [t.firstAccount, account] := by
  have hne : account ≠ t.firstAccount := (Task.firstAccount_lt hsecond).ne'
  refine ⟨_, ?_, h.request (by simpa using hne) .awaitingSecond⟩
  simp only [step, h.task htask, Task.secondAccount?_withStage, hsecond]

theorem step_awaitingSecond (h : Alone e₀ e i .awaitingSecond [t.firstAccount, account])
    (htask : e₀.tasks[i]? = some t) (hsecond : t.secondAccount? = some account) :
    ∃ e', e.step s i = some e' ∧ Alone e₀ e' i .saving [t.firstAccount, account] := by
  refine ⟨_, ?_, h.goOn _⟩
  simp only [step, h.task htask, Task.secondAccount?_withStage, hsecond]
  exact if_pos (h.isHeldBy (by simp))

theorem steps_to_saving (h : Alone e₀ e i .firstLock []) (htask : e₀.tasks[i]? = some t) :
    ∃ n e', n ≤ 4 ∧ Steps s i n e e' ∧ Alone e₀ e' i .saving t.accounts := by
  obtain ⟨e₁, hstep₁, h₁⟩ := h.step_firstLock (s := s) htask
  obtain ⟨e₂, hstep₂, h₂⟩ := h₁.step_awaitingFirst (s := s) htask
  unfold Task.accounts
  cases hsecond : t.secondAccount? with
  | none =>
    rw [hsecond] at h₂
    exact ⟨2, e₂, by decide, .step hstep₁ (.single hstep₂), h₂⟩
  | some account =>
    rw [hsecond] at h₂
    obtain ⟨e₃, hstep₃, h₃⟩ := step_secondLock (s := s) h₂ htask hsecond
    obtain ⟨e₄, hstep₄, h₄⟩ := h₃.step_awaitingSecond (s := s) htask hsecond
    exact ⟨4, e₄, by decide, .step hstep₁ (.step hstep₂ (.step hstep₃ (.single hstep₄))), h₄⟩

theorem step_saving (h : Alone e₀ e i .saving t.accounts) (htask : e₀.tasks[i]? = some t)
    (hmild : s.faults.Mild) {id : Uuid} {now : Moment} (hfresh : s.fresh e₀.made = (id, now)) :
    ∃ e', e.step s i = some e' ∧ Ended e₀ e' i
      (.ofSave (t.request.toTransaction id now)
        (e₀.store.save s.device (t.request.toTransaction id now).posting).result)
      (e₀.store.save s.device (t.request.toTransaction id now).posting).store := by
  refine ⟨stepSave s e i { t with stage := .saving }, by simp only [step, h.task htask], ?_⟩
  have hsub : t.accounts ⊆ Task.accounts { t with stage := .saving } := fun _ ha => ha
  have hnow : (s.fresh e.made).2 = now := by rw [h.made, hfresh]
  have htx : ({ t with stage := .saving } : Task).request.toTransaction (s.fresh e.made).1 now =
      t.request.toTransaction id now := by rw [h.made, hfresh]
  obtain ⟨log, hsave⟩ := save_eq (e := e.counted)
    (t.request.toTransaction id now).posting hmild.save
  have hstore : e.counted.store = e₀.store := h.store
  rw [hstore] at hsave
  have hpanics : ¬s.faults.panics = true := by simp [hmild.panics]
  rw [stepSave_eq hnow htx, if_neg hpanics]
  simp only [hsave]
  refine h.finish hsub ?_ ?_ ?_ _
  · rw [tasks_announce, counted]
  · rw [locks_announce, counted]
  · rw [store_announce]

end Alone

/-- A posting that nobody stands in the way of comes to its end in seven steps at most. -/
theorem Quiet.steps (h : e.Quiet) (hmild : s.faults.Mild)
    (htask : e.tasks[i]? = some { request := r }) {id : Uuid} {now : Moment}
    (hfresh : s.fresh e.made = (id, now)) : ∃ n e', n ≤ 7 ∧ Steps s i n e e' ∧
      Ended e e' i (e.store.post s.device r id now).1 (e.store.post s.device r id now).2 := by
  have hstart : Alone e e i .preCheck [] := h.alone htask
  have hend (outcome : Outcome) : Ended e (e.finish i { request := r } outcome) i outcome e.store :=
    hstart.finish (List.nil_subset _) rfl rfl rfl outcome
  unfold Store.post
  split
  · next hblank =>
    refine ⟨1, _, by decide, .single ?_, hend (.failed .missingKey)⟩
    simp only [step, htask, if_pos hblank]
  · next hblank =>
    have hkey := hasKey_of_mild (e := e) hmild r.key
    split
    · next hknown =>
      have hknown' : e.book.hasKey r.key = true := hknown
      refine ⟨1, _, by decide, .single ?_, hend .duplicate⟩
      simp only [step, htask, if_neg hblank, hkey, hknown']
    · next hunknown =>
      have hunknown' : e.book.hasKey r.key = false := Bool.eq_false_of_not_eq_true hunknown
      have hchecked : e.step s i = some (e.setStage i .validation) := by
        simp only [step, htask, if_neg hblank, hkey, hunknown']
      have h₁ := hstart.goOn .validation
      have htask₁ := h₁.task htask
      cases hvalid : r.validate with
      | error error =>
        refine ⟨2, _, by decide, .step hchecked (.single ?_),
          h₁.finish (t := { request := r }) (List.nil_subset _) rfl rfl rfl (.failed error)⟩
        simp only [step, htask₁, hvalid]
        rfl
      | ok _ =>
        have hvalidated : (e.setStage i .validation).step s i =
            some ((e.setStage i .validation).setStage i .firstLock) := by
          simp only [step, htask₁, hvalid]
        obtain ⟨n, e₃, hn, hsteps, h₃⟩ := (h₁.goOn .firstLock).steps_to_saving (s := s) htask
        obtain ⟨e₄, hsaved, hended⟩ := h₃.step_saving htask hmild hfresh
        refine ⟨n + 1 + 1 + 1, e₄, by omega, ?_, hended⟩
        exact .step hchecked (.step hvalidated (hsteps.trans (.single hsaved)))

variable {outcome : Outcome} {store : Store}

theorem exists_task_of_outcome (h : e.outcome? i = some outcome) :
    ∃ t, e.tasks[i]? = some t ∧ t.stage = .finished outcome := by
  obtain ⟨t, htask, hout⟩ := Option.bind_eq_some_iff.1 h
  exact ⟨t, htask, Task.outcome?_eq_some.1 hout⟩

theorem step_of_outcome (h : e.outcome? i = some outcome) : e.step s i = none := by
  obtain ⟨t, htask, hstage⟩ := exists_task_of_outcome h
  simp [step, htask, hstage]

theorem cancel_of_outcome (h : e.outcome? i = some outcome) : e.cancel i = e := by
  obtain ⟨t, htask, hstage⟩ := exists_task_of_outcome h
  simp [cancel, htask, Task.isFinished, hstage]

theorem Ended.outcome? (h : Ended e₀ e i outcome store) (htask : e₀.tasks[i]? = some t) :
    e.outcome? i = some outcome :=
  outcome?_of_ended htask h.tasks

theorem Quiet.deliver (h : e.Quiet) (s : Surroundings) : (e.deliver s).Quiet := by
  rw [Quiet, locks_deliver]
  exact h

theorem Quiet.run_start (h : e.Quiet) (hmild : s.faults.Mild) (r : PostingRequest) {id : Uuid}
    {now : Moment} (hfresh : s.fresh e.made = (id, now)) :
    Ended (e.start r) ((e.start r).run s e.tasks.length) e.tasks.length
      (e.store.post s.device r id now).1 (e.store.post s.device r id now).2 := by
  have hquiet : (e.start r).Quiet := h
  have htask : (e.start r).tasks[e.tasks.length]? = some { request := r } := by simp [start]
  obtain ⟨n, e', hn, hsteps, hended⟩ := hquiet.steps hmild htask hfresh
  rw [run, runFor_of_steps hsteps (step_of_outcome (hended.outcome? htask)) (by omega)]
  exact hended

end Engine

end Bookkeeping
