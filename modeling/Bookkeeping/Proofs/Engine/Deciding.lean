import Bookkeeping.Proofs.Engine.Alone
import Bookkeeping.Proofs.Engine.Holding
import Bookkeeping.Proofs.Engine.Waiting

/-! What decides a posting. If something speaks against a request, the first such thing is the
answer, which comes at once and changes nothing. Any other request waits for a lock that somebody
else holds, or is given to the store and answered as the store answers. -/
namespace Bookkeeping

namespace PostingRequest

/-- What is wrong with a request apart from its key, in the order in which it is looked at. -/
def objections (r : PostingRequest) : List Error :=
  (if r.amount.isPositive then [] else [.nonPositiveAmount r.amount]) ++
    (if Text.blank r.fromAccount then [.missingAccount "from"] else []) ++
      if Text.blank r.toAccount then [.missingAccount "to"] else []

theorem validate_eq (r : PostingRequest) :
    r.validate = match r.objections with
      | [] => .ok ()
      | error :: _ => .error error := by
  unfold validate objections
  cases r.amount.isPositive <;> cases Text.blank r.fromAccount <;>
    cases Text.blank r.toAccount <;> rfl

end PostingRequest

namespace Engine

variable {s : Surroundings} {e e' e₁ : Engine} {i n : Nat} {t : Task} {r : PostingRequest}
  {w : Owner} {outcome : Outcome}

/-- What speaks against a key: it is blank, the store cannot be read, or the store has the key and
shows it. -/
def keyObjections (s : Surroundings) (e : Engine) (key : String) : List Outcome :=
  (if Text.blank key then [.failed .missingKey] else []) ++
    s.faults.read.toList.map (fun reason => .failed (.storage reason)) ++
      if !s.faults.stale && e.book.hasKey key then [.duplicate] else []

/-- All that speaks against a request before it asks for a lock, in the order in which it is looked
for. -/
def objections (s : Surroundings) (e : Engine) (r : PostingRequest) : List Outcome :=
  e.keyObjections s r.key ++ r.objections.map .failed

theorem step_preCheck (htask : e.tasks[i]? = some t) (hstage : t.stage = .preCheck) :
    e.step s i = match e.keyObjections s t.request.key with
      | [] => some (e.setStage i .validation)
      | outcome :: _ => some (e.finish i t outcome) := by
  simp only [step, htask, hstage, keyObjections, hasKey, read]
  cases Text.blank t.request.key with
  | true => rfl
  | false =>
    cases s.faults.read with
    | some reason => rfl
    | none => cases hknown : !s.faults.stale && e.book.hasKey t.request.key <;> simp [hknown]

theorem step_validation (htask : e.tasks[i]? = some t) (hstage : t.stage = .validation) :
    e.step s i = match t.request.objections with
      | [] => some (e.setStage i .firstLock)
      | error :: _ => some (e.finish i t (.failed error)) := by
  simp only [step, htask, hstage, t.request.validate_eq]
  cases t.request.objections <;> rfl

/-- A posting that is started and goes as far as it gets by itself: it ends, or it waits for a
lock. -/
def attempt (s : Surroundings) (e : Engine) (r : PostingRequest) : Engine :=
  (e.start r).run s e.tasks.length

def withTask (e : Engine) (r : PostingRequest) (stage : Stage) : Engine :=
  { e with tasks := e.tasks ++ [⟨r, stage⟩] }

def answered (e : Engine) (r : PostingRequest) (outcome : Outcome) : Engine :=
  (e.withTask r (.finished outcome)).withdraw (.task e.tasks.length)

theorem task_withTask (e : Engine) (r : PostingRequest) (stage : Stage) :
    (e.withTask r stage).tasks[e.tasks.length]? = some ⟨r, stage⟩ := by
  simp [withTask]

theorem setStage_withTask (e : Engine) (r : PostingRequest) (stage stage' : Stage) :
    (e.withTask r stage).setStage e.tasks.length stage' = e.withTask r stage' := by
  rw [setStage, withTask, List.modify_eq_take_cons_drop (by simp)]
  simp [withTask]

theorem outcome?_answered (e : Engine) (r : PostingRequest) (outcome : Outcome) :
    (e.answered r outcome).outcome? e.tasks.length = some outcome := by
  simp [answered, withdraw, outcome?, task_withTask, Task.outcome?]

theorem leaveLock_of_absent (h : e.locks.Orderly) (hw : ∀ a, w ∉ e.locks.line a)
    (account : String) : e.leaveLock w account = e := by
  have hheld : e.locks.isHeldBy account w = false := by
    rw [Locks.isHeldBy, h.holder_eq, beq_eq_false_iff_ne]
    exact fun hfirst => hw account (List.mem_of_mem_head? hfirst)
  rw [leaveLock, Locks.successor?, hheld, h.leave_eq_self (hw account)]
  rfl

theorem finish_of_absent (h : e.locks.Orderly) (hw : ∀ a, .task i ∉ e.locks.line a) (t : Task)
    (outcome : Outcome) :
    e.finish i t outcome = (e.setStage i (.finished outcome)).withdraw (.task i) := by
  unfold finish
  rw [leaveLock_of_absent h hw]
  cases t.secondAccount? with
  | none => rfl
  | some account => simp only [leaveLock_of_absent h hw]

section NewTask

variable (h : e.locks.Orderly) (hnew : ∀ a, .task e.tasks.length ∉ e.locks.line a)
include h hnew

theorem finish_withTask (r : PostingRequest) (stage : Stage) (t : Task) (outcome : Outcome) :
    (e.withTask r stage).finish e.tasks.length t outcome = e.answered r outcome := by
  rw [finish_of_absent (e := e.withTask r stage) h hnew, setStage_withTask, answered]

theorem step_start (s : Surroundings) (r : PostingRequest) :
    (e.start r).step s e.tasks.length = match e.keyObjections s r.key with
      | [] => some (e.withTask r .validation)
      | outcome :: _ => some (e.answered r outcome) := by
  have hstep := step_preCheck (s := s) (e.task_withTask r .preCheck) rfl
  simp only [setStage_withTask, finish_withTask h hnew] at hstep
  exact hstep

theorem step_withTask_validation (s : Surroundings) (r : PostingRequest) :
    (e.withTask r .validation).step s e.tasks.length = match r.objections with
      | [] => some (e.withTask r .firstLock)
      | error :: _ => some (e.answered r (.failed error)) := by
  have hstep := step_validation (s := s) (e.task_withTask r .validation) rfl
  simp only [setStage_withTask, finish_withTask h hnew] at hstep
  exact hstep

theorem attempt_of_objection (hfirst : (e.objections s r).head? = some outcome) :
    e.attempt s r = e.answered r outcome := by
  have hend : (e.answered r outcome).step s e.tasks.length = none :=
    step_of_outcome (e.outcome?_answered r outcome)
  have hstart := step_start h hnew s r
  have hvalidation := step_withTask_validation h hnew s r
  unfold objections at hfirst
  cases hkey : e.keyObjections s r.key with
  | cons first rest =>
    rw [hkey] at hfirst hstart
    cases hfirst
    exact runFor_of_steps (.single hstart) hend (by decide)
  | nil =>
    rw [hkey] at hfirst hstart
    cases hrequest : r.objections with
    | nil => simp [hrequest] at hfirst
    | cons error rest =>
      rw [hrequest] at hfirst hvalidation
      cases hfirst
      exact runFor_of_steps (.step hstart (.single hvalidation)) hend (by decide)

theorem post_of_objection (hfirst : (e.objections s r).head? = some outcome) :
    e.post s r = (e.answered r outcome, outcome) := by
  have hattempt : (e.start r).run s e.tasks.length = e.answered r outcome :=
    attempt_of_objection h hnew hfirst
  simp only [post, hattempt, cancel_of_outcome (e.outcome?_answered r outcome),
    e.outcome?_answered r outcome, Option.getD_some]

theorem attempt_of_no_objection (hnone : e.objections s r = []) :
    e.attempt s r = runFor s 6 (e.withTask r .firstLock) e.tasks.length := by
  obtain ⟨hkey, hrequest⟩ := List.append_eq_nil_iff.1 hnone
  have hstart := step_start h hnew s r
  have hvalidation := step_withTask_validation h hnew s r
  rw [hkey] at hstart
  rw [List.map_eq_nil_iff.1 hrequest] at hvalidation
  exact (runFor_of_step hstart).trans (runFor_of_step hvalidation)

end NewTask

def nextTransaction (s : Surroundings) (e : Engine) (r : PostingRequest) : Transaction :=
  r.toTransaction (s.fresh e.made).1 (s.fresh e.made).2

/-- What becomes of a posting that nothing spoke against, from one engine to the other. -/
inductive Pursued (s : Surroundings) (e : Engine) (i : Nat) (r : PostingRequest) (e' : Engine) :
    Prop where
  /-- It waits for the lock of one of its accounts, which somebody else holds. -/
  | waits {account : String} {w : Owner} (hheld : e.locks.holder account = some w)
    (hother : w ≠ .task i) (haccount : account = r.fromAccount ∨ account = r.toAccount)
    (hwaits : (e'.tasks[i]?).bind (·.awaited?) = some account) (hopen : e'.outcome? i = none)
    (hstore : e'.store = e.store) (hnotifier : e'.notifier = e.notifier)
  /-- Its transaction and both entries are stored, and the notice of it is queued. -/
  | posted {tx : Transaction} (htx : e.nextTransaction s r = tx)
    (hkey : e.book.hasKey r.key = false) (houtcome : e'.outcome? i = some (.posted tx))
    (hbook : e'.book = ⟨e.book.transactions ++ [tx], e.book.entries ++ [tx.debit, tx.credit],
      e.book.keys ++ [r.key]⟩)
    (hnotifier : e'.notifier = (e.notify (tx.completion (s.fresh e.made).2)).notifier)
  /-- The store has its key. -/
  | duplicate (hkey : e.book.hasKey r.key = true) (houtcome : e'.outcome? i = some .duplicate)
    (hbook : e'.book = e.book) (hnotifier : e'.notifier = e.notifier)
  /-- The store fails, and its error is the answer. -/
  | failed {error : Error} (hsave : (e.save s (e.nextTransaction s r).posting).1 = .error error)
    (houtcome : e'.outcome? i = some (.failed error)) (hbook : e'.book = e.book)
    (hnotifier : e'.notifier = e.notifier)
  /-- The store panics, so that there is no answer. -/
  | panicked (hpanics : s.faults.panics = true) (houtcome : e'.outcome? i = some .panicked)
    (hbook : e'.book = e.book) (hnotifier : e'.notifier = e.notifier)

theorem notifier_notify_congr (h : e₁.notifier = e.notifier) (notice : Completion) :
    (e₁.notify notice).notifier = (e.notify notice).notifier := by
  unfold notify
  rw [h]
  cases hnotifier : e.notifier <;> simp [h, hnotifier, logged]

theorem save_answer_congr (h : e₁.store = e.store) (s : Surroundings) (p : Posting) :
    (e₁.save s p).1 = (e.save s p).1 := by
  unfold save
  rw [h]
  cases s.faults.save <;> rfl

/-- What happens before a task is given to the store, and leaves the store as it is, does not
matter; who holds a lock then held it before. -/
theorem Pursued.of_frame (h : Pursued s e₁ i r e') (hstore : e₁.store = e.store)
    (hnotifier : e₁.notifier = e.notifier) (hmade : e₁.made = e.made)
    (hheld : ∀ a w, w ≠ .task i → e₁.locks.holder a = some w → e.locks.holder a = some w) :
    Pursued s e i r e' := by
  have hbook : e₁.book = e.book := congrArg Store.book hstore
  have hnext : e₁.nextTransaction s r = e.nextTransaction s r := by
    rw [nextTransaction, nextTransaction, hmade]
  cases h with
  | waits hholder hother haccount hwaits hopen hs hn =>
    exact .waits (hheld _ _ hother hholder) hother haccount hwaits hopen (hs.trans hstore)
      (hn.trans hnotifier)
  | posted htx hkey hout hb hn =>
    rw [hbook] at hkey hb
    rw [hmade, notifier_notify_congr hnotifier] at hn
    exact .posted (hnext ▸ htx) hkey hout hb hn
  | duplicate hkey hout hb hn =>
    exact .duplicate (hbook ▸ hkey) hout (hb.trans hbook) (hn.trans hnotifier)
  | failed hsave hout hb hn =>
    rw [hnext, save_answer_congr hstore] at hsave
    exact .failed hsave hout (hb.trans hbook) (hn.trans hnotifier)
  | panicked hpanics hout hb hn =>
    exact .panicked hpanics hout (hb.trans hbook) (hn.trans hnotifier)

theorem runFor_saving (htask : e.tasks[i]? = some t) (hstage : t.stage = .saving) :
    runFor s (n + 1) e i = stepSave s e i t := by
  have hstep : e.step s i = some (stepSave s e i t) := by simp only [step, htask, hstage]
  obtain ⟨outcome, htasks, -⟩ := stepSave_ends e i t s
  have hend : (stepSave s e i t).outcome? i = some outcome := outcome?_of_ended htask htasks
  rw [runFor_of_step hstep, runFor_of_stuck (step_of_outcome hend)]

theorem stepSave_pursued (htask : e.tasks[i]? = some t) :
    Pursued s e i t.request (stepSave s e i t) := by
  obtain ⟨tx, htx⟩ : ∃ tx, e.nextTransaction s t.request = tx := ⟨_, rfl⟩
  have hcounted : e.counted.tasks[i]? = some t := htask
  have hstore : e.counted.store = e.store := rfl
  have hkey : tx.posting.key = t.request.key := by rw [← htx]; rfl
  rw [stepSave_eq rfl htx]
  split
  · next hpanics =>
    exact .panicked hpanics (outcome?_of_ended hcounted (tasks_finish ..)) (book_finish ..)
      (notifier_finish ..)
  · have hkept : Kept e.book tx.posting _ _ := e.counted.save_kept s tx.posting
    have hanswer := save_answer_congr hstore s tx.posting
    have htasks := (e.counted.save_frame s tx.posting).1
    have hnotifier : _ = e.notifier := save_notifier e.counted s tx.posting
    cases hsave : e.counted.save s tx.posting with
    | mk answer e₁ =>
      rw [hsave] at hkept hanswer htasks hnotifier
      let e₂ := e₁.announce (s.fresh e.made).2 tx answer
      have htask₂ : e₂.tasks[i]? = some t := by rw [tasks_announce, htasks, hcounted]
      have houtcome : (e₂.finish i t (.ofSave tx answer)).outcome? i = some (.ofSave tx answer) :=
        outcome?_of_ended htask₂ (tasks_finish ..)
      have hbook : (e₂.finish i t (.ofSave tx answer)).book = e₁.book :=
        (book_finish ..).trans (book_announce ..)
      have hnotified : (e₂.finish i t (.ofSave tx answer)).notifier = e₂.notifier :=
        notifier_finish ..
      -- the book and the answer go together in one of three ways
      generalize e₁.book = book at hkept hbook
      cases hkept with
      | saved hnew =>
        rw [hkey] at hnew hbook
        exact .posted htx hnew houtcome hbook (hnotified.trans (notifier_notify_congr hnotifier _))
      | duplicate hknown =>
        exact .duplicate (hkey ▸ hknown) houtcome hbook (hnotified.trans hnotifier)
      | failed error =>
        exact .failed (htx ▸ hanswer.symm) houtcome hbook (hnotified.trans hnotifier)

theorem Stepped.locking (h : Stepped s e i t e') (hstage : t.stage.isLocking = true) :
    ∃ locks stage, e' = { e with locks }.setStage i stage ∧
      (locks = e.locks ∨ ∃ a, locks = e.locks.request a (.task i)) ∧
      (stage.isLocking = true ∨ stage = .saving) ∧ stage.remaining < t.stage.remaining := by
  cases h with
  | askedFirst h => exact ⟨_, _, rfl, .inr ⟨_, rfl⟩, .inl rfl, by rw [h]; decide⟩
  | gotFirst h =>
    refine ⟨e.locks, _, rfl, .inl rfl, ?_⟩
    rw [h]
    cases t.secondAccount?.isSome with
    | true => exact ⟨.inl rfl, by decide⟩
    | false => exact ⟨.inr rfl, by decide⟩
  | askedSecond h => exact ⟨_, _, rfl, .inr ⟨_, rfl⟩, .inl rfl, by rw [h]; decide⟩
  | gotSecond h => exact ⟨e.locks, _, rfl, .inl rfl, .inr rfl, by rw [h]; decide⟩
  | single h =>
    refine ⟨e.locks, _, rfl, .inl rfl, .inr rfl, ?_⟩
    obtain h | h := h <;> rw [h] <;> decide
  | _ => simp_all [Stage.isLocking]

end Engine

namespace Hall

open Engine (Pursued)

variable {e : Engine} {vs : List Visitor} {s : Surroundings} {i n : Nat} {t : Task}

theorem Kept.of_step {e' : Engine} (hkept : Kept ⟨e, vs⟩) (h : e.step s i = some e') :
    Kept ⟨e', vs⟩ :=
  Engine.move_of_step h ▸ hkept.move (m := .step s i) rfl

/-- A task that cannot go on waits for the lock of one of its accounts, which another holds. -/
theorem Kept.pursued_of_stuck (hkept : Kept ⟨e, vs⟩) (htask : e.tasks[i]? = some t)
    (hopen : t.isFinished = false) (hstuck : e.step s i = none) : Pursued s e i t.request e := by
  obtain ⟨account, hawaited, hheld⟩ := Engine.awaited_of_stuck htask hopen hstuck
  have hasked : account ∈ t.asked := Task.asked_of_awaited hawaited
  have hnow : (⟨e, vs⟩ : Hall).asked (.task i) = t.asked := asked_task htask
  obtain ⟨w, hw⟩ := Locks.Kept.holder_isSome hkept (hnow ▸ hasked)
  have hother : w ≠ .task i := by
    rintro rfl
    rw [Locks.isHeldBy, hw, beq_self_eq_true] at hheld
    cases hheld
  have hwaits : (e.tasks[i]?).bind (·.awaited?) = some account := by
    rw [htask]
    exact hawaited
  exact .waits hw hother (Task.mem_accounts (Task.asked_subset hasked)) hwaits
    (Engine.outcome?_of_open htask hopen) rfl rfl

/-- A task on its way to the save gets there or waits, with the steps that are left to it. -/
theorem Kept.runFor_pursued (hkept : Kept ⟨e, vs⟩) (htask : e.tasks[i]? = some t)
    (hstage : t.stage.isLocking = true ∨ t.stage = .saving) (hleft : t.stage.remaining ≤ n) :
    Pursued s e i t.request (Engine.runFor s n e i) := by
  have hpos : 0 < t.stage.remaining := Stage.remaining_pos hstage
  -- a step before the save makes at most this task a holder, so whoever it comes to wait for
  -- held the lock from the start
  induction n generalizing e t with
  | zero => omega
  | succ n ih =>
    obtain hlocking | hsaving := hstage
    · cases hstep : e.step s i with
      | none =>
        rw [Engine.runFor_of_stuck hstep]
        exact hkept.pursued_of_stuck htask (Task.isFinished_of_remaining hpos) hstep
      | some e₁ =>
        have hkept₁ : Kept ⟨e₁, vs⟩ := hkept.of_step hstep
        obtain ⟨locks, stage, rfl, hlocks, hnext, hless⟩ :=
          (Engine.step_stepped htask hstep).locking hlocking
        have htask₁ : ({ e with locks }.setStage i stage).tasks[i]? = some { t with stage } := by
          simp [Engine.setStage, htask]
        have hleft₁ : stage.remaining ≤ n := by omega
        rw [Engine.runFor_of_step hstep]
        refine (ih hkept₁ htask₁ hnext hleft₁ (Stage.remaining_pos hnext)).of_frame rfl rfl rfl
          fun a w hw ha => ?_
        obtain rfl | ⟨b, rfl⟩ := hlocks
        · exact ha
        · exact hkept.orderly.holder_of_request hw ha
    · rw [Engine.runFor_saving htask hsaving]
      exact Engine.stepSave_pursued htask

theorem Kept.task_absent (hkept : Kept ⟨e, vs⟩) (a : String) :
    .task e.tasks.length ∉ e.locks.line a := by
  intro hmem
  have hasked := (hkept.mem_iff a (.task e.tasks.length)).1 hmem
  simp [asked] at hasked

theorem Kept.withTask (hkept : Kept ⟨e, vs⟩) (r : PostingRequest) {stage : Stage}
    (hasked : Task.asked ⟨r, stage⟩ = []) : Kept ⟨e.withTask r stage, vs⟩ := by
  refine hkept.congr rfl fun w => ?_
  cases w with
  | guard n => rfl
  | task j => exact getD_asked_append hasked e.tasks j

/-- The first thing that speaks against a request is its answer, whatever else may be wrong with
it: a blank key, a store that cannot be read, a key that the store has, an amount that is not
positive, a blank account to take from or to give to. The answer comes whoever holds the locks,
nothing but the call itself is new, and the key is no more taken than it was; for a blank key the
store does not matter at all. A request that nothing speaks against waits for a lock of its own
that somebody else holds, or gets an answer from the store: it is posted with all its rows, or
nothing is added. The same holds of one that waited, whenever it goes on. -/
theorem attempt_decides (hkept : Kept ⟨e, vs⟩) (s : Surroundings) (r : PostingRequest) :
    (∀ outcome, (e.objections s r).head? = some outcome →
      e.attempt s r = e.answered r outcome ∧ e.post s r = (e.answered r outcome, outcome) ∧
        Kept ⟨e.answered r outcome, vs⟩ ∧
        ∀ s' r', (e.answered r outcome).objections s' r' = e.objections s' r') ∧
      (Text.blank r.key = true → ∀ store s',
        { e with store }.attempt s' r = { e.attempt s r with store }) ∧
      (e.objections s r = [] → Pursued s e e.tasks.length r (e.attempt s r)) ∧
      ∀ (i : Nat) (t : Task), e.tasks[i]? = some t →
        t.stage.isLocking = true ∨ t.stage = .saving → Pursued s e i t.request (e.run s i) := by
  have hnew := hkept.task_absent
  refine ⟨fun outcome hfirst => ⟨?_, ?_, ?_, fun _ _ => rfl⟩, fun hblank store s' => ?_,
    fun hnone => ?_, fun i t htask hstage => ?_⟩
  · exact Engine.attempt_of_objection hkept.orderly hnew hfirst
  · exact Engine.post_of_objection hkept.orderly hnew hfirst
  · exact hkept.withTask r rfl
  · have hfirst (store : Store) (s : Surroundings) :
        (({ e with store } : Engine).objections s r).head? = some (.failed .missingKey) := by
      simp [Engine.objections, Engine.keyObjections, hblank]
    have hanswered := Engine.attempt_of_objection hkept.orderly hnew (hfirst e.store s)
    have hanswered' := Engine.attempt_of_objection (e := { e with store }) hkept.orderly hnew
      (hfirst store s')
    rw [hanswered', hanswered]
    rfl
  · have hkept' : Kept ⟨e.withTask r .firstLock, vs⟩ := hkept.withTask r rfl
    rw [Engine.attempt_of_no_objection hkept.orderly hnew hnone]
    exact (hkept'.runFor_pursued (e.task_withTask r .firstLock) (.inl rfl)
      (Nat.le_succ 5)).of_frame rfl rfl rfl fun _ _ _ ha => ha
  · exact hkept.runFor_pursued htask hstage (t.stage.remaining_le.trans (by decide))

theorem attempt_decides_locked :
    let h := (Hall.mk (Engine.inMemory .absent) []).after [.acquire "a", .ask 0]
    let empty : PostingRequest := { Engine.smallRequest with amount := .ofWord false 0 }
    h.Kept ∧
      h.engine.attempt Engine.calm empty =
        h.engine.answered empty (.failed (.nonPositiveAmount empty.amount)) ∧
      Pursued Engine.calm h.engine 0 Engine.smallRequest
        (h.engine.attempt Engine.calm Engine.smallRequest) ∧
      (h.engine.attempt Engine.calm Engine.smallRequest).outcome? 0 = none := by
  intro h empty
  have hkept : h.Kept := ((Reachable.start (Engine.Fresh.inMemory .absent).idle).after _).kept
  have hrefused : (h.engine.objections Engine.calm empty).head? =
      some (.failed (.nonPositiveAmount empty.amount)) := by decide +kernel
  have hnone : h.engine.objections Engine.calm Engine.smallRequest = [] := by decide +kernel
  have hwaits : (h.engine.attempt Engine.calm Engine.smallRequest).outcome? 0 = none := by
    decide +kernel
  exact ⟨hkept, ((attempt_decides hkept Engine.calm empty).1 _ hrefused).1,
    (attempt_decides hkept Engine.calm Engine.smallRequest).2.2.1 hnone, hwaits⟩

end Hall

end Bookkeeping
