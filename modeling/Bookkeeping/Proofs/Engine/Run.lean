import Bookkeeping.Engine.Opening
import Bookkeeping.Proofs.Engine.Step
import Bookkeeping.Proofs.Journal.Contents

/-! Runs of an engine: postings are started, go on one step at a time and may be cancelled, guards
from outside ask for locks and leave them, and the notifier gets its turn, all in any order. -/
namespace Bookkeeping.Engine

inductive Move where
  | start (request : PostingRequest)
  | step (surroundings : Surroundings) (index : Nat)
  | cancel (index : Nat)
  /-- A guard from outside asks for the lock of an account. -/
  | ask (serial : Nat) (account : String)
  | leave (serial : Nat) (account : String)
  | deliver (surroundings : Surroundings)
  | stopNotifier
  /-- A turn is taken back, or something is reported. -/
  | withdraw (turn : Turn)
  | report (event : LogEvent)

/-- What a move makes of an engine. A task that has no step to take stays as it is. -/
def move (e : Engine) : Move → Engine
  | .start request => e.start request
  | .step s i => (e.step s i).getD e
  | .cancel i => e.cancel i
  | .ask serial account => { e with locks := e.locks.request account (.guard serial) }
  | .leave serial account => e.leaveLock (.guard serial) account
  | .deliver s => e.deliver s
  | .stopNotifier =>
    match e.notifier with
    | .running _ _ => { e with notifier := .stopping }.awaken .notifier
    | .absent | .stopping | .stopped => e
  | .withdraw turn => e.withdraw turn
  | .report event => e.logged event

theorem move_of_step {s : Surroundings} {e e' : Engine} {i : Nat} (h : e.step s i = some e') :
    e.move (.step s i) = e' := by simp [move, h]

theorem move_of_stuck {s : Surroundings} {e : Engine} {i : Nat} (h : e.step s i = none) :
    e.move (.step s i) = e := by simp [move, h]

def moves (e : Engine) (ms : List Move) : Engine := ms.foldl move e

@[simp] theorem moves_nil (e : Engine) : e.moves [] = e := rfl

theorem moves_append (e : Engine) (ms ms' : List Move) :
    e.moves (ms ++ ms') = (e.moves ms).moves ms' := List.foldl_append

/-- An engine on an empty book, in memory or in a journal. -/
inductive Fresh : Engine → Prop where
  | inMemory (notifier : Notifier) : Fresh (inMemory notifier)
  | onJournal {notifier : Notifier} {e : Engine}
    (h : onJournal notifier .regularFile [] = .ok e) : Fresh e

/-- Opening a journal without faults succeeds whatever piece of a line it ends in. -/
theorem onJournal_of_holds {file tail : List UInt8} {lines : List Posting}
    (h : Journal.Holds file lines tail) (notifier : Notifier) :
    onJournal notifier .regularFile file = .ok
      { store := .journal ⟨Book.of (lines.map (·.plain)), (Journal.encodeLines lines).length,
          (Journal.encodeLines lines).length, false⟩ (Journal.encodeLines lines)
        notifier
        log := if tail.length = 0 then [] else [.tailDiscarded tail.length] } := by
  obtain hok | ⟨changed, reason, -, hset, -⟩ := h.openBytes .sound
  · rw [onJournal, Journal.Target.openJournal, hok]
    rfl
  · cases hset

theorem onJournal_nil (notifier : Notifier) :
    onJournal notifier .regularFile [] = .ok { store := .journal {} [], notifier } :=
  onJournal_of_holds .nil notifier

theorem Fresh.empty {e : Engine} (h : Fresh e) :
    e.tasks = [] ∧ (e.store = .memory {} ∨ e.store = .journal {} []) := by
  cases h with
  | inMemory notifier => exact ⟨rfl, .inl rfl⟩
  | @onJournal notifier _ h =>
    rw [onJournal_nil, Except.ok.injEq] at h
    subst h
    exact ⟨rfl, .inr rfl⟩

/-- What a move makes of the tasks and of the store. -/
inductive Moved (e : Engine) : Move → Engine → Prop where
  | still {m : Move} {e' : Engine} (htasks : e'.tasks = e.tasks) (hstore : e'.store = e.store) :
    Moved e m e'
  | started (r : PostingRequest) : Moved e (.start r) (e.start r)
  | advanced {s : Surroundings} {i : Nat} {e' : Engine} {t : Task} {stage : Stage}
    (htask : e.tasks[i]? = some t) (hopen : t.isFinished = false)
    (htasks : e'.tasks = e.tasks.modify i fun t => { t with stage })
    (h : Advance e.store t stage e'.store) : Moved e (.step s i) e'
  | cancelled {i : Nat} {e' : Engine} {t : Task}
    (htask : e.tasks[i]? = some t) (hopen : t.isFinished = false)
    (htasks : e'.tasks = e.tasks.modify i fun t => { t with stage := .finished .cancelled })
    (hstore : e'.store = e.store) : Moved e (.cancel i) e'

theorem move_moved (e : Engine) (m : Move) : Moved e m (e.move m) := by
  cases m with
  | start r => exact .started r
  | step s i =>
    cases hstep : e.step s i with
    | none =>
      rw [move_of_stuck hstep]
      exact .still rfl rfl
    | some e' =>
      obtain ⟨t, stage, htask, hopen, htasks, hadvance⟩ := step_advance hstep
      rw [move_of_step hstep]
      exact .advanced htask hopen htasks hadvance
  | cancel i =>
    cases htask : e.tasks[i]? with
    | none =>
      have hmove : e.move (.cancel i) = e := by simp [move, cancel, htask]
      rw [hmove]
      exact .still rfl rfl
    | some t =>
      cases hopen : t.isFinished with
      | true =>
        have hmove : e.move (.cancel i) = e := by simp [move, cancel, htask, hopen]
        rw [hmove]
        exact .still rfl rfl
      | false =>
        have hmove : e.move (.cancel i) = e.finish i t .cancelled := by
          simp [move, cancel, htask, hopen]
        rw [hmove]
        exact .cancelled htask hopen (tasks_finish ..) (store_finish ..)
  | ask serial account => exact .still rfl rfl
  | leave serial account => exact .still (tasks_leaveLock ..) (store_leaveLock ..)
  | deliver s => exact .still (e.deliver_frame s).2 (e.deliver_frame s).1
  | withdraw turn => exact .still rfl rfl
  | report event => exact .still rfl rfl
  | stopNotifier =>
    unfold move
    cases e.notifier <;> exact .still (by simp) (by simp)

def request? (e : Engine) (i : Nat) : Option PostingRequest := (e.tasks[i]?).map (·.request)

section Tasks

variable {e e' : Engine} {i : Nat} {t : Task} {stage : Stage}

theorem request?_of_task (htask : e.tasks[i]? = some t) : e.request? i = some t.request := by
  rw [request?, htask]
  rfl

theorem outcome?_of_open (htask : e.tasks[i]? = some t) (hopen : t.isFinished = false) :
    e.outcome? i = none := by
  rw [outcome?, htask, Option.bind_some, Task.outcome?]
  cases hstage : t.stage with
  | finished outcome => simp [Task.isFinished, hstage] at hopen
  | _ => rfl

theorem getElem?_modify_stage (htask : e.tasks[i]? = some t)
    (htasks : e'.tasks = e.tasks.modify i fun t => { t with stage }) (j : Nat) :
    e'.tasks[j]? = if j = i then some { t with stage } else e.tasks[j]? := by
  rw [htasks, List.getElem?_modify]
  by_cases hj : j = i
  · subst hj
    simp [htask]
  · simp [hj, Ne.symm hj]

theorem forall_modify_stage {P : Task → Prop} (h : ∀ t ∈ e.tasks, P t)
    (htask : e.tasks[i]? = some t)
    (htasks : e'.tasks = e.tasks.modify i fun t => { t with stage }) (hnew : P { t with stage }) :
    ∀ t ∈ e'.tasks, P t := by
  intro t' ht'
  obtain ⟨j, hj⟩ := List.mem_iff_getElem?.1 ht'
  rw [getElem?_modify_stage htask htasks] at hj
  by_cases hji : j = i
  · rw [if_pos hji, Option.some.injEq] at hj
    exact hj ▸ hnew
  · rw [if_neg hji] at hj
    exact h t' (List.mem_of_getElem? hj)

theorem outcome?_modify_stage (htask : e.tasks[i]? = some t)
    (htasks : e'.tasks = e.tasks.modify i fun t => { t with stage }) (j : Nat) :
    e'.outcome? j = if j = i then ({ t with stage } : Task).outcome? else e.outcome? j := by
  rw [outcome?, getElem?_modify_stage htask htasks]
  by_cases hj : j = i
  · simp [hj]
  · simp [hj, outcome?]

theorem outcome?_of_ended {outcome : Outcome} (htask : e.tasks[i]? = some t)
    (htasks : e'.tasks = e.tasks.modify i fun t => { t with stage := .finished outcome }) :
    e'.outcome? i = some outcome := by
  rw [outcome?_modify_stage htask htasks, if_pos rfl, Task.outcome?]

theorem request?_modify_stage (htasks : e'.tasks = e.tasks.modify i fun t => { t with stage })
    (j : Nat) : e'.request? j = e.request? j := by
  rw [request?, request?, htasks, List.getElem?_modify]
  by_cases hj : i = j <;> simp [hj, Function.comp_def]

@[simp] theorem outcome?_start (e : Engine) (r : PostingRequest) (j : Nat) :
    (e.start r).outcome? j = e.outcome? j := by
  rw [outcome?, outcome?, start]
  by_cases hlt : j < e.tasks.length
  · rw [List.getElem?_append_left hlt]
  · rw [List.getElem?_append_right (Nat.le_of_not_lt hlt),
      List.getElem?_eq_none (Nat.le_of_not_lt hlt)]
    cases j - e.tasks.length <;> rfl

theorem request?_start {r r' : PostingRequest} {j : Nat} (h : e.request? j = some r') :
    (e.start r).request? j = some r' := by
  obtain ⟨t, htask, hr⟩ := Option.map_eq_some_iff.1 h
  have hlt := (List.getElem?_eq_some_iff.1 htask).1
  rw [request?, start, List.getElem?_append_left hlt]
  exact h

end Tasks

def smallRequest : PostingRequest := ⟨"a", "b", .ofWord false 5, "k"⟩

def calm : Surroundings := { fresh := fun n => (.ofNat n, .epoch) }

/-- Two postings with one key, of which the second is past the look for its key before the first is
saved. -/
def race : List Move :=
  [.start smallRequest, .start smallRequest, .step calm 1, .step calm 1] ++
    List.replicate 7 (.step calm 0) ++ List.replicate 5 (.step calm 1)

end Bookkeeping.Engine
