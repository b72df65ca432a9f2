import Mathlib.Data.String.Basic
import Bookkeeping.Proofs.Engine.Run
import Bookkeeping.Proofs.Locks.Line

/-! What a step of a task makes of the locks: it asks for its accounts in ascending order, and
leaves all that it took or waited for when it ends, however it ends. -/
namespace Bookkeeping

namespace Task

def accounts (t : Task) : List String := t.firstAccount :: t.secondAccount?.toList

/-- The accounts whose locks a task has asked for and not given up. -/
def asked (t : Task) : List String :=
  match t.stage with
  | .awaitingFirst | .secondLock => [t.firstAccount]
  | .awaitingSecond | .saving => t.accounts
  | .preCheck | .validation | .firstLock | .finished _ => []

def awaited? (t : Task) : Option String :=
  match t.stage with
  | .awaitingFirst => some t.firstAccount
  | .awaitingSecond => t.secondAccount?
  | _ => none

variable {t : Task} {a : String}

@[simp] theorem firstAccount_withStage (stage : Stage) :
    ({ t with stage } : Task).firstAccount = t.firstAccount := rfl

@[simp] theorem secondAccount?_withStage (stage : Stage) :
    ({ t with stage } : Task).secondAccount? = t.secondAccount? := rfl

theorem firstAccount_lt (h : t.secondAccount? = some a) : t.firstAccount < a := by
  unfold secondAccount? at h
  unfold firstAccount
  split at h
  · cases h
  · next hne =>
    split at h
    · next hlt =>
      cases h
      rwa [if_pos hlt]
    · next hlt =>
      cases h
      rw [if_neg hlt]
      exact lt_of_le_of_ne (not_lt.1 hlt) hne

theorem asked_subset (ha : a ∈ t.asked) : a ∈ t.accounts := by
  unfold asked at ha
  split at ha
  · exact List.mem_cons.2 (.inl (List.mem_singleton.1 ha))
  · exact List.mem_cons.2 (.inl (List.mem_singleton.1 ha))
  · exact ha
  · exact ha
  all_goals cases ha

theorem mem_accounts_iff :
    a ∈ t.accounts ↔ a = t.request.fromAccount ∨ a = t.request.toAccount := by
  unfold accounts firstAccount secondAccount?
  grind

theorem mem_accounts (ha : a ∈ t.accounts) :
    a = t.request.fromAccount ∨ a = t.request.toAccount := mem_accounts_iff.1 ha

theorem asked_of_finished (h : t.isFinished = true) : t.asked = [] := by
  unfold isFinished at h
  unfold asked
  cases hstage : t.stage <;> simp_all

end Task

/-- How many steps are left to a task in a stage, at most. -/
def Stage.remaining : Stage → Nat
  | .preCheck => 7
  | .validation => 6
  | .firstLock => 5
  | .awaitingFirst => 4
  | .secondLock => 3
  | .awaitingSecond => 2
  | .saving => 1
  | .finished _ => 0

theorem Stage.remaining_le (stage : Stage) : stage.remaining ≤ 7 := by
  cases stage <;> simp [remaining]

theorem Stage.remaining_pos {stage : Stage} (h : stage.isLocking = true ∨ stage = .saving) :
    0 < stage.remaining := by
  cases stage <;> simp_all [isLocking, remaining]

theorem Task.isFinished_of_remaining {t : Task} (h : 0 < t.stage.remaining) :
    t.isFinished = false := by
  unfold isFinished
  cases hstage : t.stage with
  | finished outcome => simp [hstage, Stage.remaining] at h
  | _ => rfl

/-- What a step of a task makes of the locks: they stay as they are, it asks for one, or it ends and
leaves all that it took or waited for. -/
inductive Handled (ls : Locks Owner) (i : Nat) (t : Task) : Stage → Locks Owner → Prop where
  | still {stage : Stage} (h : ({ t with stage } : Task).asked = t.asked) : Handled ls i t stage ls
  | requested {stage : Stage} {a : String} (hnew : a ∉ t.asked)
    (h : ({ t with stage } : Task).asked = t.asked ++ [a]) :
    Handled ls i t stage (ls.request a (.task i))
  | ended (outcome : Outcome) : Handled ls i t (.finished outcome)
    (t.accounts.foldl (fun ls a => ls.leave a (.task i)) ls)

theorem Handled.turned {ls ls' : Locks Owner} {i : Nat} {t : Task} {stage : Stage}
    (h : Handled ls i t stage ls') : ls.Turned ls' := by
  cases h with
  | still => exact .still
  | requested => exact .asked _ _
  | ended => exact .left _ _

/-- Those who have asked stay in the lines, where one of them is a task that takes a step. -/
theorem Locks.Kept.handled {ls ls' : Locks Owner} {asked asked' : Owner → List String} {i : Nat}
    {t : Task} {stage : Stage} (h : ls.Kept asked) (hnow : asked (.task i) = t.asked)
    (hasked : ∀ w, asked' w = if w = .task i then ({ t with stage } : Task).asked else asked w)
    (hhandled : Handled ls i t stage ls') : ls'.Kept asked' := by
  cases hhandled with
  | still hsame =>
    have : asked' = asked := by
      funext w
      rw [hasked]
      split
      · next hw => rw [hw, hnow, hsame]
      · rfl
    exact this ▸ h
  | requested hnew hmore =>
    refine h.request (hnow ▸ hnew) fun w b => ?_
    rw [hasked]
    split
    · next hw => rw [hw, hnow, hmore]; simp
    · next hw => simp [hw]
  | ended outcome =>
    refine h.leaveAll fun w b => ?_
    rw [hasked]
    split
    · next hw =>
      rw [hw, hnow]
      simpa [Task.asked] using Task.asked_subset
    · next hw => simp [hw]

namespace Engine

section Frame

variable (e : Engine) (i : Nat) (t : Task) (turn : Turn) (w : Owner) (account : String)
  (outcome : Outcome) (notice : Completion) (s : Surroundings)

@[simp] theorem locks_awaken : (e.awaken turn).locks = e.locks := by
  obtain ⟨_, h⟩ := e.awaken_eq turn
  rw [h]

@[simp] theorem locks_leaveLock : (e.leaveLock w account).locks = e.locks.leave account w := by
  obtain ⟨_, h⟩ := e.leaveLock_eq w account
  rw [h]

@[simp] theorem locks_finish : (e.finish i t outcome).locks =
    t.accounts.foldl (fun ls a => ls.leave a (.task i)) e.locks := by
  unfold finish Task.accounts
  cases t.secondAccount? <;> simp [withdraw, setStage]

@[simp] theorem locks_deliver : (e.deliver s).locks = e.locks := by
  obtain ⟨_, _, _, _, h⟩ := e.deliver_eq s
  rw [h]

theorem locks_announce (now : Moment) (tx : Transaction) (answer : Except Error SaveOutcome) :
    (e.announce now tx answer).locks = e.locks := by
  obtain ⟨_, _, _, h⟩ := e.announce_eq now tx answer
  rw [h]

theorem save_frame (p : Posting) :
    (e.save s p).2.tasks = e.tasks ∧ (e.save s p).2.locks = e.locks := by
  obtain ⟨_, _, h⟩ := e.save_snd_eq s p
  rw [h]
  exact ⟨rfl, rfl⟩

theorem stepSave_ends : ∃ outcome,
    (stepSave s e i t).tasks = e.tasks.modify i (fun t => { t with stage := .finished outcome }) ∧
      (stepSave s e i t).locks =
        t.accounts.foldl (fun ls a => ls.leave a (.task i)) e.locks := by
  rw [stepSave_eq rfl rfl]
  split
  · exact ⟨_, tasks_finish .., locks_finish ..⟩
  · obtain ⟨htasks, hlocks⟩ := e.counted.save_frame s
      (t.request.toTransaction (s.fresh e.made).1 (s.fresh e.made).2).posting
    refine ⟨_, (tasks_finish ..).trans (congrArg _ ((tasks_announce ..).trans htasks)), ?_⟩
    rw [locks_finish, locks_announce, hlocks]
    rfl

end Frame

variable {s : Surroundings} {e e' : Engine} {i : Nat} {t : Task}

theorem finish_handled (outcome : Outcome) (hopen : t.isFinished = false) : ∃ stage : Stage,
    stage.remaining < t.stage.remaining ∧
      (e.finish i t outcome).tasks = e.tasks.modify i (fun t => { t with stage }) ∧
      Handled e.locks i t stage (e.finish i t outcome).locks := by
  refine ⟨.finished outcome, ?_, tasks_finish .., locks_finish e i t outcome ▸ .ended outcome⟩
  unfold Task.isFinished at hopen
  cases hstage : t.stage <;> simp_all [Stage.remaining]

/-- What a step does to the locks, and that it brings its task nearer to its end. -/
theorem Stepped.handled (h : Stepped s e i t e') : ∃ stage : Stage,
    stage.remaining < t.stage.remaining ∧
      e'.tasks = e.tasks.modify i (fun t => { t with stage }) ∧
      Handled e.locks i t stage e'.locks := by
  have hopen := h.opened
  cases h with
  | keyless => exact finish_handled _ hopen
  | unread => exact finish_handled _ hopen
  | known => exact finish_handled _ hopen
  | invalid => exact finish_handled _ hopen
  | checked h => exact ⟨_, by rw [h]; decide, rfl, .still (by simp [Task.asked, h])⟩
  | validated h => exact ⟨_, by rw [h]; decide, rfl, .still (by simp [Task.asked, h])⟩
  | askedFirst h =>
    exact ⟨_, by rw [h]; decide, rfl, .requested (by simp [Task.asked, h]) (by simp [Task.asked, h])⟩
  | gotFirst h =>
    cases hsecond : t.secondAccount? with
    | none =>
      exact ⟨.saving, by rw [h]; decide, rfl, .still (by simp [Task.asked, h, Task.accounts, hsecond])⟩
    | some account =>
      exact ⟨.secondLock, by rw [h]; decide, rfl, .still (by simp [Task.asked, h])⟩
  | @askedSecond account h hsecond =>
    have hne : account ≠ t.firstAccount := (Task.firstAccount_lt hsecond).ne'
    exact ⟨_, by rw [h]; decide, rfl, .requested (by simpa [Task.asked, h] using hne)
      (by simp [Task.asked, h, Task.accounts, hsecond])⟩
  | gotSecond h =>
    exact ⟨.saving, by rw [h]; decide, rfl, .still (by simp [Task.asked, h, Task.accounts])⟩
  | single h hsecond =>
    refine ⟨.saving, ?_, rfl, .still ?_⟩
    · obtain h | h := h <;> rw [h] <;> decide
    · obtain h | h := h <;> simp [Task.asked, h, Task.accounts, hsecond]
  | saved h =>
    obtain ⟨outcome, htasks, hlocks⟩ := stepSave_ends e i t s
    exact ⟨_, by rw [h]; simp [Stage.remaining], htasks, hlocks ▸ .ended outcome⟩

theorem step_handled (h : e.step s i = some e') : ∃ t stage, e.tasks[i]? = some t ∧
    stage.remaining < t.stage.remaining ∧
    e'.tasks = e.tasks.modify i (fun t => { t with stage }) ∧
    Handled e.locks i t stage e'.locks := by
  cases htask : e.tasks[i]? with
  | none => simp [step, htask] at h
  | some t => exact ⟨t, (step_stepped htask h).handled.imp fun _ hstep => ⟨rfl, hstep⟩⟩

end Engine

end Bookkeeping
