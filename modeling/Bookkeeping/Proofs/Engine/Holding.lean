import Bookkeeping.Proofs.Engine.Hall

/-! What a task holds on its way to its save: a lock that it has asked for is not yet its own, but
once it has got it it keeps it, so that it holds the locks of all its accounts when it saves. -/
namespace Bookkeeping

namespace Task

def held (t : Task) : List String :=
  match t.stage with
  | .secondLock | .awaitingSecond => [t.firstAccount]
  | .saving => t.accounts
  | .preCheck | .validation | .firstLock | .awaitingFirst | .finished _ => []

variable {t : Task} {a : String}

theorem held_of_saving (h : t.stage = .saving) : t.held = t.accounts := by
  rw [held, h]

theorem asked_of_held (ha : a ∈ t.held) : a ∈ t.asked := by
  unfold held at ha
  unfold asked
  cases hstage : t.stage with
  | awaitingSecond =>
    rw [hstage] at ha
    exact List.mem_cons.2 (.inl (List.mem_singleton.1 ha))
  | _ => simp_all

end Task

namespace Engine

/-- What becomes of an engine when a task goes on, or ends without having posted. -/
structure Onward (e : Engine) (i : Nat) (t : Task) (stage : Stage) (e' : Engine) : Prop where
  opened : t.isFinished = false
  tasks : e'.tasks = e.tasks.modify i fun t => { t with stage }
  store : e'.store = e.store
  notifier : e'.notifier = e.notifier
  unposted : ∀ tx, stage ≠ .finished (.posted tx)
  /-- A task that does not end still has asked for all that it had asked for. -/
  asked : ({ t with stage } : Task).isFinished = true ∨ t.asked ⊆ ({ t with stage } : Task).asked
  /-- What it has got it had already, or was handed while it waited. -/
  held : ∀ a ∈ ({ t with stage } : Task).held, a ∈ t.held ∨ e.locks.holder a = some (.task i)

section Frame

variable (e : Engine) (i : Nat) (t : Task) (turn : Turn) (w : Owner) (account : String)
  (outcome : Outcome)

@[simp] theorem notifier_awaken : (e.awaken turn).notifier = e.notifier := by
  obtain ⟨_, h⟩ := e.awaken_eq turn
  rw [h]

@[simp] theorem notifier_leaveLock : (e.leaveLock w account).notifier = e.notifier := by
  obtain ⟨_, h⟩ := e.leaveLock_eq w account
  rw [h]

@[simp] theorem notifier_finish : (e.finish i t outcome).notifier = e.notifier := by
  obtain ⟨_, _, h⟩ := e.finish_eq i t outcome
  rw [h]

theorem save_notifier (s : Surroundings) (p : Posting) :
    (e.save s p).2.notifier = e.notifier := by
  obtain ⟨_, _, h⟩ := e.save_snd_eq s p
  rw [h]

end Frame

variable {s : Surroundings} {e e' : Engine} {i : Nat} {t : Task}

theorem onward_finish {outcome : Outcome} (hopen : t.isFinished = false)
    (hunposted : ∀ tx, outcome ≠ .posted tx) :
    Onward e i t (.finished outcome) (e.finish i t outcome) where
  opened := hopen
  tasks := tasks_finish ..
  store := store_finish ..
  notifier := notifier_finish ..
  unposted := by simpa using hunposted
  asked := .inl rfl
  held := by simp [Task.held]

theorem onward_setStage {stage : Stage} (locks : Locks Owner) (hopen : t.isFinished = false)
    (hunposted : ∀ tx, stage ≠ .finished (.posted tx))
    (hasked : t.asked ⊆ ({ t with stage } : Task).asked)
    (hheld : ∀ a ∈ ({ t with stage } : Task).held, a ∈ t.held ∨ e.locks.holder a = some (.task i)) :
    Onward e i t stage ({ e with locks }.setStage i stage) :=
  ⟨hopen, rfl, rfl, rfl, hunposted, .inr hasked, hheld⟩

theorem cancel_onward (htask : e.tasks[i]? = some t) (hopen : t.isFinished = false) :
    Onward e i t (.finished .cancelled) (e.cancel i) := by
  have hcancel : e.cancel i = e.finish i t .cancelled := by simp [cancel, htask, hopen]
  rw [hcancel]
  exact onward_finish hopen (by simp)

/-- What a step makes of an engine whose task does not save yet. -/
theorem step_onward (htask : e.tasks[i]? = some t) (hstage : t.stage ≠ .saving)
    (h : e.step s i = some e') : ∃ stage, Onward e i t stage e' := by
  have hstepped := step_stepped htask h
  have hopen := hstepped.opened
  cases hstepped with
  | keyless => exact ⟨_, onward_finish hopen (by simp)⟩
  | unread => exact ⟨_, onward_finish hopen (by simp)⟩
  | known => exact ⟨_, onward_finish hopen (by simp)⟩
  | invalid => exact ⟨_, onward_finish hopen (by simp)⟩
  | checked ht =>
    exact ⟨_, onward_setStage e.locks hopen (by simp) (by simp [Task.asked, ht])
      (by simp [Task.held])⟩
  | validated ht =>
    exact ⟨_, onward_setStage e.locks hopen (by simp) (by simp [Task.asked, ht])
      (by simp [Task.held])⟩
  | askedFirst ht =>
    exact ⟨_, onward_setStage _ hopen (by simp) (by simp [Task.asked, ht]) (by simp [Task.held])⟩
  | gotFirst ht hheld =>
    have hfirst : e.locks.holder t.firstAccount = some (.task i) := by
      simpa [Locks.isHeldBy] using hheld
    cases hsecond : t.secondAccount? with
    | none =>
      exact ⟨.saving, onward_setStage e.locks hopen (by simp)
        (by simp [Task.asked, ht, Task.accounts])
        (by simp [Task.held, Task.accounts, hsecond, hfirst])⟩
    | some account =>
      exact ⟨.secondLock, onward_setStage e.locks hopen (by simp) (by simp [Task.asked, ht])
        (by simp [Task.held, hfirst])⟩
  | askedSecond ht =>
    exact ⟨_, onward_setStage _ hopen (by simp) (by simp [Task.asked, ht, Task.accounts])
      (by simp [Task.held, ht])⟩
  | @gotSecond account ht hsecond hheld =>
    have hgot : e.locks.holder account = some (.task i) := by
      simpa [Locks.isHeldBy] using hheld
    exact ⟨.saving, onward_setStage e.locks hopen (by simp)
      (by simp [Task.asked, ht, Task.accounts])
      (by simp [Task.held, ht, Task.accounts, hsecond, hgot])⟩
  | single ht hsecond =>
    have hasked : t.asked ⊆ ({ t with stage := .saving } : Task).asked := by
      obtain ht | ht := ht <;> simp [Task.asked, ht, Task.accounts]
    have hheld : ∀ a ∈ ({ t with stage := .saving } : Task).held, a ∈ t.held := by
      obtain ht | ht := ht <;> simp [Task.held, ht, Task.accounts, hsecond]
    exact ⟨.saving, onward_setStage e.locks hopen (by simp) hasked fun a ha => .inl (hheld a ha)⟩
  | saved ht => exact absurd ht hstage

end Engine

end Bookkeeping
