import Bookkeeping.Proofs.Engine.Permits
import Bookkeeping.Proofs.Engine.Waiting

/-! A batch comes to its end. Only tasks with permits stand at locks, so where no task of the batch
can go on nobody holds a lock, hence nobody holds a permit, hence nobody waits for one. -/
namespace Bookkeeping.Batch

variable {P : Surroundings → Prop} {s : Surroundings} {b b' : Batch} {e e' : Engine} {i j n : Nat}
  {t : Task} {stage : Stage} {a : String}

def asked (b : Batch) : Owner → List String
  | .task i => if b.has i then ((b.engine.tasks[i]?).map (·.asked)).getD [] else []
  | .guard _ => []

/-- In the lines at the locks stand those tasks of the batch that have asked, and nobody else. -/
def Kept (b : Batch) : Prop := b.engine.locks.Kept b.asked

theorem asked_of_task (hi : b.has i = true) (htask : b.engine.tasks[i]? = some t) :
    b.asked (.task i) = t.asked := by
  rw [asked, if_pos hi, htask]
  rfl

theorem task_of_asked {w : Owner} {a : String} (ha : a ∈ b.asked w) :
    ∃ i t, w = .task i ∧ b.has i = true ∧ b.engine.tasks[i]? = some t ∧ a ∈ t.asked := by
  cases w with
  | guard n => cases ha
  | task i =>
    by_cases hi : b.has i = true
    · rw [asked, if_pos hi] at ha
      cases htask : b.engine.tasks[i]? with
      | none => simp [htask] at ha
      | some t => exact ⟨i, t, rfl, hi, htask, by simpa [htask] using ha⟩
    · rw [asked, if_neg hi] at ha
      cases ha

theorem asked_congr (hhas : ∀ j, b'.has j = b.has j) (htasks : b'.engine.tasks = b.engine.tasks) :
    b'.asked = b.asked := by
  funext w
  cases w with
  | guard n => rfl
  | task j => rw [asked, asked, hhas, htasks]

theorem asked_modify_stage (hi : b.has i = true) (htask : b.engine.tasks[i]? = some t)
    (hhas : ∀ j, b'.has j = b.has j)
    (htasks : b'.engine.tasks = b.engine.tasks.modify i fun t => { t with stage }) (w : Owner) :
    b'.asked w = if w = .task i then ({ t with stage } : Task).asked else b.asked w := by
  cases w with
  | guard n => rfl
  | task j =>
    rw [asked, hhas, Engine.getElem?_modify_stage htask htasks]
    by_cases hj : j = i
    · simp [hj, hi]
    · simp [hj, asked]

namespace Kept

theorem start (h : e.Quiet) (rs : List PostingRequest) (permits : Nat) :
    (Batch.start e rs permits).Kept := by
  have hnobody : (Batch.start e rs permits).asked = fun _ => [] := by
    funext w
    refine List.eq_nil_iff_forall_not_mem.2 fun a ha => ?_
    obtain ⟨i, t, -, hi, htask, hasked⟩ := task_of_asked ha
    rw [Task.asked, stage_start hi htask] at hasked
    cases hasked
  rw [Kept, hnobody, Batch.start, Engine.foldl_start]
  exact h

theorem congr (h : b.Kept) (hhas : ∀ j, b'.has j = b.has j)
    (htasks : b'.engine.tasks = b.engine.tasks) (hlocks : b'.engine.locks = b.engine.locks) :
    b'.Kept := by
  rw [Kept, hlocks, asked_congr hhas htasks]
  exact h

theorem engine (h : b.Kept) (hi : b.has i = true) (hhas : ∀ j, b'.has j = b.has j)
    (hstep : b.engine.step s i = some b'.engine) : b'.Kept := by
  obtain ⟨t, stage, htask, -, htasks, hhandled⟩ := Engine.step_handled hstep
  exact Locks.Kept.handled h (asked_of_task hi htask) (asked_modify_stage hi htask hhas htasks)
    hhandled

theorem step (h : b.Kept) (horderly : b.Orderly) (hstep : b.step s i = some b') : b'.Kept := by
  obtain ⟨hi, hhas, hsame | hmove⟩ := horderly.engine_step hstep
  · exact h.congr hhas (by rw [hsame]) (by rw [hsame])
  · exact h.engine hi hhas hmove

theorem deliver (h : b.Kept) (s : Surroundings) :
    Kept { b with engine := b.engine.deliver s } :=
  h.congr (fun _ => rfl) (b.engine.deliver_frame s).2 (Engine.locks_deliver ..)

theorem goes (h : b.Kept) (horderly : b.Orderly) (hgoes : b.Goes P n b') : b'.Kept :=
  horderly.invariant (fun _ horderly hstep h => h.step horderly hstep) (fun s _ h => h.deliver s)
    hgoes h

end Kept

/-- No task of the batch has a step to take. -/
def Stuck (s : Surroundings) (b : Batch) : Prop := ∀ i, b.step s i = none

namespace Orderly

theorem awaited_of_stuck (h : b.Orderly) (hstuck : b.step s i = none) (hi : i ∈ b.admitted)
    (htask : b.engine.tasks[i]? = some t) :
    ∃ a, t.awaited? = some a ∧ b.engine.locks.isHeldBy a (.task i) = false := by
  rw [Batch.step, if_pos hi, Option.map_eq_none_iff] at hstuck
  have hopen := h.opened i (List.mem_append_left _ hi)
  exact Engine.awaited_of_stuck htask (Engine.isFinished_of_outcome? htask hopen) hstuck

theorem admitted_of_holder (h : b.Orderly) (hkept : b.Kept) {w : Owner}
    (hw : b.engine.locks.holder a = some w) :
    ∃ i t, w = .task i ∧ i ∈ b.admitted ∧ b.engine.tasks[i]? = some t ∧ a ∈ t.asked := by
  obtain ⟨i, t, rfl, hi, htask, hasked⟩ := task_of_asked (Locks.Kept.asked_of_holder hkept hw)
  have hstarted : t.stage ≠ .preCheck := by
    intro hstage
    simp [Task.asked, hstage] at hasked
  have hopen : t.isFinished = false := by
    by_contra hended
    rw [Task.asked_of_finished (by simpa using hended)] at hasked
    cases hasked
  exact ⟨i, t, rfl, h.underWay i t hi htask hstarted hopen, htask, hasked⟩

/-- Where no task can go on whoever held a lock would wait for a greater one that is held too. -/
theorem holder_eq_none (h : b.Orderly) (hkept : b.Kept) (hstuck : b.Stuck s) (a : String) :
    b.engine.locks.holder a = none := by
  refine Option.eq_none_iff_forall_ne_some.2 fun w hw => ?_
  refine Locks.Kept.ascending hkept (fun a w hw ih => ?_) hw
  obtain ⟨i, t, rfl, hadmitted, htask, hasked⟩ := h.admitted_of_holder hkept hw
  obtain ⟨c, hc, hheld⟩ := h.awaited_of_stuck (hstuck i) hadmitted htask
  have hne : a ≠ c := by
    rintro rfl
    simp [Locks.isHeldBy, hw] at hheld
  have hi := h.member i (List.mem_append_left _ hadmitted)
  obtain ⟨v, hv⟩ := Locks.Kept.holder_isSome hkept
    (asked_of_task hi htask ▸ Task.asked_of_awaited hc)
  exact ih c v hv (Task.lt_awaited hasked hc hne)

theorem applicants_eq_nil (h : b.Orderly) (hkept : b.Kept) (hstuck : b.Stuck s) :
    b.admitted = [] ∧ b.queue = [] := by
  have hadmitted : b.admitted = [] := by
    refine List.eq_nil_iff_forall_not_mem.2 fun i hi => ?_
    have hhas := h.member i (List.mem_append_left _ hi)
    obtain ⟨t, htask⟩ := h.present hhas
    obtain ⟨a, ha, -⟩ := h.awaited_of_stuck (hstuck i) hi htask
    obtain ⟨w, hw⟩ := Locks.Kept.holder_isSome hkept
      (asked_of_task hhas htask ▸ Task.asked_of_awaited ha)
    rw [h.holder_eq_none hkept hstuck] at hw
    cases hw
  exact ⟨hadmitted, h.queue_eq_nil (by simpa [hadmitted] using h.permits)⟩

theorem outcome_of_free (h : b.Orderly) (happlicants : b.applicants = [])
    (hstuck : b.step s i = none) (hi : b.has i = true) : b.engine.outcome? i ≠ none := by
  obtain ⟨hadmitted, hqueue⟩ := List.append_eq_nil_iff.1 happlicants
  intro hopen
  have hstep : b.step s i = some { b with admitted := b.admitted ++ [i] } := by
    simp [Batch.step, hadmitted, hqueue, hi, hopen, h.permits]
  rw [hstuck] at hstep
  cases hstep

theorem outcome_of_stuck (h : b.Orderly) (hkept : b.Kept) (hstuck : b.Stuck s)
    (hi : b.has i = true) : ∃ outcome, b.engine.outcome? i = some outcome := by
  obtain ⟨hadmitted, hqueue⟩ := h.applicants_eq_nil hkept hstuck
  exact Option.ne_none_iff_exists'.1
    (h.outcome_of_free (List.append_eq_nil_iff.2 ⟨hadmitted, hqueue⟩) (hstuck i) hi)

/-- Any run can go on until no task has a step to take. -/
theorem exists_stuck (h : b.Orderly) (hs : P s) : ∃ n b', b.Goes P n b' ∧ b'.Stuck s := by
  induction hleft : b.stepsLeft using Nat.strong_induction_on generalizing b with
  | h k ih =>
    by_cases hstuck : b.Stuck s
    · exact ⟨0, b, .refl b, hstuck⟩
    · simp only [Stuck, not_forall] at hstuck
      obtain ⟨i, hsome⟩ := hstuck
      obtain ⟨b', hstep⟩ := Option.ne_none_iff_exists'.1 hsome
      obtain ⟨n, b'', hgoes, hstuck⟩ :=
        ih b'.stepsLeft (hleft ▸ h.stepsLeft_step hstep) (h.step hstep) rfl
      exact ⟨n + 1, b'', .step hs hstep hgoes, hstuck⟩

end Orderly

end Bookkeeping.Batch
