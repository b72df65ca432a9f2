import Bookkeeping.Proofs.Engine.Completion

/-! The tasks of a batch one after the other, whatever the store does wrong. Between two turns nobody
has a permit; the task whose turn it is gets one, finds its locks free, and comes to its end. -/
namespace Bookkeeping.Batch

variable {P : Surroundings → Prop} {s : Surroundings} {b b' : Batch} {i j n m : Nat}

def AllEnded (b : Batch) : Prop := ∀ i, b.has i = true → b.engine.outcome? i ≠ none

theorem has_goes (h : b.Orderly) (hgoes : b.Goes P n b') (j : Nat) : b'.has j = b.has j :=
  h.invariant (I := fun b' => b'.has j = b.has j)
    (fun _ horderly hstep hsame => ((horderly.engine_step hstep).2.1 j).trans hsame)
    (fun _ _ hsame => hsame) hgoes rfl

theorem outcome?_step (h : b.Orderly) (hstep : b.step s i = some b')
    (hended : b.engine.outcome? j ≠ none) : b'.engine.outcome? j = b.engine.outcome? j := by
  obtain ⟨-, -, hsame | hmove⟩ := h.engine_step hstep
  · rw [hsame]
  · obtain ⟨t, -, htask, hopen, -⟩ := Engine.step_advance hmove
    refine Engine.outcome?_step_of_ne hmove ?_
    rintro rfl
    exact hended (Engine.outcome?_of_open htask hopen)

theorem outcome?_goes (h : b.Orderly) (hgoes : b.Goes P n b')
    (hended : b.engine.outcome? j ≠ none) : b'.engine.outcome? j ≠ none :=
  h.invariant (I := fun b => b.engine.outcome? j ≠ none)
    (fun _ horderly hstep hended => outcome?_step horderly hstep hended ▸ hended)
    (fun s b hended => by rwa [Engine.outcome?, (b.engine.deliver_frame s).2]) hgoes hended

theorem Kept.quiet (h : b.Kept) (hended : b.AllEnded) : b.engine.Quiet := by
  have hnobody : b.asked = fun _ => [] := by
    funext w
    refine List.eq_nil_iff_forall_not_mem.2 fun a ha => ?_
    obtain ⟨i, t, -, hi, htask, hasked⟩ := task_of_asked ha
    have hout := hended i hi
    rw [Engine.outcome?, htask, Option.bind_some, Task.outcome?] at hout
    rw [Task.asked_of_finished (by unfold Task.isFinished; split at hout <;> simp_all)] at hasked
    cases hasked
  rw [Engine.Quiet, ← hnobody]
  exact h

theorem Orderly.goesOn (h : b.Orderly) (hkept : b.Kept) (s : Surroundings) :
    b.AllEnded ∨ ∃ i b', b.step s i = some b' := by
  by_cases hstuck : b.Stuck s
  · refine .inl fun i hi => Option.ne_none_iff_exists'.2 ?_
    exact h.outcome_of_stuck hkept hstuck hi
  · simp only [Stuck, not_forall] at hstuck
    obtain ⟨i, hsome⟩ := hstuck
    exact .inr ⟨i, Option.ne_none_iff_exists'.1 hsome⟩

theorem mem_applicants_step (hstep : b.step s i = some b') (hj : j ∈ b'.applicants) :
    j ∈ b.applicants ∨ j = i := by
  cases step_stepped hstep with
  | entered => simpa [applicants, or_right_comm, or_assoc] using hj
  | queued => simpa [applicants, or_assoc] using hj
  | moved => exact .inl hj
  | @ended hi e =>
    have happlicants : ({ b with engine := e }.release i).applicants = b.applicants.erase i :=
      applicants_release _ i hi
    exact .inl (List.mem_of_mem_erase (happlicants ▸ hj))

/-- Nobody but the task has a permit or waits for one. -/
structure Turn (b : Batch) (i : Nat) : Prop where
  orderly : b.Orderly
  kept : b.Kept
  applicants : ∀ j ∈ b.applicants, j = i

namespace Turn

theorem step (h : b.Turn i) (hstep : b.step s i = some b') : b'.Turn i where
  orderly := h.orderly.step hstep
  kept := h.kept.step h.orderly hstep
  applicants j hj := (mem_applicants_step hstep hj).elim (h.applicants j) id

/-- A task that has no step to take in its turn has ended: if it waited for a lock, another task with
a permit would hold it. -/
theorem ended (h : b.Turn i) (hstuck : b.step s i = none) (hi : b.has i = true) :
    b.applicants = [] ∧ b.engine.outcome? i ≠ none := by
  have hnotAdmitted : i ∉ b.admitted := by
    intro hadmitted
    obtain ⟨t, htask⟩ := h.orderly.present hi
    obtain ⟨a, ha, hheld⟩ := h.orderly.awaited_of_stuck hstuck hadmitted htask
    obtain ⟨w, hw⟩ := Locks.Kept.holder_isSome h.kept
      (asked_of_task hi htask ▸ Task.asked_of_awaited ha)
    obtain ⟨j, -, rfl, hj, -⟩ := h.orderly.admitted_of_holder h.kept hw
    obtain rfl := h.applicants j (List.mem_append_left _ hj)
    simp [Locks.isHeldBy, hw] at hheld
  have hadmitted : b.admitted = [] := List.eq_nil_iff_forall_not_mem.2 fun j hj =>
    hnotAdmitted (h.applicants j (List.mem_append_left _ hj) ▸ hj)
  have hqueue : b.queue = [] :=
    h.orderly.queue_eq_nil (by simpa [hadmitted] using h.orderly.permits)
  have happlicants : b.applicants = [] := List.append_eq_nil_iff.2 ⟨hadmitted, hqueue⟩
  exact ⟨happlicants, h.orderly.outcome_of_free happlicants hstuck hi⟩

theorem runTaskFor (h : b.Turn i) (hm : b.left i < m) :
    (Batch.runTaskFor s m b i).Turn i ∧ (Batch.runTaskFor s m b i).step s i = none := by
  induction m generalizing b with
  | zero => cases hm
  | succ m ih =>
    rw [Batch.runTaskFor]
    cases hstep : b.step s i with
    | none => exact ⟨h, hstep⟩
    | some b' =>
      have hless := (h.orderly.left_step hstep).2.2.1
      exact ih (h.step hstep) (by omega)

end Turn

structure Resting (b : Batch) : Prop where
  orderly : b.Orderly
  kept : b.Kept
  applicants : b.applicants = []

namespace Resting

theorem start {e : Engine} (h : e.Quiet) (rs : List PostingRequest) (permits : Nat) :
    (Batch.start e rs permits).Resting := ⟨.start e rs permits, .start h rs permits, rfl⟩

theorem deliver (h : b.Resting) (s : Surroundings) :
    Resting { b with engine := b.engine.deliver s } :=
  ⟨h.orderly.deliver s, h.kept.deliver s, h.applicants⟩

theorem runTask (h : b.Resting) (hi : b.has i = true) :
    (b.runTask s i).Resting ∧ (b.runTask s i).engine.outcome? i ≠ none := by
  have hturn : b.Turn i := ⟨h.orderly, h.kept, by simp [h.applicants]⟩
  obtain ⟨hlast, hstuck⟩ := hturn.runTaskFor (s := s) (m := 9) (Nat.lt_succ_of_le (b.left_le i))
  obtain ⟨n, hgoes⟩ := goes_runTaskFor (P := fun _ => True) (s := s) trivial 9 b i
  obtain ⟨happlicants, hended⟩ :=
    hlast.ended hstuck ((has_goes h.orderly hgoes i).trans hi)
  refine ⟨deliver ⟨hlast.orderly, hlast.kept, happlicants⟩ s, ?_⟩
  rwa [Batch.runTask, Engine.outcome?, (Engine.deliver_frame _ s).2]

theorem foldl_runTask (h : b.Resting) {is : List Nat} (his : ∀ i ∈ is, b.has i = true) :
    (is.foldl (Batch.runTask s) b).Resting ∧
      ∀ i ∈ is, (is.foldl (Batch.runTask s) b).engine.outcome? i ≠ none := by
  induction is generalizing b with
  | nil => exact ⟨h, by simp⟩
  | cons i is ih =>
    rw [List.forall_mem_cons] at his
    obtain ⟨hnext, hended⟩ := h.runTask (s := s) his.1
    obtain ⟨m, hfirst⟩ := goes_runTask (P := fun _ => True) (s := s) trivial b i
    obtain ⟨hrest, hothers⟩ :=
      ih hnext fun j hj => (has_goes h.orderly hfirst j).trans (his.2 j hj)
    obtain ⟨n, hgoes⟩ :=
      goes_foldl_runTask (P := fun _ => True) (s := s) trivial is (b.runTask s i)
    exact ⟨hrest, List.forall_mem_cons.2 ⟨outcome?_goes hnext.orderly hgoes hended, hothers⟩⟩

/-- The tasks that run one after the other all come to their ends. -/
theorem run (h : b.Resting) : (b.run s).Resting ∧ (b.run s).AllEnded := by
  have hall : ∀ i ∈ b.members, b.has i = true := fun i hi => mem_members.1 hi
  obtain ⟨hrest, hended⟩ := (h.deliver s).foldl_runTask (s := s) hall
  refine ⟨hrest, fun i hi => hended i (mem_members.2 ?_)⟩
  obtain ⟨n, hgoes⟩ := goes_run (P := fun _ => True) (s := s) trivial b
  rwa [has_goes h.orderly hgoes] at hi

end Resting

end Bookkeeping.Batch
