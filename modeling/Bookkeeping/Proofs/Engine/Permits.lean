import Mathlib.Algebra.Order.BigOperators.Group.List
import Bookkeeping.Proofs.Engine.Faultless
import Bookkeeping.Proofs.Engine.InOrder

/-! The tasks of a batch in any order of their steps. The invariant is who has asked for a permit
and has not ended: first those who have one, and behind them those who wait for one because all are
taken. -/
namespace Bookkeeping

namespace Engine

variable {s : Surroundings} {e e' : Engine} {i j : Nat}

theorem getElem?_step_of_ne (h : e.step s i = some e') (hne : j ≠ i) :
    e'.tasks[j]? = e.tasks[j]? := by
  obtain ⟨t, stage, htask, -, htasks, -⟩ := step_handled h
  rw [getElem?_modify_stage htask htasks, if_neg hne]

theorem outcome?_step_of_ne (h : e.step s i = some e') (hne : j ≠ i) :
    e'.outcome? j = e.outcome? j := by
  rw [outcome?, outcome?, getElem?_step_of_ne h hne]

theorem isFinished_of_outcome? {t : Task} (htask : e.tasks[i]? = some t)
    (hopen : e.outcome? i = none) : t.isFinished = false := by
  rw [outcome?, htask, Option.bind_some] at hopen
  cases hstage : t.stage <;> simp_all [Task.isFinished, Task.outcome?]

end Engine

namespace Batch

structure Asks (b : Batch) (i : Nat) : Prop where
  has : b.has i = true
  admitted : i ∉ b.admitted
  queue : i ∉ b.queue
  opened : b.engine.outcome? i = none

/-- What a step of a task makes of the batch: the task gets a permit or waits for one, it goes on
with its permit, or it ends and gives the permit back. -/
inductive Stepped (s : Surroundings) (b : Batch) (i : Nat) : Batch → Prop where
  | entered (h : b.Asks i) (hroom : b.admitted.length < b.permits) :
    Stepped s b i { b with admitted := b.admitted ++ [i] }
  | queued (h : b.Asks i) (hfull : b.permits ≤ b.admitted.length) :
    Stepped s b i { b with queue := b.queue ++ [i] }
  | moved (h : i ∈ b.admitted) {e : Engine} (hstep : b.engine.step s i = some e)
    (hopen : e.outcome? i = none) : Stepped s b i { b with engine := e }
  | ended (h : i ∈ b.admitted) {e : Engine} (hstep : b.engine.step s i = some e)
    (hended : e.outcome? i ≠ none) : Stepped s b i ({ b with engine := e }.release i)

/-- So many steps of tasks lead from one state of a batch to the other, each with surroundings of
its own that are as `P` says; the notifier has its turns at any time. -/
inductive Goes (P : Surroundings → Prop) : Nat → Batch → Batch → Prop where
  | refl (b : Batch) : Goes P 0 b b
  | step {n i : Nat} {s : Surroundings} {b b' b'' : Batch} (hs : P s)
    (h : b.step s i = some b') (hrest : Goes P n b' b'') : Goes P (n + 1) b b''
  | deliver {n : Nat} {b b' : Batch} (s : Surroundings)
    (hrest : Goes P n { b with engine := b.engine.deliver s } b') : Goes P n b b'

variable {P : Surroundings → Prop} {s : Surroundings} {b b' b'' : Batch} {i j n m : Nat} {t : Task}

theorem step_stepped (h : b.step s i = some b') : Stepped s b i b' := by
  unfold step at h
  split at h
  · next hadmitted =>
    obtain ⟨e, hstep, rfl⟩ := Option.map_eq_some_iff.1 h
    split
    · next hended => exact .ended hadmitted hstep (Option.isSome_iff_ne_none.1 hended)
    · next hopen => exact .moved hadmitted hstep (Option.not_isSome_iff_eq_none.1 hopen)
  · next hadmitted =>
    split at h
    · cases h
    · next hother =>
      simp only [Bool.or_eq_true, Bool.not_eq_true', decide_eq_true_eq, not_or,
        Bool.not_eq_false, Option.not_isSome_iff_eq_none] at hother
      have hasks : b.Asks i := ⟨hother.1.1, hadmitted, hother.1.2, hother.2⟩
      split at h
      · next hroom =>
        cases h
        exact .entered hasks hroom
      · next hfull =>
        cases h
        exact .queued hasks (Nat.le_of_not_lt hfull)

theorem Goes.trans (h : Goes P n b b') (h' : Goes P m b' b'') : Goes P (n + m) b b'' := by
  induction h with
  | refl b => rwa [Nat.zero_add]
  | step hs hstep _ ih =>
    rw [Nat.succ_add]
    exact .step hs hstep (ih h')
  | deliver s _ ih => exact .deliver s (ih h')

theorem goes_runTaskFor (hs : P s) (m : Nat) (b : Batch) (i : Nat) :
    ∃ n, b.Goes P n (runTaskFor s m b i) := by
  induction m generalizing b with
  | zero => exact ⟨0, .refl b⟩
  | succ m ih =>
    rw [runTaskFor]
    cases hstep : b.step s i with
    | none => exact ⟨0, .refl b⟩
    | some b' =>
      obtain ⟨n, hgoes⟩ := ih b'
      exact ⟨n + 1, .step hs hstep hgoes⟩

theorem goes_runTask (hs : P s) (b : Batch) (i : Nat) : ∃ n, b.Goes P n (b.runTask s i) := by
  obtain ⟨n, hgoes⟩ := goes_runTaskFor hs 9 b i
  exact ⟨n, hgoes.trans (.deliver s (.refl _))⟩

theorem goes_foldl_runTask (hs : P s) (is : List Nat) (b : Batch) :
    ∃ n, b.Goes P n (is.foldl (runTask s) b) := by
  induction is generalizing b with
  | nil => exact ⟨0, .refl b⟩
  | cons i is ih =>
    obtain ⟨n, hfirst⟩ := goes_runTask hs b i
    obtain ⟨m, hrest⟩ := ih (b.runTask s i)
    exact ⟨n + m, hfirst.trans hrest⟩

theorem goes_run (hs : P s) (b : Batch) : ∃ n, b.Goes P n (b.run s) := by
  obtain ⟨n, hgoes⟩ := goes_foldl_runTask hs b.members { b with engine := b.engine.deliver s }
  exact ⟨n, .deliver s hgoes⟩

/-- Those who have asked for a permit and have not given it back, the first in front. -/
def applicants (b : Batch) : List Nat := b.admitted ++ b.queue

section Release

variable (b : Batch) (i : Nat)

@[simp] theorem engine_release : (b.release i).engine = b.engine := by
  unfold release
  split <;> rfl

@[simp] theorem first_release : (b.release i).first = b.first := by
  unfold release
  split <;> rfl

@[simp] theorem size_release : (b.release i).size = b.size := by
  unfold release
  split <;> rfl

@[simp] theorem permits_release : (b.release i).permits = b.permits := by
  unfold release
  split <;> rfl

@[simp] theorem has_release (j : Nat) : (b.release i).has j = b.has j := by
  rw [has, has, first_release, size_release]

@[simp] theorem queue_release : (b.release i).queue = b.queue.tail := by
  unfold release
  split
  · next hqueue => simp [hqueue]
  · next next rest hqueue => simp [hqueue]

theorem length_admitted_release (h : i ∈ b.admitted) :
    (b.release i).admitted.length + (if b.queue = [] then 1 else 0) = b.admitted.length := by
  have hpositive : 0 < b.admitted.length := List.length_pos_of_mem h
  unfold release
  split
  · next hqueue =>
    rw [hqueue, if_pos rfl, List.length_erase_of_mem h]
    omega
  · next next rest hqueue =>
    rw [hqueue, if_neg (List.cons_ne_nil next rest), List.length_append, List.length_singleton,
      List.length_erase_of_mem h]
    omega

theorem applicants_release (h : i ∈ b.admitted) :
    (b.release i).applicants = b.applicants.erase i := by
  unfold applicants
  rw [List.erase_append_left _ h]
  unfold release
  split
  · next hqueue => rw [hqueue]
  · next next rest hqueue => simp [hqueue]

theorem mem_admitted_release (hj : j ∈ b.admitted) (hne : j ≠ i) :
    j ∈ (b.release i).admitted := by
  have hrest : j ∈ b.admitted.erase i := (List.mem_erase_of_ne hne).2 hj
  unfold release
  split
  · exact hrest
  · exact List.mem_append_left _ hrest

end Release

theorem stage_start {e : Engine} {rs : List PostingRequest} {permits : Nat}
    (hi : (Batch.start e rs permits).has i = true)
    (htask : (Batch.start e rs permits).engine.tasks[i]? = some t) : t.stage = .preCheck := by
  simp only [Batch.start, has, Bool.and_eq_true] at hi
  rw [Batch.start, Engine.foldl_start, List.getElem?_append_right (of_decide_eq_true hi.1),
    List.getElem?_map] at htask
  obtain ⟨r, -, rfl⟩ := Option.map_eq_some_iff.1 htask
  rfl

/-- The tasks of a batch are there, and of those that are under way each has a permit. -/
structure Orderly (b : Batch) : Prop where
  permits : 0 < b.permits
  room : b.admitted.length ≤ b.permits
  full : b.queue ≠ [] → b.permits ≤ b.admitted.length
  nodup : b.applicants.Nodup
  member : ∀ i ∈ b.applicants, b.has i = true
  opened : ∀ i ∈ b.applicants, b.engine.outcome? i = none
  tasks : b.first + b.size = b.engine.tasks.length
  underWay : ∀ i t, b.has i = true → b.engine.tasks[i]? = some t → t.stage ≠ .preCheck →
    t.isFinished = false → i ∈ b.admitted

namespace Orderly

theorem present (h : b.Orderly) (hi : b.has i = true) : ∃ t, b.engine.tasks[i]? = some t := by
  have htasks := h.tasks
  simp only [has, Bool.and_eq_true, decide_eq_true_eq] at hi
  exact ⟨b.engine.tasks[i], List.getElem?_eq_getElem (by omega)⟩

theorem start (e : Engine) (rs : List PostingRequest) (permits : Nat) :
    (Batch.start e rs permits).Orderly where
  permits := Nat.le_max_right permits 1
  room := Nat.zero_le _
  full h := absurd rfl h
  nodup := List.nodup_nil
  member := by simp [applicants, Batch.start]
  opened := by simp [applicants, Batch.start]
  tasks := by simp [Batch.start, Engine.foldl_start]
  underWay := by
    intro i t hi htask hstage
    exact absurd (stage_start hi htask) hstage

theorem deliver (h : b.Orderly) (s : Surroundings) :
    Orderly { b with engine := b.engine.deliver s } where
  permits := h.permits
  room := h.room
  full := h.full
  nodup := h.nodup
  member := h.member
  opened i hi := by
    rw [Engine.outcome?, (b.engine.deliver_frame s).2]
    exact h.opened i hi
  tasks := h.tasks.trans (by rw [(b.engine.deliver_frame s).2])
  underWay i t hi htask := h.underWay i t hi (by rwa [← (b.engine.deliver_frame s).2])

theorem preCheck_of_asks (h : b.Orderly) (hasks : b.Asks i) :
    ∃ t, b.engine.tasks[i]? = some t ∧ t.stage = .preCheck := by
  obtain ⟨t, htask⟩ := h.present hasks.has
  refine ⟨t, htask, ?_⟩
  by_contra hstage
  exact hasks.admitted (h.underWay i t hasks.has htask hstage
    (Engine.isFinished_of_outcome? htask hasks.opened))

/-- A free permit is handed out at once, so nobody waits for one. -/
theorem queue_eq_nil (h : b.Orderly) (hroom : b.admitted.length < b.permits) : b.queue = [] := by
  by_contra hqueue
  exact absurd (h.full hqueue) (Nat.not_le_of_lt hroom)

theorem nodup_append (h : b.Orderly) (hasks : b.Asks i) : (b.applicants ++ [i]).Nodup := by
  have hnew : i ∉ b.applicants := List.not_mem_append hasks.admitted hasks.queue
  exact List.nodup_append_comm.1 (List.nodup_cons.2 ⟨hnew, h.nodup⟩)

theorem entered (h : b.Orderly) (hasks : b.Asks i) (hroom : b.admitted.length < b.permits) :
    Orderly { b with admitted := b.admitted ++ [i] } := by
  have hqueue := h.queue_eq_nil hroom
  have happlicants : applicants { b with admitted := b.admitted ++ [i] } = b.applicants ++ [i] := by
    simp [applicants, hqueue]
  constructor
  case permits => exact h.permits
  case room =>
    rw [List.length_append]
    exact hroom
  case full => exact fun hne => absurd hqueue hne
  case nodup => exact happlicants ▸ h.nodup_append hasks
  case member =>
    rw [happlicants, List.forall_mem_append, List.forall_mem_singleton]
    exact ⟨h.member, hasks.has⟩
  case opened =>
    rw [happlicants, List.forall_mem_append, List.forall_mem_singleton]
    exact ⟨h.opened, hasks.opened⟩
  case tasks => exact h.tasks
  case underWay =>
    intro j t hj htask hstage hopen
    exact List.mem_append_left _ (h.underWay j t hj htask hstage hopen)

theorem queued (h : b.Orderly) (hasks : b.Asks i) (hfull : b.permits ≤ b.admitted.length) :
    Orderly { b with queue := b.queue ++ [i] } := by
  have happlicants : applicants { b with queue := b.queue ++ [i] } = b.applicants ++ [i] :=
    (List.append_assoc ..).symm
  constructor
  case permits => exact h.permits
  case room => exact h.room
  case full => exact fun _ => hfull
  case nodup => exact happlicants ▸ h.nodup_append hasks
  case member =>
    rw [happlicants, List.forall_mem_append, List.forall_mem_singleton]
    exact ⟨h.member, hasks.has⟩
  case opened =>
    rw [happlicants, List.forall_mem_append, List.forall_mem_singleton]
    exact ⟨h.opened, hasks.opened⟩
  case tasks => exact h.tasks
  case underWay => exact h.underWay

theorem moved (h : b.Orderly) (hi : i ∈ b.admitted) {e : Engine}
    (hstep : b.engine.step s i = some e) (hopen : e.outcome? i = none) :
    Orderly { b with engine := e } := by
  obtain ⟨t, stage, -, -, htasks, -⟩ := Engine.step_handled hstep
  constructor
  case permits => exact h.permits
  case room => exact h.room
  case full => exact h.full
  case nodup => exact h.nodup
  case member => exact h.member
  case opened =>
    intro j hj
    by_cases hji : j = i
    · exact hji ▸ hopen
    · exact (Engine.outcome?_step_of_ne hstep hji).trans (h.opened j hj)
  case tasks => exact h.tasks.trans (by rw [htasks, List.length_modify])
  case underWay =>
    intro j t' hj htask
    by_cases hji : j = i
    · exact fun _ _ => hji ▸ hi
    · exact h.underWay j t' hj (Engine.getElem?_step_of_ne hstep hji ▸ htask)

theorem ended (h : b.Orderly) (hi : i ∈ b.admitted) {e : Engine}
    (hstep : b.engine.step s i = some e) (hended : e.outcome? i ≠ none) :
    ({ b with engine := e }.release i).Orderly := by
  obtain ⟨t, stage, -, -, htasks, -⟩ := Engine.step_handled hstep
  have happlicants : ({ b with engine := e }.release i).applicants = b.applicants.erase i :=
    applicants_release _ i hi
  have hengine : ({ b with engine := e }.release i).engine = e := engine_release _ i
  have hlength := length_admitted_release { b with engine := e } i hi
  constructor
  case permits => exact (permits_release _ i).symm ▸ h.permits
  case room =>
    rw [permits_release]
    exact Nat.le_trans (Nat.le_of_add_right_le (Nat.le_of_eq hlength)) h.room
  case full =>
    intro hqueue
    rw [queue_release] at hqueue
    have hwaiting : b.queue ≠ [] := fun hnone => hqueue (congrArg List.tail hnone)
    rw [if_neg hwaiting] at hlength
    rw [permits_release]
    exact (h.full hwaiting).trans_eq hlength.symm
  case nodup => exact happlicants ▸ h.nodup.erase i
  case member =>
    intro j hj
    rw [has_release]
    exact h.member j (List.mem_of_mem_erase (happlicants ▸ hj))
  case opened =>
    intro j hj
    rw [happlicants, h.nodup.mem_erase_iff] at hj
    rw [hengine]
    exact (Engine.outcome?_step_of_ne hstep hj.1).trans (h.opened j hj.2)
  case tasks =>
    rw [first_release, size_release, hengine, htasks, List.length_modify]
    exact h.tasks
  case underWay =>
    intro j t' hj htask hstage hopen
    rw [has_release] at hj
    rw [hengine] at htask
    by_cases hji : j = i
    · subst hji
      exact absurd (Engine.outcome?_of_open htask hopen) hended
    · rw [Engine.getElem?_step_of_ne hstep hji] at htask
      exact mem_admitted_release _ _ (h.underWay j t' hj htask hstage hopen) hji

theorem step (h : b.Orderly) (hstep : b.step s i = some b') : b'.Orderly := by
  cases step_stepped hstep with
  | entered hasks hroom => exact h.entered hasks hroom
  | queued hasks hfull => exact h.queued hasks hfull
  | moved hi hmove hopen => exact h.moved hi hmove hopen
  | ended hi hmove hended => exact h.ended hi hmove hended

theorem engine_step (h : b.Orderly) (hstep : b.step s i = some b') :
    b.has i = true ∧ (∀ j, b'.has j = b.has j) ∧
      (b'.engine = b.engine ∨ b.engine.step s i = some b'.engine) := by
  cases step_stepped hstep with
  | entered hasks _ => exact ⟨hasks.has, fun _ => rfl, .inl rfl⟩
  | queued hasks _ => exact ⟨hasks.has, fun _ => rfl, .inl rfl⟩
  | moved hi hmove _ => exact ⟨h.member i (List.mem_append_left _ hi), fun _ => rfl, .inr hmove⟩
  | @ended hi e hmove _ =>
    have hengine : ({ b with engine := e }.release i).engine = e := engine_release _ i
    exact ⟨h.member i (List.mem_append_left _ hi), has_release _ i, .inr (hengine.symm ▸ hmove)⟩

/-- What every step of an orderly batch and every turn of the notifier keeps, a run keeps. -/
theorem invariant (h : b.Orderly) {I : Batch → Prop}
    (hstep : ∀ {s : Surroundings} {i : Nat} {b b' : Batch}, P s → b.Orderly →
      b.step s i = some b' → I b → I b')
    (hdeliver : ∀ (s : Surroundings) {b : Batch}, I b →
      I { b with engine := b.engine.deliver s }) (hgoes : b.Goes P n b') (hb : I b) : I b' := by
  induction hgoes with
  | refl b => exact hb
  | step hs hmove _ ih => exact ih (h.step hmove) (hstep hs h hmove hb)
  | deliver s _ ih => exact ih (h.deliver s) (hdeliver s hb)

theorem goes (h : b.Orderly) (hgoes : b.Goes P n b') : b'.Orderly :=
  h.invariant (fun _ _ hstep h => h.step hstep) (fun s _ h => h.deliver s) hgoes h

end Orderly

def left (b : Batch) (i : Nat) : Nat :=
  match b.engine.tasks[i]? with
  | none => 0
  | some t => t.stage.remaining + if t.stage = .preCheck ∧ i ∉ b.applicants then 1 else 0

/-- How many steps are left to the tasks of a batch, at most. -/
def stepsLeft (b : Batch) : Nat := (b.members.map b.left).sum

theorem left_of_applicant (htask : b.engine.tasks[i]? = some t) (hi : i ∈ b.applicants) :
    b.left i = t.stage.remaining := by
  simp [left, htask, hi]

theorem left_of_ne_preCheck (htask : b.engine.tasks[i]? = some t) (hstage : t.stage ≠ .preCheck) :
    b.left i = t.stage.remaining := by
  simp [left, htask, hstage]

theorem left_congr (htask : b'.engine.tasks[i]? = b.engine.tasks[i]?)
    (hmem : i ∈ b'.applicants ↔ i ∈ b.applicants) : b'.left i = b.left i := by
  simp [left, htask, hmem]

theorem left_le (b : Batch) (i : Nat) : b.left i ≤ 8 := by
  unfold left
  split
  · omega
  · next t _ =>
    have hle := t.stage.remaining_le
    split <;> omega

theorem stepsLeft_le (b : Batch) : b.stepsLeft ≤ 8 * b.size := by
  have hsum := List.sum_le_card_nsmul (b.members.map b.left) 8
    (List.forall_mem_map.2 fun i _ => b.left_le i)
  rw [List.length_map, members, List.length_range'] at hsum
  exact hsum.trans_eq (Nat.mul_comm b.size 8)

theorem mem_members : i ∈ b.members ↔ b.has i = true := by
  simp [members, has, List.mem_range'_1]

theorem left_asks (h : b.Orderly) (hasks : b.Asks i) (htasks : b'.engine = b.engine)
    (happlicants : b'.applicants = b.applicants ++ [i]) :
    b'.left i < b.left i ∧ ∀ j ≠ i, b'.left j = b.left j := by
  obtain ⟨t, htask, hstage⟩ := h.preCheck_of_asks hasks
  have hnew : i ∉ b.applicants := List.not_mem_append hasks.admitted hasks.queue
  constructor
  · have hnow : b'.left i = t.stage.remaining :=
      left_of_applicant (htasks ▸ htask) (by simp [happlicants])
    rw [hnow, left, htask]
    simp [hstage, hnew]
  · intro j hj
    exact left_congr (by rw [htasks]) (by simp [happlicants, hj])

theorem left_engine (hi : i ∈ b.admitted) (hstep : b.engine.step s i = some b'.engine)
    (happlicants : ∀ j ≠ i, j ∈ b'.applicants ↔ j ∈ b.applicants) :
    b'.left i < b.left i ∧ ∀ j ≠ i, b'.left j = b.left j := by
  obtain ⟨t, stage, htask, hless, htasks, -⟩ := Engine.step_handled hstep
  constructor
  · have hnow : b'.engine.tasks[i]? = some { t with stage } := by
      rw [Engine.getElem?_modify_stage htask htasks, if_pos rfl]
    have hstarted : stage ≠ .preCheck := by
      rintro rfl
      exact absurd t.stage.remaining_le (Nat.not_le_of_lt hless)
    rw [left_of_ne_preCheck hnow hstarted,
      left_of_applicant htask (List.mem_append_left _ hi)]
    exact hless
  · intro j hj
    exact left_congr (Engine.getElem?_step_of_ne hstep hj) (happlicants j hj)

namespace Orderly

/-- A step is a member's, who has fewer steps left then; nobody else has more or fewer, also where
another gets its permit. -/
theorem left_step (h : b.Orderly) (hstep : b.step s i = some b') :
    b'.members = b.members ∧ b.has i = true ∧ b'.left i < b.left i ∧
      ∀ j ≠ i, b'.left j = b.left j := by
  cases step_stepped hstep with
  | entered hasks hroom =>
    refine ⟨rfl, hasks.has, left_asks h hasks rfl ?_⟩
    simp [applicants, h.queue_eq_nil hroom]
  | queued hasks hfull =>
    exact ⟨rfl, hasks.has, left_asks h hasks rfl (List.append_assoc ..).symm⟩
  | moved hi hmove hopen =>
    exact ⟨rfl, h.member i (List.mem_append_left _ hi),
      left_engine hi hmove fun j _ => Iff.rfl⟩
  | @ended hi e hmove hended =>
    have hengine : ({ b with engine := e }.release i).engine = e := engine_release _ i
    have happlicants : ({ b with engine := e }.release i).applicants = b.applicants.erase i :=
      applicants_release _ i hi
    refine ⟨by simp [members], h.member i (List.mem_append_left _ hi),
      left_engine hi (hengine.symm ▸ hmove) fun j hj => ?_⟩
    rw [happlicants]
    exact List.mem_erase_of_ne hj

theorem stepsLeft_step (h : b.Orderly) (hstep : b.step s i = some b') :
    b'.stepsLeft < b.stepsLeft := by
  obtain ⟨hmembers, hi, hless, hsame⟩ := h.left_step hstep
  unfold stepsLeft
  rw [hmembers]
  refine List.sum_lt_sum _ _ (fun j _ => ?_) ⟨i, mem_members.2 hi, hless⟩
  by_cases hj : j = i
  · exact hj ▸ hless.le
  · exact (hsame j hj).le

theorem stepsLeft_deliver (b : Batch) (s : Surroundings) :
    stepsLeft { b with engine := b.engine.deliver s } = b.stepsLeft := by
  have hleft (j : Nat) : left { b with engine := b.engine.deliver s } j = b.left j :=
    left_congr (by rw [(b.engine.deliver_frame s).2]) Iff.rfl
  exact congrArg List.sum (List.map_congr_left fun j _ => hleft j)

/-- A run of a batch takes eight steps for each request at most. -/
theorem goes_le (h : b.Orderly) (hgoes : b.Goes P n b') : n + b'.stepsLeft ≤ b.stepsLeft := by
  induction hgoes with
  | refl b => exact Nat.le_of_eq (Nat.zero_add _)
  | step _ hstep _ ih =>
    have hless := h.stepsLeft_step hstep
    have hrest := ih (h.step hstep)
    omega
  | deliver s _ ih =>
    have hrest := ih (h.deliver s)
    rwa [stepsLeft_deliver] at hrest

end Orderly

end Batch

end Bookkeeping
