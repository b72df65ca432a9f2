import Mathlib.Data.Fintype.Order
import Mathlib.Logic.Relation
import Bookkeeping.Proofs.Engine.Hall

/-! Who waits for whom. A task waits for its second lock only while it holds its first, the lesser
one, so that the accounts ascend along any chain of tasks that wait for each other; where no task
can go on the chain ends at a visitor, and without visitors all tasks come to their end. -/
namespace Bookkeeping

/-- What holds of an account whose lock is held if it holds of all greater ones holds of them all:
the accounts whose locks are registered cannot ascend for ever. -/
@[elab_as_elim] theorem Locks.Kept.ascending {ω : Type} {ls : Locks ω} {asked : ω → List String}
    (h : ls.Kept asked) {motive : String → Prop}
    (hstep : ∀ a w, ls.holder a = some w →
      (∀ b v, ls.holder b = some v → a < b → motive b) → motive a)
    {a : String} {w : ω} (hw : ls.holder a = some w) : motive a := by
  have hfinite : Finite { a // a ∈ ls.accounts } := List.finite_toSet _
  have hregistered {a : String} {w : ω} (hw : ls.holder a = some w) : a ∈ ls.accounts :=
    mem_accounts_of_mem_line ((h.mem_iff a w).2 (h.asked_of_holder hw))
  suffices ∀ a : { a // a ∈ ls.accounts }, ∀ w, ls.holder a = some w → motive a from
    this ⟨a, hregistered hw⟩ w hw
  intro a
  induction a using WellFoundedGT.induction with
  | ind a ih =>
    intro w hw
    exact hstep a w hw fun b v hv hlt => ih ⟨b, hregistered hv⟩ hlt v hv

namespace Task

variable {t : Task} {a b : String}

theorem asked_of_awaited (h : t.awaited? = some a) : a ∈ t.asked := by
  unfold awaited? at h
  unfold asked
  cases hstage : t.stage <;> simp_all [accounts]

/-- What a task waits for is greater than all else that it has asked for. -/
theorem lt_awaited (ha : a ∈ t.asked) (hb : t.awaited? = some b) (hne : a ≠ b) : a < b := by
  unfold asked at ha
  unfold awaited? at hb
  cases hstage : t.stage with
  | awaitingFirst => simp_all
  | awaitingSecond =>
    simp only [hstage] at ha hb
    simp only [accounts, hb, Option.toList_some, List.mem_cons, List.not_mem_nil, or_false] at ha
    cases ha with
    | inl ha => exact ha ▸ firstAccount_lt hb
    | inr ha => exact absurd ha hne
  | _ => simp [hstage] at hb

end Task

namespace Engine

variable {s : Surroundings} {e e' e'' : Engine} {i n : Nat} {t : Task} {a b : String}

/-- The lock of `a` is held by a task that waits for the lock of `b`. -/
def LeadsTo (e : Engine) (a b : String) : Prop :=
  ∃ j t, e.locks.holder a = some (.task j) ∧ e.tasks[j]? = some t ∧ t.awaited? = some b

theorem awaited_of_stuck (htask : e.tasks[i]? = some t) (hopen : t.isFinished = false)
    (hstuck : e.step s i = none) :
    ∃ a, t.awaited? = some a ∧ e.locks.isHeldBy a (.task i) = false := by
  cases hstage : t.stage with
  | finished outcome => simp [Task.isFinished, hstage] at hopen
  | preCheck =>
    simp only [step, htask, hstage] at hstuck
    split at hstuck
    · cases hstuck
    · split at hstuck <;> cases hstuck
  | validation =>
    simp only [step, htask, hstage] at hstuck
    split at hstuck <;> cases hstuck
  | firstLock => simp [step, htask, hstage] at hstuck
  | awaitingFirst =>
    simp only [step, htask, hstage] at hstuck
    split at hstuck
    · cases hstuck
    · next hheld => exact ⟨t.firstAccount, by simp [Task.awaited?, hstage], by simpa using hheld⟩
  | secondLock => cases hsecond : t.secondAccount? <;> simp [step, htask, hstage, hsecond] at hstuck
  | awaitingSecond =>
    cases hsecond : t.secondAccount? with
    | none => simp [step, htask, hstage, hsecond] at hstuck
    | some account =>
      simp only [step, htask, hstage, hsecond] at hstuck
      split at hstuck
      · cases hstuck
      · next hheld =>
        exact ⟨account, by simp [Task.awaited?, hstage, hsecond], by simpa using hheld⟩
  | saving => simp [step, htask, hstage] at hstuck

def stepsLeft : List Task → Nat
  | [] => 0
  | t :: ts => t.stage.remaining + stepsLeft ts

theorem stepsLeft_le (ts : List Task) : stepsLeft ts ≤ 7 * ts.length := by
  induction ts with
  | nil => simp [stepsLeft]
  | cons t ts ih =>
    have := t.stage.remaining_le
    simp only [stepsLeft, List.length_cons]
    omega

theorem stepsLeft_modify {ts : List Task} {stage : Stage} (htask : ts[i]? = some t)
    (hless : stage.remaining < t.stage.remaining) :
    stepsLeft (ts.modify i fun t => { t with stage }) < stepsLeft ts := by
  induction ts generalizing i with
  | nil => simp at htask
  | cons t' ts ih =>
    cases i with
    | zero =>
      simp only [List.getElem?_cons_zero, Option.some.injEq] at htask
      simp only [List.modify_zero_cons, stepsLeft, htask]
      omega
    | succ i =>
      have := ih (by simpa using htask)
      simp only [List.modify_succ_cons, stepsLeft]
      omega

/-- So many times a task takes a step, or is cancelled before it has ended. -/
inductive GoesOn : Nat → Engine → Engine → Prop where
  | refl (e : Engine) : GoesOn 0 e e
  | step {n i : Nat} {s : Surroundings} {e e' e'' : Engine} (h : e.step s i = some e')
    (hrest : GoesOn n e' e'') : GoesOn (n + 1) e e''
  | cancel {n i : Nat} {t : Task} {e e' : Engine} (htask : e.tasks[i]? = some t)
    (hopen : t.isFinished = false) (hrest : GoesOn n (e.cancel i) e') : GoesOn (n + 1) e e'

theorem GoesOn.stepsLeft_le (h : GoesOn n e e') :
    n + stepsLeft e'.tasks ≤ stepsLeft e.tasks := by
  induction h with
  | refl e => omega
  | step hstep _ ih =>
    obtain ⟨t, stage, htask, hless, htasks, -⟩ := step_handled hstep
    have := stepsLeft_modify htask hless
    rw [← htasks] at this
    omega
  | @cancel n i t e e' htask hopen _ ih =>
    have hcancel : e.cancel i = e.finish i t .cancelled := by simp [Engine.cancel, htask, hopen]
    have hless : (Stage.finished .cancelled).remaining < t.stage.remaining := by
      cases hstage : t.stage with
      | finished outcome => simp [Task.isFinished, hstage] at hopen
      | _ => simp [Stage.remaining]
    have := stepsLeft_modify htask hless
    rw [← tasks_finish e i t .cancelled, ← hcancel] at this
    omega

end Engine

namespace Hall

open Engine (GoesOn)

variable {h : Hall} {e e' : Engine} {vs : List Visitor} {s : Surroundings} {a b : String} {n : Nat}

theorem Reachable.goesOn (hgoes : GoesOn n e e') (hr : Reachable ⟨e, vs⟩) :
    Reachable ⟨e', vs⟩ := by
  induction hgoes with
  | refl e => exact hr
  | @step n i s e e' e'' hstep _ ih =>
    exact ih (Engine.move_of_step hstep ▸ hr.step (.move (.step s i)))
  | @cancel n i t e e' _ _ _ ih => exact ih (hr.step (.move (.cancel i)))

theorem Kept.leadsTo (hkept : h.Kept) (hstuck : ∀ i, h.engine.step s i = none) {w : Owner}
    (hw : h.engine.locks.holder a = some w) :
    (∃ n, w = .guard n) ∨ ∃ b, a < b ∧ h.engine.LeadsTo a b := by
  cases w with
  | guard n => exact .inl ⟨n, rfl⟩
  | task j =>
    obtain ⟨t, htask, hopen, hasked, -⟩ := wants_of_asked (Locks.Kept.asked_of_holder hkept hw)
    obtain ⟨b, hb, hheld⟩ := Engine.awaited_of_stuck htask hopen (hstuck j)
    have hne : a ≠ b := by
      rintro rfl
      simp [Locks.isHeldBy, hw] at hheld
    exact .inr ⟨b, Task.lt_awaited hasked hb hne, j, t, hw, htask, hb⟩

/-- From any lock that is held the chain of those who wait for each other ascends to a visitor. -/
theorem Kept.chain (hkept : h.Kept) (hstuck : ∀ i, h.engine.step s i = none) {w : Owner}
    (hw : h.engine.locks.holder a = some w) :
    ∃ b n, Relation.ReflTransGen (fun x y => x < y ∧ h.engine.LeadsTo x y) a b ∧
      h.engine.locks.holder b = some (.guard n) := by
  refine Locks.Kept.ascending hkept (fun a w hw ih => ?_) hw
  obtain ⟨n, rfl⟩ | ⟨b, hlt, hleads⟩ := hkept.leadsTo hstuck hw
  · exact ⟨a, n, .refl, hw⟩
  · have ⟨j, t, _, htask, hb⟩ := hleads
    have hasked : b ∈ h.asked (.task j) := asked_task htask ▸ Task.asked_of_awaited hb
    obtain ⟨v, hv⟩ := Locks.Kept.holder_isSome hkept hasked
    obtain ⟨c, n, hchain, hc⟩ := ih b v hv hlt
    exact ⟨c, n, .head ⟨hlt, hleads⟩ hchain, hc⟩

theorem Kept.waits (hkept : h.Kept) (hstuck : ∀ i, h.engine.step s i = none) {i : Nat} {t : Task}
    (htask : h.engine.tasks[i]? = some t) (hopen : t.isFinished = false) :
    ∃ a w, t.awaited? = some a ∧ h.engine.locks.holder a = some w ∧
      ∃ b n, Relation.ReflTransGen (fun x y => x < y ∧ h.engine.LeadsTo x y) a b ∧
        h.engine.locks.holder b = some (.guard n) := by
  obtain ⟨a, ha, -⟩ := Engine.awaited_of_stuck htask hopen (hstuck i)
  have hasked : a ∈ h.asked (.task i) := asked_task htask ▸ Task.asked_of_awaited ha
  obtain ⟨w, hw⟩ := Locks.Kept.holder_isSome hkept hasked
  exact ⟨a, w, ha, hw, hkept.chain hstuck hw⟩

theorem Kept.step_isSome (hkept : h.Kept) (s : Surroundings)
    (hfree : ∀ a n, h.engine.locks.holder a ≠ some (.guard n))
    (hopen : ∃ t ∈ h.engine.tasks, t.isFinished = false) :
    ∃ i, (h.engine.step s i).isSome = true := by
  by_contra hnone
  have hstuck (i : Nat) : h.engine.step s i = none :=
    Option.not_isSome_iff_eq_none.1 fun hsome => hnone ⟨i, hsome⟩
  obtain ⟨t, ht, hopen⟩ := hopen
  obtain ⟨i, htask⟩ := List.mem_iff_getElem?.1 ht
  obtain ⟨a, w, -, -, b, n, -, hb⟩ := hkept.waits hstuck htask hopen
  exact hfree b n hb

theorem Kept.holder_ne_guard (hkept : h.Kept) (hvisitors : ∀ v ∈ h.visitors, v.asked = [])
    (a : String) (n : Nat) : h.engine.locks.holder a ≠ some (.guard n) := by
  intro hheld
  have hasked := Locks.Kept.asked_of_holder hkept hheld
  cases hv : h.visitors[n]? with
  | none => simp [asked, hv] at hasked
  | some v =>
    rw [asked_guard hv, hvisitors v (List.mem_of_getElem? hv)] at hasked
    cases hasked

/-- Where no task can go on, each that has not ended waits for a lock that is held, and from holder
to awaited account the accounts ascend to one that a visitor holds. So without visitors some task
can always go on until all have ended, and they end after seven steps each at most. -/
theorem waiting_ends_at_visitors (hr : h.Reachable) (s : Surroundings) :
    ((∀ i, h.engine.step s i = none) →
      ∀ (i : Nat) (t : Task), h.engine.tasks[i]? = some t → t.isFinished = false →
        ∃ a w, t.awaited? = some a ∧ h.engine.locks.holder a = some w ∧
          ∃ b n, Relation.ReflTransGen (fun x y => x < y ∧ h.engine.LeadsTo x y) a b ∧
            h.engine.locks.holder b = some (.guard n)) ∧
      ((∀ a n, h.engine.locks.holder a ≠ some (.guard n)) →
        (∃ t ∈ h.engine.tasks, t.isFinished = false) →
        ∃ i, (h.engine.step s i).isSome = true) ∧
      ((∀ v ∈ h.visitors, v.asked = []) → ∀ n e, GoesOn n h.engine e →
        n ≤ 7 * h.engine.tasks.length ∧
          ((∀ i, e.step s i = none) → ∀ t ∈ e.tasks, t.isFinished = true)) := by
  refine ⟨fun hstuck i t htask hopen => hr.kept.waits hstuck htask hopen,
    hr.kept.step_isSome s, fun hvisitors n e hgoes => ⟨?_, fun hstuck t ht => ?_⟩⟩
  · have hleft := hgoes.stepsLeft_le
    have hbound := Engine.stepsLeft_le h.engine.tasks
    omega
  · have hkept : Kept ⟨e, h.visitors⟩ := (hr.goesOn hgoes).kept
    by_contra hopen
    obtain ⟨i, hsome⟩ := hkept.step_isSome s (hkept.holder_ne_guard hvisitors)
      ⟨t, ht, by simpa using hopen⟩
    simp [hstuck i] at hsome

/-- A visitor holds `c`, a task holds `b` and waits for `c`, one holds `a` and waits for `b`, and
one waits for `a`. -/
def standoff : List Event :=
  let start (a b : String) : Event := .move (.start ⟨a, b, .ofWord false 5, "k"⟩)
  let steps (n i : Nat) : List Event := List.replicate n (.move (.step Engine.calm i))
  [.acquire "c", .ask 0, start "b" "c", start "b" "a", start "a" "c"] ++
    steps 6 0 ++ steps 6 1 ++ steps 4 2

theorem waiting_ends_at_visitors_standoff :
    Reachable ((Hall.mk (Engine.inMemory .absent) []).after standoff) ∧
      ∃ b n, Relation.ReflTransGen (fun x y => x < y ∧
          ((Hall.mk (Engine.inMemory .absent) []).after standoff).engine.LeadsTo x y) "a" b ∧
        ((Hall.mk (Engine.inMemory .absent) []).after standoff).engine.locks.holder b =
          some (.guard n) := by
  have hr : Reachable ((Hall.mk (Engine.inMemory .absent) []).after standoff) :=
    (Reachable.start (Engine.Fresh.inMemory .absent).idle).after standoff
  have hstuck : ∀ i, ((Hall.mk (Engine.inMemory .absent) []).after standoff).engine.step
      Engine.calm i = none := by
    intro i
    match i with
    | 0 => decide +kernel
    | 1 => decide +kernel
    | 2 => decide +kernel
    | i + 3 => rfl
  obtain ⟨a, w, ha, -, hchain⟩ := (waiting_ends_at_visitors hr Engine.calm).1 hstuck 2
    ⟨⟨"a", "c", .ofWord false 5, "k"⟩, .awaitingFirst⟩ (by decide +kernel) rfl
  have : a = "a" := by
    have hfirst : Task.awaited? ⟨⟨"a", "c", .ofWord false 5, "k"⟩, .awaitingFirst⟩ = some "a" := by
      decide +kernel
    rw [hfirst, Option.some.injEq] at ha
    exact ha.symm
  exact ⟨hr, this ▸ hchain⟩

end Hall

end Bookkeeping
