import Bookkeeping.Proofs.Engine.Locking

/-! Postings and visitors at the locks of one engine. A visitor from outside takes the lock of an
account, or the locks of a pair in ascending order, and keeps them until it goes. The invariant is
that in the line at each lock stand those that have asked for it and are still there, each of them
once; so nobody who has ended holds a lock. -/
namespace Bookkeeping

theorem nodup_lockOrder (a b : String) : (lockOrder a b).Nodup := by
  unfold lockOrder
  split
  · simp
  · next hne => split <;> simp [hne, Ne.symm hne]

/-- Somebody from outside who takes the locks of accounts one after the other. -/
structure Visitor where
  /-- The accounts in the order in which their locks are taken. -/
  accounts : List String
  nodup : accounts.Nodup
  /-- How many of them were asked for. -/
  count : Nat := 0
  /-- The visitor has given up all its locks, or what it waited for. -/
  gone : Bool := false

namespace Visitor

def ofAccount (account : String) : Visitor := ⟨[account], List.nodup_singleton account, 0, false⟩

def ofPair (a b : String) : Visitor := ⟨lockOrder a b, nodup_lockOrder a b, 0, false⟩

def asked (v : Visitor) : List String := if v.gone then [] else v.accounts.take v.count

def next? (v : Visitor) : Option String := if v.gone then none else v.accounts[v.count]?

def askedNext (v : Visitor) : Visitor := { v with count := v.count + 1 }

def leave (v : Visitor) : Visitor := { v with gone := true }

variable {v : Visitor} {a : String}

@[simp] theorem asked_leave : v.leave.asked = [] := rfl

theorem asked_askedNext (h : v.next? = some a) : v.askedNext.asked = v.asked ++ [a] := by
  unfold next? at h
  unfold asked askedNext
  cases hgone : v.gone with
  | true => simp [hgone] at h
  | false =>
    rw [hgone, if_neg Bool.false_ne_true] at h
    simp [List.take_add_one, h]

theorem next?_notMem (h : v.next? = some a) : a ∉ v.asked := by
  have hnodup : (v.asked ++ [a]).Nodup := by
    rw [← asked_askedNext h]
    unfold asked
    split
    · exact List.nodup_nil
    · exact v.nodup.sublist (List.take_sublist ..)
  intro hmem
  exact (List.nodup_append.1 hnodup).2.2 a hmem a (by simp) rfl

end Visitor

/-- An engine with those who come to its locks from outside. -/
structure Hall where
  engine : Engine
  visitors : List Visitor := []

namespace Engine

def Move.isOfGuard : Move → Bool
  | .ask _ _ | .leave _ _ => true
  | _ => false

/-- Nobody has come to the engine yet, whatever its book holds. -/
structure Idle (e : Engine) : Prop where
  tasks : e.tasks = []
  locks : e.locks = {}

theorem Fresh.idle {e : Engine} (h : Fresh e) : e.Idle := by
  refine ⟨h.empty.1, ?_⟩
  cases h with
  | inMemory notifier => rfl
  | onJournal hopen =>
    rw [onJournal_nil, Except.ok.injEq] at hopen
    exact hopen ▸ rfl

end Engine

namespace Hall

inductive Event where
  /-- A move that is no visitor's. -/
  | move (m : Engine.Move)
  | acquire (account : String)
  | acquirePair (a b : String)
  /-- A visitor that holds all it asked for asks for the next lock. -/
  | ask (n : Nat)
  /-- A visitor goes, with its locks or while it waits for one. -/
  | drop (n : Nat)

def ask (h : Hall) (n : Nat) : Hall :=
  match h.visitors[n]? with
  | none => h
  | some v =>
    match v.next? with
    | none => h
    | some account =>
      if v.asked.all (h.engine.locks.isHeldBy · (.guard n)) then
        { engine := h.engine.move (.ask n account)
          visitors := h.visitors.modify n Visitor.askedNext }
      else h

def drop (h : Hall) (n : Nat) : Hall :=
  match h.visitors[n]? with
  | none => h
  | some v =>
    { engine := v.asked.foldl (fun e account => e.move (.leave n account)) h.engine
      visitors := h.visitors.modify n Visitor.leave }

def step (h : Hall) : Event → Hall
  | .move m => if m.isOfGuard then h else { h with engine := h.engine.move m }
  | .acquire account => { h with visitors := h.visitors ++ [.ofAccount account] }
  | .acquirePair a b => { h with visitors := h.visitors ++ [.ofPair a b] }
  | .ask n => h.ask n
  | .drop n => h.drop n

def after (h : Hall) (events : List Event) : Hall := events.foldl step h

/-- The states in which an engine, and those who come to it, can be. -/
inductive Reachable : Hall → Prop where
  | start {e : Engine} (h : e.Idle) : Reachable ⟨e, []⟩
  | step {h : Hall} (hr : Reachable h) (event : Event) : Reachable (h.step event)

theorem Reachable.after {h : Hall} (hr : Reachable h) (events : List Event) :
    Reachable (h.after events) := by
  induction events generalizing h with
  | nil => exact hr
  | cons event events ih => exact ih (hr.step event)

/-- The accounts whose locks somebody has asked for and not given up. -/
def asked (h : Hall) : Owner → List String
  | .task i => ((h.engine.tasks[i]?).map (·.asked)).getD []
  | .guard n => ((h.visitors[n]?).map (·.asked)).getD []

/-- In the lines at the locks stand those that have asked and are still there. -/
def Kept (h : Hall) : Prop := h.engine.locks.Kept h.asked

end Hall

namespace Engine

/-- What a move that is no visitor's makes of the tasks and of the locks. -/
inductive LocksMoved (e : Engine) : Engine → Prop where
  | still {e' : Engine} (htasks : e'.tasks = e.tasks) (hlocks : e'.locks = e.locks) :
    LocksMoved e e'
  | started (r : PostingRequest) : LocksMoved e (e.start r)
  | handled {i : Nat} {t : Task} {stage : Stage} {e' : Engine} (htask : e.tasks[i]? = some t)
    (htasks : e'.tasks = e.tasks.modify i fun t => { t with stage })
    (h : Handled e.locks i t stage e'.locks) : LocksMoved e e'

theorem cancel_locksMoved (e : Engine) (i : Nat) : LocksMoved e (e.cancel i) := by
  unfold cancel
  cases htask : e.tasks[i]? with
  | none => exact .still rfl rfl
  | some t =>
    simp only
    split
    · exact .still rfl rfl
    · exact .handled htask (tasks_finish ..) (locks_finish e i t .cancelled ▸ .ended _)

theorem move_locksMoved (e : Engine) {m : Move} (hm : m.isOfGuard = false) :
    LocksMoved e (e.move m) := by
  cases m with
  | start r => exact .started r
  | step s i =>
    cases hstep : e.step s i with
    | none =>
      rw [move_of_stuck hstep]
      exact .still rfl rfl
    | some e' =>
      obtain ⟨t, stage, htask, -, htasks, h⟩ := step_handled hstep
      rw [move_of_step hstep]
      exact .handled htask htasks h
  | cancel i => exact e.cancel_locksMoved i
  | ask serial account => cases hm
  | leave serial account => cases hm
  | deliver s => exact .still (e.deliver_frame s).2 (locks_deliver e s)
  | withdraw turn => exact .still rfl rfl
  | report event => exact .still rfl rfl
  | stopNotifier =>
    unfold move
    cases e.notifier <;> exact .still (by simp) (by simp)

end Engine

namespace Hall

variable {h : Hall} {e e' : Engine} {vs : List Visitor} {i n : Nat} {t : Task} {v : Visitor}

theorem getD_asked_append {α : Type} {f : α → List String} {a : α} (ha : f a = []) (as : List α)
    (j : Nat) : (((as ++ [a])[j]?).map f).getD [] = ((as[j]?).map f).getD [] := by
  by_cases hlt : j < as.length
  · rw [List.getElem?_append_left hlt]
  · rw [List.getElem?_append_right (Nat.le_of_not_lt hlt),
      List.getElem?_eq_none (Nat.le_of_not_lt hlt)]
    cases j - as.length <;> simp [ha]

theorem asked_task (htask : h.engine.tasks[i]? = some t) : h.asked (.task i) = t.asked := by
  rw [asked, htask]
  rfl

theorem asked_guard (hv : h.visitors[n]? = some v) : h.asked (.guard n) = v.asked := by
  rw [asked, hv]
  rfl

theorem asked_modify_stage {stage : Stage} (htask : e.tasks[i]? = some t)
    (htasks : e'.tasks = e.tasks.modify i fun t => { t with stage }) (w : Owner) :
    (⟨e', vs⟩ : Hall).asked w =
      if w = .task i then ({ t with stage } : Task).asked else (⟨e, vs⟩ : Hall).asked w := by
  cases w with
  | guard n => rfl
  | task j =>
    rw [asked, Engine.getElem?_modify_stage htask htasks]
    by_cases hj : j = i
    · simp [hj]
    · simp [hj, asked]

theorem asked_modify_visitor {f : Visitor → Visitor} (hv : vs[n]? = some v)
    (htasks : e'.tasks = e.tasks) (w : Owner) :
    (⟨e', vs.modify n f⟩ : Hall).asked w =
      if w = .guard n then (f v).asked else (⟨e, vs⟩ : Hall).asked w := by
  cases w with
  | task j => simp [asked, htasks]
  | guard m =>
    by_cases hm : m = n
    · subst hm
      simp [asked, hv]
    · simp [asked, hm, Ne.symm hm]

theorem kept_idle (hidle : e.Idle) : Kept ⟨e, []⟩ := by
  have hnobody : (⟨e, []⟩ : Hall).asked = fun _ => [] := by
    funext w
    cases w <;> simp [asked, hidle.tasks]
  rw [Kept, hnobody, hidle.locks]
  exact Locks.kept_empty

theorem Kept.congr {h' : Hall} (h : Kept h') {h'' : Hall}
    (hlocks : h''.engine.locks = h'.engine.locks) (hasked : ∀ w, h''.asked w = h'.asked w) :
    Kept h'' := by
  unfold Kept
  rw [hlocks, funext hasked]
  exact h

theorem Kept.handled {stage : Stage} (h : Kept ⟨e, vs⟩) (htask : e.tasks[i]? = some t)
    (htasks : e'.tasks = e.tasks.modify i fun t => { t with stage })
    (hhandled : Handled e.locks i t stage e'.locks) : Kept ⟨e', vs⟩ :=
  Locks.Kept.handled h (asked_task htask) (asked_modify_stage htask htasks) hhandled

theorem Kept.move (h : Kept ⟨e, vs⟩) {m : Engine.Move} (hm : m.isOfGuard = false) :
    Kept ⟨e.move m, vs⟩ := by
  have hmoved := e.move_locksMoved hm
  generalize e.move m = e' at hmoved
  cases hmoved with
  | still htasks hlocks =>
    refine h.congr hlocks fun w => ?_
    cases w <;> simp [asked, htasks]
  | started r =>
    refine h.congr rfl fun w => ?_
    cases w with
    | guard n => rfl
    | task j => exact getD_asked_append rfl e.tasks j
  | handled htask htasks hhandled => exact h.handled htask htasks hhandled

theorem Kept.arrive (h : Kept ⟨e, vs⟩) (hv : v.asked = []) : Kept ⟨e, vs ++ [v]⟩ := by
  refine h.congr rfl fun w => ?_
  cases w with
  | task j => rfl
  | guard n => exact getD_asked_append hv vs n

theorem Kept.ask (h : Kept ⟨e, vs⟩) (n : Nat) : Kept (Hall.ask ⟨e, vs⟩ n) := by
  unfold Hall.ask
  cases hv : vs[n]? with
  | none => exact h
  | some v =>
    simp only
    cases hnext : v.next? with
    | none => exact h
    | some account =>
      simp only
      split
      · have hnow : (⟨e, vs⟩ : Hall).asked (.guard n) = v.asked := asked_guard hv
        refine Locks.Kept.request h (hnow ▸ Visitor.next?_notMem hnext) fun w b => ?_
        have htasks : (e.move (.ask n account)).tasks = e.tasks := rfl
        rw [asked_modify_visitor hv htasks]
        split
        · next hw => rw [hw, hnow, Visitor.asked_askedNext hnext]; simp
        · next hw => simp [hw]
      · exact h

theorem leaves_frame (n : Nat) (accounts : List String) (e : Engine) :
    (accounts.foldl (fun e account => e.move (.leave n account)) e).tasks = e.tasks ∧
      (accounts.foldl (fun e account => e.move (.leave n account)) e).locks =
        accounts.foldl (fun ls account => ls.leave account (.guard n)) e.locks := by
  induction accounts generalizing e with
  | nil => exact ⟨rfl, rfl⟩
  | cons account accounts ih =>
    obtain ⟨htasks, hlocks⟩ := ih (e.move (.leave n account))
    refine ⟨htasks.trans (Engine.tasks_leaveLock ..), hlocks.trans ?_⟩
    rw [Engine.move, Engine.locks_leaveLock, List.foldl_cons]

theorem Kept.drop (h : Kept ⟨e, vs⟩) (n : Nat) : Kept (Hall.drop ⟨e, vs⟩ n) := by
  unfold Hall.drop
  cases hv : vs[n]? with
  | none => exact h
  | some v =>
    have hnow : (⟨e, vs⟩ : Hall).asked (.guard n) = v.asked := asked_guard hv
    obtain ⟨htasks, hlocks⟩ := leaves_frame n v.asked e
    unfold Kept
    rw [hlocks]
    refine Locks.Kept.leaveAll h fun w b => ?_
    rw [asked_modify_visitor hv htasks]
    split
    · next hw => simp [hw, hnow]
    · next hw => simp [hw]

theorem Kept.step (h : Kept ⟨e, vs⟩) (event : Event) : Kept (Hall.step ⟨e, vs⟩ event) := by
  cases event with
  | move m =>
    cases hm : m.isOfGuard with
    | true => simpa [Hall.step, hm] using h
    | false => simpa [Hall.step, hm] using h.move hm
  | acquire account => exact h.arrive rfl
  | acquirePair a b => exact h.arrive rfl
  | ask n => exact h.ask n
  | drop n => exact h.drop n

theorem step_turned (h : Hall) (event : Event) :
    h.engine.locks.Turned (h.step event).engine.locks := by
  obtain ⟨e, vs⟩ := h
  cases event with
  | move m =>
    cases hm : m.isOfGuard with
    | true => simpa [Hall.step, hm] using .still
    | false =>
      have hmoved := e.move_locksMoved hm
      have hstep : Hall.step ⟨e, vs⟩ (.move m) = ⟨e.move m, vs⟩ := by simp [Hall.step, hm]
      rw [hstep]
      generalize e.move m = e' at hmoved
      cases hmoved with
      | still htasks hlocks =>
        rw [hlocks]
        exact .still
      | started r => exact .still
      | handled htask htasks hhandled => exact hhandled.turned
  | acquire account => exact .still
  | acquirePair a b => exact .still
  | ask n =>
    simp only [Hall.step, Hall.ask]
    split
    · exact .still
    · split
      · exact .still
      · split
        · exact .asked _ _
        · exact .still
  | drop n =>
    simp only [Hall.step, Hall.drop]
    split
    · exact .still
    · next v _ =>
      rw [(leaves_frame n v.asked e).2]
      exact .left _ _

theorem Reachable.kept (hr : h.Reachable) : h.Kept := by
  induction hr with
  | start hidle => exact kept_idle hidle
  | step _ event ih => exact Kept.step ih event

/-- A task that has not ended, or a visitor that has not gone, has asked for the lock of an account
of its own. -/
def Wants (h : Hall) (w : Owner) (account : String) : Prop :=
  match w with
  | .task i => ∃ t, h.engine.tasks[i]? = some t ∧ t.isFinished = false ∧ account ∈ t.asked ∧
      (account = t.request.fromAccount ∨ account = t.request.toAccount)
  | .guard n => ∃ v, h.visitors[n]? = some v ∧ v.gone = false ∧ account ∈ v.asked ∧
      account ∈ v.accounts

theorem Kept.notMem_line {w : Owner} {l : AccountLock Owner} (hkept : h.Kept)
    (hasked : h.asked w = []) (hl : l ∈ h.engine.locks.registered) : w ∉ l.line := by
  intro hmem
  have hasks : l.account ∈ h.asked w := by
    rw [← Locks.Kept.mem_iff hkept, Locks.line, hkept.orderly.find?_eq hl]
    exact hmem
  rw [hasked] at hasks
  cases hasks

theorem wants_of_asked {w : Owner} {account : String} (ha : account ∈ h.asked w) :
    h.Wants w account := by
  cases w with
  | task i =>
    cases htask : h.engine.tasks[i]? with
    | none => simp [asked, htask] at ha
    | some t =>
      rw [asked_task htask] at ha
      refine ⟨t, htask, ?_, ha, Task.mem_accounts (Task.asked_subset ha)⟩
      by_contra hended
      rw [Task.asked_of_finished (by simpa using hended)] at ha
      cases ha
  | guard n =>
    cases hv : h.visitors[n]? with
    | none => simp [asked, hv] at ha
    | some v =>
      rw [asked_guard hv] at ha
      have hmem := ha
      unfold Visitor.asked at hmem
      split at hmem
      · cases hmem
      · next hgone => exact ⟨v, hv, by simpa using hgone, ha, List.mem_of_mem_take hmem⟩

/-- Each account has one lock, which is held by a posting or a visitor that is still there and has
asked for it; nobody who has ended holds a lock, and once all have ended all locks are free. -/
theorem locks_of_present (hr : h.Reachable) :
    h.engine.locks.accounts.Nodup ∧
      (∀ l ∈ h.engine.locks.registered, ∀ w, l.holder = some w → h.Wants w l.account) ∧
      (∀ i t, h.engine.tasks[i]? = some t → t.isFinished = true →
        ∀ l ∈ h.engine.locks.registered, l.holder ≠ some (.task i) ∧ .task i ∉ l.waiting) ∧
      ((∀ t ∈ h.engine.tasks, t.isFinished = true) → (∀ v ∈ h.visitors, v.gone = true) →
        ∀ l ∈ h.engine.locks.registered, l.holder = none ∧ l.waiting = []) := by
  have hkept : h.engine.locks.Kept h.asked := hr.kept
  have hwants {l : AccountLock Owner} (hl : l ∈ h.engine.locks.registered) {w : Owner}
      (hw : w ∈ l.line) : h.Wants w l.account := by
    apply wants_of_asked
    rw [← hkept.mem_iff, Locks.line, hkept.orderly.find?_eq hl]
    exact hw
  have hholder {l : AccountLock Owner} {w : Owner} (hw : l.holder = some w) : w ∈ l.line := by
    simp [AccountLock.line, hw]
  have hwaiting {l : AccountLock Owner} {w : Owner} (hw : w ∈ l.waiting) : w ∈ l.line :=
    List.mem_append_right _ hw
  refine ⟨hkept.orderly.accounts, fun l hl w hw => hwants hl (hholder hw), ?_, ?_⟩
  · intro i t htask hended l hl
    have hgone : .task i ∉ l.line := by
      intro hmem
      obtain ⟨t', htask', hopen, -⟩ := hwants hl hmem
      rw [htask, Option.some.injEq] at htask'
      rw [← htask', hended] at hopen
      cases hopen
    exact ⟨fun hw => hgone (hholder hw), fun hw => hgone (hwaiting hw)⟩
  · intro htasks hvisitors l hl
    have hnobody (w : Owner) : w ∉ l.line := by
      intro hmem
      have hw := hwants hl hmem
      cases w with
      | task i =>
        obtain ⟨t, htask, hopen, -⟩ := hw
        rw [htasks t (List.mem_of_getElem? htask)] at hopen
        cases hopen
      | guard n =>
        obtain ⟨v, hv, hthere, -⟩ := hw
        rw [hvisitors v (List.mem_of_getElem? hv)] at hthere
        cases hthere
    refine ⟨Option.eq_none_iff_forall_ne_some.2 fun w hw => hnobody w (hholder hw), ?_⟩
    exact List.eq_nil_iff_forall_not_mem.2 fun w hw => hnobody w (hwaiting hw)

def handover : List Event :=
  let steps (n i : Nat) : List Event := List.replicate n (.move (.step Engine.calm i))
  [.acquirePair "b" "a", .ask 0, .ask 0, .move (.start Engine.smallRequest),
    .move (.start Engine.smallRequest)] ++
    steps 4 0 ++ steps 4 1 ++ [.move (.cancel 1), .drop 0] ++ steps 4 0

theorem locks_of_present_handover :
    Reachable ((Hall.mk (Engine.inMemory .absent) []).after handover) ∧
      (∀ t ∈ ((Hall.mk (Engine.inMemory .absent) []).after handover).engine.tasks,
        t.isFinished = true) ∧
      (∀ v ∈ ((Hall.mk (Engine.inMemory .absent) []).after handover).visitors, v.gone = true) ∧
      ∀ l ∈ ((Hall.mk (Engine.inMemory .absent) []).after handover).engine.locks.registered,
        l.holder = none ∧ l.waiting = [] := by
  have hr : Reachable ((Hall.mk (Engine.inMemory .absent) []).after handover) :=
    (Reachable.start (Engine.Fresh.inMemory .absent).idle).after handover
  have htasks : ∀ t ∈ ((Hall.mk (Engine.inMemory .absent) []).after handover).engine.tasks,
      t.isFinished = true := by decide +kernel
  have hvisitors : ∀ v ∈ ((Hall.mk (Engine.inMemory .absent) []).after handover).visitors,
      v.gone = true := by decide +kernel
  exact ⟨hr, htasks, hvisitors, (locks_of_present hr).2.2.2 htasks hvisitors⟩

end Hall

end Bookkeeping
