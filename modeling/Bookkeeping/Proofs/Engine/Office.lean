import Mathlib.Logic.Function.Basic
import Bookkeeping.Proofs.Engine.Holding

/-! Saves that take their time. The save of a task has a beginning, an answer of the store, a notice
and an end, and whatever others do may come between them; one after the other they are the step of
the task that saves. -/
namespace Bookkeeping

/-- How far a save has come: the store has been given a transaction, it has answered, or the notice
is queued if there is to be one and only the end is left. -/
inductive SaveStage where
  | begun (transaction : Transaction)
  | answered (transaction : Transaction) (answer : Except Error SaveOutcome)
  | settled (outcome : Outcome)
  deriving DecidableEq

/-- An engine with those who come to its locks, and the saves that are under way. -/
structure Office where
  hall : Hall
  saves : Nat → Option SaveStage := fun _ => none

namespace Office

def engine (o : Office) : Engine := o.hall.engine

def opened (e : Engine) : Office := { hall := ⟨e, []⟩ }

inductive Event where
  /-- Anything but a part of a save. -/
  | hall (event : Hall.Event)
  /-- A task makes its transaction and gives it to the store. -/
  | submit (surroundings : Surroundings) (index : Nat)
  /-- The store keeps the transaction or does not, and answers. -/
  | answer (surroundings : Surroundings) (index : Nat)
  | announce (index : Nat) (now : Moment)
  /-- The posting ends and gives up its locks. -/
  | release (index : Nat)

/-- A save goes by its parts; postings that are cancelled in their saves are those of a `Bureau`. -/
def admits (o : Office) : Hall.Event → Bool
  | .move (.step _ i) =>
    (o.saves i).isNone && (o.engine.tasks[i]?).map (·.stage) != some .saving
  | .move (.cancel i) => (o.saves i).isNone
  | _ => true

/-- Puts another engine in the place of the one that is there, and a save in its next stage. -/
def put (o : Office) (e : Engine) (i : Nat) (stage : Option SaveStage) : Office where
  hall := { o.hall with engine := e }
  saves := Function.update o.saves i stage

def step (o : Office) : Event → Office
  | .hall event => if o.admits event then { o with hall := o.hall.step event } else o
  | .submit s i =>
    match o.engine.tasks[i]?, o.saves i with
    | some t, none =>
      if t.stage = .saving then
        let (id, now) := s.fresh o.engine.made
        o.put o.engine.counted i
          (some (.begun (t.request.toTransaction id now)))
      else o
    | _, _ => o
  | .answer s i =>
    match o.saves i with
    | some (.begun tx) =>
      if s.faults.panics then o.put o.engine i (some (.settled .panicked))
      else
        let (answer, e) := o.engine.save s tx.posting
        o.put e i (some (.answered tx answer))
    | _ => o
  | .announce i now =>
    match o.saves i with
    | some (.answered tx answer) =>
      o.put (o.engine.announce now tx answer) i (some (.settled (.ofSave tx answer)))
    | _ => o
  | .release i =>
    match o.engine.tasks[i]?, o.saves i with
    | some t, some (.settled outcome) => o.put (o.engine.finish i t outcome) i none
    | _, _ => o

def after (o : Office) (events : List Event) : Office := events.foldl step o

variable {o o' : Office} {s : Surroundings} {i j : Nat} {t : Task} {tx : Transaction}

@[simp] theorem after_nil (o : Office) : o.after [] = o := rfl

@[simp] theorem after_cons (o : Office) (event : Event) (events : List Event) :
    o.after (event :: events) = (o.step event).after events := rfl

theorem after_append (o : Office) (events events' : List Event) :
    o.after (events ++ events') = (o.after events).after events' := List.foldl_append

@[simp] theorem engine_put (o : Office) (e : Engine) (i : Nat) (stage : Option SaveStage) :
    (o.put e i stage).engine = e := rfl

theorem saves_put (o : Office) (e : Engine) (i : Nat) (stage : Option SaveStage) (j : Nat) :
    (o.put e i stage).saves j = if j = i then stage else o.saves j :=
  Function.update_apply ..

@[simp] theorem saves_put_self (o : Office) (e : Engine) (i : Nat) (stage : Option SaveStage) :
    (o.put e i stage).saves i = stage := by
  rw [saves_put, if_pos rfl]

@[simp] theorem put_put (o : Office) (e e' : Engine) (i : Nat) (stage stage' : Option SaveStage) :
    (o.put e i stage).put e' i stage' = o.put e' i stage' := by
  simp [put]

theorem put_none (hfree : o.saves i = none) (e : Engine) :
    o.put e i none = { o with hall := { o.hall with engine := e } } := by
  rw [put, ← hfree, Function.update_eq_self]

theorem step_submit (htask : o.engine.tasks[i]? = some t) (hstage : t.stage = .saving)
    (hfree : o.saves i = none) : o.step (.submit s i) =
      o.put o.engine.counted i (some (.begun
        (t.request.toTransaction (s.fresh o.engine.made).1 (s.fresh o.engine.made).2))) := by
  simp [step, htask, hstage, hfree]

theorem step_answer_panics (hbegun : o.saves i = some (.begun tx)) (hpanics : s.faults.panics) :
    o.step (.answer s i) = o.put o.engine i (some (.settled .panicked)) := by
  simp [step, hbegun, hpanics]

theorem step_answer (hbegun : o.saves i = some (.begun tx)) (hpanics : s.faults.panics = false) :
    o.step (.answer s i) = o.put (o.engine.save s tx.posting).2 i
      (some (.answered tx (o.engine.save s tx.posting).1)) := by
  simp [step, hbegun, hpanics]

theorem step_announce {now : Moment} {answer : Except Error SaveOutcome}
    (hanswered : o.saves i = some (.answered tx answer)) : o.step (.announce i now) =
      o.put (o.engine.announce now tx answer) i (some (.settled (.ofSave tx answer))) := by
  simp [step, hanswered]

theorem step_release {outcome : Outcome} (htask : o.engine.tasks[i]? = some t)
    (hsettled : o.saves i = some (.settled outcome)) :
    o.step (.release i) = o.put (o.engine.finish i t outcome) i none := by
  simp [step, htask, hsettled]

/-- One part right after the other, a save is the step of its task. -/
theorem after_parts (htask : o.engine.tasks[i]? = some t) (hstage : t.stage = .saving)
    (hfree : o.saves i = none) :
    o.after [.submit s i, .answer s i, .announce i (s.fresh o.engine.made).2, .release i] =
      { o with hall := o.hall.step (.move (.step s i)) } := by
  have hstep : o.engine.move (.step s i) = Engine.stepSave s o.engine i t := by
    simp [Engine.move, Engine.step, htask, hstage]
  have hwhole : { o with hall := o.hall.step (.move (.step s i)) } =
      o.put (Engine.stepSave s o.engine i t) i none := by
    rw [put_none hfree, ← hstep]
    simp [Hall.step, Engine.Move.isOfGuard, engine]
  have hsave := Engine.stepSave_eq (s := s) (e := o.engine) (i := i) (t := t) rfl rfl
  generalize htx : t.request.toTransaction (s.fresh o.engine.made).1
    (s.fresh o.engine.made).2 = tx at hsave
  have hsubmit := step_submit (s := s) htask hstage hfree
  rw [htx] at hsubmit
  rw [hwhole, hsave, after_cons, hsubmit]
  have hrelease (e : Engine) (outcome : Outcome) (htasks : e.tasks = o.engine.tasks) :
      (o.put e i (some (.settled outcome))).step (.release i) =
        o.put (e.finish i t outcome) i none := by
    have htask' : (o.put e i (some (.settled outcome))).engine.tasks[i]? = some t := by
      rw [engine_put, htasks, htask]
    rw [step_release htask' (saves_put_self ..), put_put, engine_put]
  cases hpanics : s.faults.panics with
  | true =>
    have hnothing : (o.put o.engine.counted i (some (.settled .panicked))).step
        (.announce i (s.fresh o.engine.made).2) =
          o.put o.engine.counted i (some (.settled .panicked)) := by simp [step]
    rw [after_cons, step_answer_panics (saves_put_self ..) hpanics, put_put, engine_put,
      after_cons, hnothing, after_cons, hrelease o.engine.counted _ rfl]
    rfl
  | false =>
    have htasks : ((o.engine.counted.save s tx.posting).2.announce (s.fresh o.engine.made).2 tx
        (o.engine.counted.save s tx.posting).1).tasks = o.engine.tasks :=
      (Engine.tasks_announce ..).trans (Engine.save_frame o.engine.counted s tx.posting).1
    rw [after_cons, step_answer (saves_put_self ..) hpanics, put_put, engine_put, after_cons,
      step_announce (saves_put_self ..), put_put, engine_put, after_cons, hrelease _ _ htasks]
    rfl

/-- Every run in which saves take one step is a run in which they take their parts. -/
theorem exists_after (h : Hall) (events : List Hall.Event) :
    ∃ events', ({ hall := h } : Office).after events' = { hall := h.after events } := by
  induction events generalizing h with
  | nil => exact ⟨[], rfl⟩
  | cons event events ih =>
    suffices ∃ parts, ({ hall := h } : Office).after parts = { hall := h.step event } by
      obtain ⟨parts, hparts⟩ := this
      obtain ⟨rest, hrest⟩ := ih (h.step event)
      exact ⟨parts ++ rest, by rw [after_append, hparts, hrest]; rfl⟩
    by_cases hadmits : ({ hall := h } : Office).admits event
    · exact ⟨[.hall event], by simp [step, hadmits]⟩
    · unfold admits at hadmits
      split at hadmits
      · next s i =>
        rw [Option.isNone_none, Bool.true_and, Bool.not_eq_true, bne_eq_false_iff_eq,
          Option.map_eq_some_iff] at hadmits
        obtain ⟨t, htask, hstage⟩ := hadmits
        exact ⟨_, after_parts htask hstage rfl⟩
      · exact absurd rfl hadmits
      · exact absurd rfl hadmits

end Office

namespace Notifier

/-- The notices that are queued. -/
def waiting : Notifier → List Completion
  | .running _ waiting => waiting
  | .absent | .stopping | .stopped => []

def isRunning : Notifier → Bool
  | .running _ _ => true
  | .absent | .stopping | .stopped => false

end Notifier

namespace Engine

theorem deliver_notifier (s : Surroundings) (e : Engine) :
    (e.deliver s).notifier.waiting = [] ∧
      (e.deliver s).notifier.isRunning = e.notifier.isRunning := by
  unfold deliver
  simp only [withdraw]
  cases e.notifier with
  | running p waiting =>
    obtain ⟨_, _, hpublish⟩ := foldl_publish_eq
      { e with ready := e.ready.filter (· != .notifier), notifier := .running p [] } s p waiting
    simp only [hpublish]
    exact ⟨rfl, rfl⟩
  | absent => exact ⟨rfl, rfl⟩
  | stopping => exact ⟨rfl, rfl⟩
  | stopped => exact ⟨rfl, rfl⟩

theorem foldl_leave_frame (n : Nat) (accounts : List String) (e : Engine) :
    (accounts.foldl (fun e account => e.move (.leave n account)) e).store = e.store ∧
      (accounts.foldl (fun e account => e.move (.leave n account)) e).notifier = e.notifier := by
  induction accounts generalizing e with
  | nil => exact ⟨rfl, rfl⟩
  | cons account accounts ih =>
    obtain ⟨hstore, hnotifier⟩ := ih (e.move (.leave n account))
    exact ⟨hstore.trans (store_leaveLock ..), hnotifier.trans (notifier_leaveLock ..)⟩

end Engine

namespace Office

/-- No posting is affected, and no notice is queued. -/
structure Resting (o : Office) (event : Hall.Event) (o' : Office) : Prop where
  tasks : o'.engine.tasks = o.engine.tasks
  store : o'.engine.store = o.engine.store
  saves : o'.saves = o.saves
  waiting : o'.engine.notifier.waiting <+: o.engine.notifier.waiting
  running : event ≠ .move .stopNotifier →
    o'.engine.notifier.isRunning = o.engine.notifier.isRunning

/-- What an event does: a posting comes, goes on, or comes to the next part of its save. -/
inductive Moved (o : Office) : Event → Office → Prop where
  | idle {event : Event} : Moved o event o
  | rested {event : Hall.Event} {o' : Office} (h : Resting o event o') : Moved o (.hall event) o'
  | started {o' : Office} (r : PostingRequest) (hengine : o'.engine = o.engine.start r)
    (hsaves : o'.saves = o.saves) : Moved o (.hall (.move (.start r))) o'
  | onward {event : Hall.Event} {o' : Office} {i : Nat} {t : Task} {stage : Stage}
    (htask : o.engine.tasks[i]? = some t) (hfree : o.saves i = none)
    (h : Engine.Onward o.engine i t stage o'.engine) (hsaves : o'.saves = o.saves) :
    Moved o (.hall event) o'
  | submitted {s : Surroundings} {i : Nat} {t : Task} {id : Uuid} {now : Moment}
    (htask : o.engine.tasks[i]? = some t) (hstage : t.stage = .saving)
    (hfree : o.saves i = none) : Moved o (.submit s i)
      (o.put o.engine.counted i (some (.begun (t.request.toTransaction id now))))
  | panicked {s : Surroundings} {i : Nat} {tx : Transaction}
    (hbegun : o.saves i = some (.begun tx)) :
    Moved o (.answer s i) (o.put o.engine i (some (.settled .panicked)))
  | answered {s : Surroundings} {i : Nat} {tx : Transaction}
    (hbegun : o.saves i = some (.begun tx)) : Moved o (.answer s i)
      (o.put (o.engine.save s tx.posting).2 i
        (some (.answered tx (o.engine.save s tx.posting).1)))
  | announced {i : Nat} {now : Moment} {tx : Transaction} {answer : Except Error SaveOutcome}
    (hanswered : o.saves i = some (.answered tx answer)) : Moved o (.announce i now)
      (o.put (o.engine.announce now tx answer) i (some (.settled (.ofSave tx answer))))
  | released {i : Nat} {t : Task} {outcome : Outcome} (htask : o.engine.tasks[i]? = some t)
    (hsettled : o.saves i = some (.settled outcome)) :
    Moved o (.release i) (o.put (o.engine.finish i t outcome) i none)

variable {o o' : Office} {s : Surroundings} {i j : Nat} {t : Task} {tx : Transaction}

theorem Resting.of_notifier {event : Hall.Event} {e : Engine} {vs : List Visitor}
    (htasks : e.tasks = o.engine.tasks) (hstore : e.store = o.engine.store)
    (hnotifier : e.notifier = o.engine.notifier) :
    Resting o event { o with hall := ⟨e, vs⟩ } where
  tasks := htasks
  store := hstore
  saves := rfl
  waiting := hnotifier ▸ List.prefix_rfl
  running := fun _ => congrArg Notifier.isRunning hnotifier

theorem stopNotifier_resting {e : Engine} {vs : List Visitor} {saves : Nat → Option SaveStage} :
    Resting ⟨⟨e, vs⟩, saves⟩ (.move .stopNotifier) ⟨⟨e.move .stopNotifier, vs⟩, saves⟩ := by
  unfold Engine.move
  cases hnotifier : e.notifier with
  | running p waiting =>
    refine ⟨Engine.tasks_awaken .., Engine.store_awaken .., rfl, ?_, fun h => absurd rfl h⟩
    have hgone : (({ e with notifier := .stopping } : Engine).awaken .notifier).notifier.waiting =
        [] := by rw [Engine.notifier_awaken]; rfl
    exact (hgone ▸ List.nil_prefix)
  | _ => exact .of_notifier rfl rfl rfl

theorem cancel_moved {e : Engine} {vs : List Visitor} {saves : Nat → Option SaveStage}
    (hfree : saves i = none) : Moved ⟨⟨e, vs⟩, saves⟩ (.hall (.move (.cancel i)))
      ⟨⟨e.cancel i, vs⟩, saves⟩ := by
  cases htask : e.tasks[i]? with
  | none =>
    have hcancel : e.cancel i = e := by simp [Engine.cancel, htask]
    rw [hcancel]
    exact .idle
  | some t =>
    cases hopen : t.isFinished with
    | true =>
      have hcancel : e.cancel i = e := by simp [Engine.cancel, htask, hopen]
      rw [hcancel]
      exact .idle
    | false => exact .onward htask hfree (Engine.cancel_onward htask hopen) rfl

theorem engine_step_moved {e : Engine} {vs : List Visitor} {saves : Nat → Option SaveStage}
    (hfree : saves i = none) (hstage : (e.tasks[i]?).map (·.stage) ≠ some .saving) :
    Moved ⟨⟨e, vs⟩, saves⟩ (.hall (.move (.step s i))) ⟨⟨e.move (.step s i), vs⟩, saves⟩ := by
  cases hstep : e.step s i with
  | none =>
    rw [Engine.move_of_stuck hstep]
    exact .idle
  | some e' =>
    cases htask : e.tasks[i]? with
    | none => simp [Engine.step, htask] at hstep
    | some t =>
      have hstage' : t.stage ≠ .saving := by simpa [htask] using hstage
      obtain ⟨stage, honward⟩ := Engine.step_onward htask hstage' hstep
      rw [Engine.move_of_step hstep]
      exact .onward htask hfree honward rfl

theorem hall_moved {event : Hall.Event} (hadmits : o.admits event = true) :
    Moved o (.hall event) { o with hall := o.hall.step event } := by
  obtain ⟨⟨e, vs⟩, saves⟩ := o
  cases event with
  | acquire account => exact .rested (.of_notifier rfl rfl rfl)
  | acquirePair a b => exact .rested (.of_notifier rfl rfl rfl)
  | ask n =>
    simp only [Hall.step, Hall.ask]
    split
    · exact .idle
    · split
      · exact .idle
      · split
        · exact .rested (.of_notifier rfl rfl rfl)
        · exact .idle
  | drop n =>
    simp only [Hall.step, Hall.drop]
    split
    · exact .idle
    · next v _ =>
      obtain ⟨htasks, -⟩ := Hall.leaves_frame n v.asked e
      obtain ⟨hstore, hnotifier⟩ := Engine.foldl_leave_frame n v.asked e
      exact .rested (.of_notifier htasks hstore hnotifier)
  | move m =>
    cases m with
    | start r => exact .started r rfl rfl
    | ask serial account => exact .idle
    | leave serial account => exact .idle
    | withdraw turn => exact .rested (.of_notifier rfl rfl rfl)
    | report event => exact .rested (.of_notifier rfl rfl rfl)
    | deliver s =>
      obtain ⟨hstore, htasks⟩ := e.deliver_frame s
      obtain ⟨hwaiting, hrunning⟩ := e.deliver_notifier s
      have hshort : (e.deliver s).notifier.waiting <+: e.notifier.waiting :=
        hwaiting ▸ List.nil_prefix
      exact .rested ⟨htasks, hstore, rfl, hshort, fun _ => hrunning⟩
    | stopNotifier => exact .rested stopNotifier_resting
    | cancel i => exact cancel_moved (Option.isNone_iff_eq_none.1 hadmits)
    | step s i =>
      rw [admits, Bool.and_eq_true, bne_iff_ne] at hadmits
      exact engine_step_moved (Option.isNone_iff_eq_none.1 hadmits.1) hadmits.2

theorem step_moved (o : Office) (event : Event) : Moved o event (o.step event) := by
  cases event with
  | hall event =>
    cases hadmits : o.admits event with
    | true =>
      have hstep : o.step (.hall event) = { o with hall := o.hall.step event } := by
        simp [step, hadmits]
      exact hstep ▸ hall_moved hadmits
    | false =>
      have hstep : o.step (.hall event) = o := by simp [step, hadmits]
      rw [hstep]
      exact .idle
  | submit s i =>
    simp only [step]
    split
    · next t htask hfree =>
      split
      · next hstage => exact .submitted htask hstage hfree
      · exact .idle
    · exact .idle
  | answer s i =>
    simp only [step]
    split
    · next tx hbegun =>
      split
      · exact .panicked hbegun
      · exact .answered hbegun
    · exact .idle
  | announce i now =>
    simp only [step]
    split
    · next hanswered => exact .announced hanswered
    · exact .idle
  | release i =>
    simp only [step]
    split
    · next t outcome htask hsettled => exact .released htask hsettled
    · exact .idle

/-- What an event makes of the task and of the save of one posting. -/
inductive Progressed (e : Engine) (j : Nat) (task : Option Task) (save : Option SaveStage) :
    Option Task → Option SaveStage → Prop where
  | still : Progressed e j task save task save
  | came (r : PostingRequest) (hnew : task = none) :
    Progressed e j task save (some { request := r }) save
  | onward {t : Task} {stage : Stage} {e' : Engine} (htask : task = some t) (hfree : save = none)
    (h : Engine.Onward e j t stage e') : Progressed e j task save (some { t with stage }) none
  | submitted {t : Task} {id : Uuid} {now : Moment} (htask : task = some t)
    (hstage : t.stage = .saving) (hfree : save = none) :
    Progressed e j task save task (some (.begun (t.request.toTransaction id now)))
  | panicked {tx : Transaction} (hbegun : save = some (.begun tx)) :
    Progressed e j task save task (some (.settled .panicked))
  | answered {tx : Transaction} (hbegun : save = some (.begun tx))
    (answer : Except Error SaveOutcome) :
    Progressed e j task save task (some (.answered tx answer))
  | announced {tx : Transaction} {answer : Except Error SaveOutcome}
    (hanswered : save = some (.answered tx answer)) :
    Progressed e j task save task (some (.settled (.ofSave tx answer)))
  | released {t : Task} {outcome : Outcome} (htask : task = some t)
    (hsettled : save = some (.settled outcome)) :
    Progressed e j task save (some { t with stage := .finished outcome }) none

theorem progressed_put {e : Engine} {stage : Option SaveStage}
    (hother : ∀ j, j ≠ i → e.tasks[j]? = o.engine.tasks[j]?)
    (hself : Progressed o.engine i o.engine.tasks[i]? (o.saves i) e.tasks[i]? stage) (j : Nat) :
    Progressed o.engine j o.engine.tasks[j]? (o.saves j) (o.put e i stage).engine.tasks[j]?
      ((o.put e i stage).saves j) := by
  rw [engine_put, saves_put]
  by_cases hj : j = i
  · rw [if_pos hj, hj]
    exact hself
  · rw [if_neg hj, hother j hj]
    exact .still

theorem step_progressed (o : Office) (event : Event) (j : Nat) :
    Progressed o.engine j o.engine.tasks[j]? (o.saves j) (o.step event).engine.tasks[j]?
      ((o.step event).saves j) := by
  have hmoved := o.step_moved event
  generalize o.step event = o' at hmoved ⊢
  cases hmoved with
  | idle => exact .still
  | rested hrest =>
    rw [hrest.tasks, hrest.saves]
    exact .still
  | started r hengine hsaves =>
    rw [hengine, hsaves, Engine.start, List.getElem?_append]
    by_cases hlt : j < o.engine.tasks.length
    · rw [if_pos hlt]
      exact .still
    · have hnew : o.engine.tasks[j]? = none := List.getElem?_eq_none (Nat.le_of_not_lt hlt)
      rw [if_neg hlt, List.getElem?_singleton]
      split
      · exact .came r hnew
      · rw [hnew]
        exact .still
  | @onward _ _ i t stage htask hfree honward hsaves =>
    rw [Engine.getElem?_modify_stage htask honward.tasks, hsaves]
    by_cases hj : j = i
    · subst hj
      rw [if_pos rfl, hfree]
      exact .onward htask rfl honward
    · rw [if_neg hj]
      exact .still
  | submitted htask hstage hfree =>
    refine progressed_put (fun _ _ => rfl) ?_ j
    exact .submitted htask hstage hfree
  | panicked hbegun => exact progressed_put (fun _ _ => rfl) (.panicked hbegun) j
  | @answered s _ tx hbegun =>
    have htasks := (o.engine.save_frame s tx.posting).1
    refine progressed_put (fun _ _ => by rw [htasks]) ?_ j
    rw [htasks]
    exact .answered hbegun _
  | announced hanswered =>
    refine progressed_put (fun _ _ => by rw [Engine.tasks_announce]) ?_ j
    rw [Engine.tasks_announce]
    exact .announced hanswered
  | @released i t outcome htask hsettled =>
    have htasks := Engine.getElem?_modify_stage htask (o.engine.tasks_finish i t outcome)
    refine progressed_put (fun j hj => by rw [htasks, if_neg hj]) ?_ j
    rw [htasks, if_pos rfl]
    exact .released htask hsettled

end Office

end Bookkeeping
