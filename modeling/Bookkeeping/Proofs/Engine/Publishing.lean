import Bookkeeping.Proofs.Engine.Office

/-! What becomes of the notices has no effect on the postings: two runs that differ only in their
notifiers, in what their publishers do and in when these get their turns leave the same book and end
every posting in the same way. -/
namespace Bookkeeping

namespace Engine

/-- Engines that differ at most in their notifiers, in what these have kept, in whose turn it is and
in what was reported. -/
structure Twin (e e' : Engine) : Prop where
  store : e.store = e'.store
  locks : e.locks = e'.locks
  tasks : e.tasks = e'.tasks
  made : e.made = e'.made

namespace Twin

variable {e e' e'' : Engine}

theorem refl (e : Engine) : Twin e e := ⟨rfl, rfl, rfl, rfl⟩

theorem symm (h : Twin e e') : Twin e' e :=
  ⟨h.store.symm, h.locks.symm, h.tasks.symm, h.made.symm⟩

theorem trans (h : Twin e e') (h' : Twin e' e'') : Twin e e'' :=
  ⟨h.store.trans h'.store, h.locks.trans h'.locks, h.tasks.trans h'.tasks, h.made.trans h'.made⟩

theorem book (h : Twin e e') : e.book = e'.book := congrArg Store.book h.store

theorem outcome? (h : Twin e e') (i : Nat) : e.outcome? i = e'.outcome? i := by
  rw [Engine.outcome?, Engine.outcome?, h.tasks]

theorem notify (e : Engine) (notice : Completion) : Twin e (e.notify notice) := by
  obtain ⟨_, _, _, h⟩ := e.notify_eq notice
  rw [h]
  exact ⟨rfl, rfl, rfl, rfl⟩

theorem announce (e : Engine) (now : Moment) (tx : Transaction)
    (answer : Except Error SaveOutcome) : Twin e (e.announce now tx answer) := by
  cases answer with
  | error error => exact ⟨rfl, rfl, rfl, rfl⟩
  | ok outcome =>
    cases outcome with
    | saved => exact notify ..
    | duplicateKey => exact refl e

theorem deliver (e : Engine) (s : Surroundings) : Twin e (e.deliver s) := by
  obtain ⟨_, _, _, _, h⟩ := e.deliver_eq s
  rw [h]
  exact ⟨rfl, rfl, rfl, rfl⟩

theorem stopNotifier (e : Engine) : Twin e (e.move .stopNotifier) := by
  unfold Engine.move
  cases e.notifier with
  | running p waiting =>
    obtain ⟨_, h⟩ := awaken_eq { e with notifier := .stopping } .notifier
    simp only [h]
    exact ⟨rfl, rfl, rfl, rfl⟩
  | absent => exact refl e
  | stopping => exact refl e
  | stopped => exact refl e

theorem leaveLock (h : Twin e e') (w : Owner) (account : String) :
    Twin (e.leaveLock w account) (e'.leaveLock w account) := by
  obtain ⟨_, hleft⟩ := e.leaveLock_eq w account
  obtain ⟨_, hleft'⟩ := e'.leaveLock_eq w account
  rw [hleft, hleft']
  exact ⟨h.store, congrArg (·.leave account w) h.locks, h.tasks, h.made⟩

theorem setStage (h : Twin e e') (i : Nat) (stage : Stage) :
    Twin (e.setStage i stage) (e'.setStage i stage) :=
  ⟨h.store, h.locks, by rw [Engine.setStage, Engine.setStage, h.tasks], h.made⟩

theorem finish (h : Twin e e') (i : Nat) (t : Task) (outcome : Outcome) :
    Twin (e.finish i t outcome) (e'.finish i t outcome) := by
  have hfirst := h.leaveLock (.task i) t.firstAccount
  unfold Engine.finish
  cases t.secondAccount? with
  | none => exact ⟨hfirst.store, hfirst.locks, (hfirst.setStage i _).tasks, hfirst.made⟩
  | some account =>
    have hsecond := hfirst.leaveLock (.task i) account
    exact ⟨hsecond.store, hsecond.locks, (hsecond.setStage i _).tasks, hsecond.made⟩

theorem request (h : Twin e e') (account : String) (w : Owner) :
    Twin { e with locks := e.locks.request account w }
      { e' with locks := e'.locks.request account w } :=
  ⟨h.store, by rw [h.locks], h.tasks, h.made⟩

theorem counted (h : Twin e e') : Twin e.counted e'.counted :=
  ⟨h.store, h.locks, h.tasks, congrArg (· + 1) h.made⟩

theorem save (h : Twin e e') (s : Surroundings) (p : Posting) :
    (e.save s p).1 = (e'.save s p).1 ∧ Twin (e.save s p).2 (e'.save s p).2 := by
  cases hsave : s.faults.save with
  | some reason =>
    simp only [Engine.save, hsave, true_and]
    exact h
  | none =>
    obtain ⟨log, heq⟩ := save_eq (e := e) p hsave
    obtain ⟨log', heq'⟩ := save_eq (e := e') p hsave
    rw [heq, heq', h.store]
    exact ⟨rfl, rfl, h.locks, h.tasks, h.made⟩

theorem announced (h : Twin e e') (now : Moment) (tx : Transaction)
    (answer : Except Error SaveOutcome) :
    Twin (e.announce now tx answer) (e'.announce now tx answer) :=
  (announce e now tx answer).symm.trans (h.trans (announce e' now tx answer))

theorem stepSave (h : Twin e e') (s : Surroundings) (i : Nat) (t : Task) :
    Twin (Engine.stepSave s e i t) (Engine.stepSave s e' i t) := by
  have hnow : (s.fresh e'.made).2 = (s.fresh e.made).2 := by rw [h.made]
  have htx : t.request.toTransaction (s.fresh e'.made).1 (s.fresh e.made).2 =
      t.request.toTransaction (s.fresh e.made).1 (s.fresh e.made).2 := by rw [h.made]
  rw [stepSave_eq rfl rfl, stepSave_eq hnow htx]
  split
  · exact h.counted.finish ..
  · obtain ⟨hanswer, hsaved⟩ := h.counted.save s
      (t.request.toTransaction (s.fresh e.made).1 (s.fresh e.made).2).posting
    simp only [hanswer]
    exact (hsaved.announced ..).finish ..

theorem step (h : Twin e e') (s : Surroundings) (i : Nat) :
    Option.Rel Twin (e.step s i) (e'.step s i) := by
  unfold Engine.step
  cases htask : e.tasks[i]? with
  | none =>
    have htask' : e'.tasks[i]? = none := h.tasks ▸ htask
    simp only [htask']
    exact .none
  | some t =>
    have htask' : e'.tasks[i]? = some t := h.tasks ▸ htask
    simp only [htask']
    have hread : e.hasKey s t.request.key = e'.hasKey s t.request.key := by
      rw [Engine.hasKey, Engine.hasKey, Engine.read, Engine.read, h.book]
    cases t.stage with
    | finished outcome => exact .none
    | preCheck =>
      simp only [hread]
      split
      · exact .some (h.finish ..)
      · split
        · exact .some (h.finish ..)
        · exact .some (h.finish ..)
        · exact .some (h.setStage ..)
    | validation =>
      simp only
      split
      · exact .some (h.finish ..)
      · exact .some (h.setStage ..)
    | firstLock => exact .some ((h.request ..).setStage ..)
    | awaitingFirst =>
      simp only [h.locks]
      split
      · exact .some (h.setStage ..)
      · exact .none
    | secondLock =>
      simp only
      split
      · exact .some ((h.request ..).setStage ..)
      · exact .some (h.setStage ..)
    | awaitingSecond =>
      simp only [h.locks]
      split
      · split
        · exact .some (h.setStage ..)
        · exact .none
      · exact .some (h.setStage ..)
    | saving => exact .some (h.stepSave ..)

theorem move (h : Twin e e') (m : Move) : Twin (e.move m) (e'.move m) := by
  cases m with
  | start r =>
    exact ⟨h.store, h.locks, by simp only [Engine.move, Engine.start, h.tasks], h.made⟩
  | step s i =>
    have hstep := h.step s i
    simp only [Engine.move]
    generalize e.step s i = next, e'.step s i = next' at hstep ⊢
    cases hstep with
    | none => exact h
    | some hstep => exact hstep
  | cancel i =>
    simp only [Engine.move, Engine.cancel, ← h.tasks]
    split
    · exact h
    · split
      · exact h
      · exact h.finish ..
  | ask serial account => exact h.request ..
  | leave serial account => exact h.leaveLock ..
  | deliver s => exact (deliver e s).symm.trans (h.trans (deliver e' s))
  | stopNotifier => exact (stopNotifier e).symm.trans (h.trans (stopNotifier e'))
  | withdraw turn => exact ⟨h.store, h.locks, h.tasks, h.made⟩
  | report event => exact ⟨h.store, h.locks, h.tasks, h.made⟩

theorem leaves (h : Twin e e') (n : Nat) (accounts : List String) :
    Twin (accounts.foldl (fun e account => e.move (.leave n account)) e)
      (accounts.foldl (fun e account => e.move (.leave n account)) e') := by
  induction accounts generalizing e e' with
  | nil => exact h
  | cons account accounts ih => exact ih (h.move (.leave n account))

end Twin

end Engine

structure Hall.Twin (h h' : Hall) : Prop where
  engine : Engine.Twin h.engine h'.engine
  visitors : h.visitors = h'.visitors

theorem Hall.Twin.step {h h' : Hall} (htwin : h.Twin h') (event : Hall.Event) :
    (h.step event).Twin (h'.step event) := by
  obtain ⟨e, vs⟩ := h
  obtain ⟨e', vs'⟩ := h'
  have hengine : Engine.Twin e e' := htwin.engine
  obtain rfl : vs = vs' := htwin.visitors
  cases event with
  | move m =>
    simp only [Hall.step]
    split
    · exact ⟨hengine, rfl⟩
    · exact ⟨hengine.move m, rfl⟩
  | acquire account => exact ⟨hengine, rfl⟩
  | acquirePair a b => exact ⟨hengine, rfl⟩
  | ask n =>
    simp only [Hall.step, Hall.ask, ← hengine.locks]
    split
    · exact ⟨hengine, rfl⟩
    · split
      · exact ⟨hengine, rfl⟩
      · split
        · exact ⟨hengine.move (.ask n _), rfl⟩
        · exact ⟨hengine, rfl⟩
  | drop n =>
    simp only [Hall.step, Hall.drop]
    split
    · exact ⟨hengine, rfl⟩
    · next v _ =>
      exact ⟨hengine.leaves n v.asked, rfl⟩

namespace Office

structure Twin (o o' : Office) : Prop where
  hall : o.hall.Twin o'.hall
  saves : o.saves = o'.saves

namespace Twin

variable {o o' o'' : Office}

theorem refl (o : Office) : Twin o o := ⟨⟨.refl _, rfl⟩, rfl⟩

theorem symm (h : Twin o o') : Twin o' o :=
  ⟨⟨h.hall.engine.symm, h.hall.visitors.symm⟩, h.saves.symm⟩

theorem trans (h : Twin o o') (h' : Twin o' o'') : Twin o o'' :=
  ⟨⟨h.hall.engine.trans h'.hall.engine, h.hall.visitors.trans h'.hall.visitors⟩,
    h.saves.trans h'.saves⟩

theorem engine (h : Twin o o') : Engine.Twin o.engine o'.engine := h.hall.engine

theorem put (h : Twin o o') {e e' : Engine} (he : Engine.Twin e e') (i : Nat)
    (stage : Option SaveStage) : Twin (o.put e i stage) (o'.put e' i stage) :=
  ⟨⟨he, h.hall.visitors⟩, by simp only [Office.put, h.saves]⟩

theorem admits (h : Twin o o') (event : Hall.Event) : o.admits event = o'.admits event := by
  unfold Office.admits
  rw [h.engine.tasks, h.saves]

theorem step (h : Twin o o') (event : Event) : Twin (o.step event) (o'.step event) := by
  cases event with
  | hall event =>
    simp only [Office.step, ← h.admits]
    split
    · exact ⟨h.hall.step event, h.saves⟩
    · exact h
  | submit s i =>
    simp only [Office.step, ← h.saves, ← h.engine.tasks, ← h.engine.made]
    split
    · split
      · exact h.put h.engine.counted ..
      · exact h
    · exact h
  | answer s i =>
    simp only [Office.step, ← h.saves]
    split
    · next tx _ =>
      obtain ⟨hanswer, hsaved⟩ := h.engine.save s tx.posting
      split
      · exact h.put h.engine ..
      · simp only [hanswer]
        exact h.put hsaved ..
    · exact h
  | announce i now =>
    simp only [Office.step, ← h.saves]
    split
    · exact h.put (h.engine.announced ..) ..
    · exact h
  | release i =>
    simp only [Office.step, ← h.saves, ← h.engine.tasks]
    split
    · exact h.put (h.engine.finish ..) ..
    · exact h

end Twin

end Office

def Surroundings.muted (s : Surroundings) : Surroundings :=
  { s with faults := { s.faults with publish := none } }

namespace Office

/-- What is left of an event without the publisher: nothing of the turns of the notifier, of its
end, and of turns that are taken back and reports. -/
def Event.muted : Event → Option Event
  | .hall (.move (.deliver _)) | .hall (.move .stopNotifier) | .hall (.move (.withdraw _))
  | .hall (.move (.report _)) => none
  | .hall (.move (.step s i)) => some (.hall (.move (.step s.muted i)))
  | .submit s i => some (.submit s.muted i)
  | .answer s i => some (.answer s.muted i)
  | event => some event

variable {o o' : Office} {event event' : Event}

/-- Neither a task nor a save looks at what the publisher does. -/
theorem step_of_muted (h : event.muted = some event') : o.step event' = o.step event := by
  unfold Event.muted at h
  split at h <;> cases h <;> rfl

theorem twin_of_muted (h : event.muted = none) : Twin o (o.step event) := by
  unfold Event.muted at h
  split at h
  · next s => exact ⟨⟨Engine.Twin.deliver o.engine s, rfl⟩, rfl⟩
  · exact ⟨⟨Engine.Twin.stopNotifier o.engine, rfl⟩, rfl⟩
  · exact ⟨⟨⟨rfl, rfl, rfl, rfl⟩, rfl⟩, rfl⟩
  · exact ⟨⟨⟨rfl, rfl, rfl, rfl⟩, rfl⟩, rfl⟩
  all_goals cases h

theorem Twin.after_muted (h : Twin o o') (events : List Event) :
    Twin (o.after events) (o'.after (events.filterMap Event.muted)) := by
  induction events generalizing o o' with
  | nil => exact h
  | cons event events ih =>
    cases hmuted : event.muted with
    | none =>
      rw [List.filterMap_cons_none hmuted]
      exact ih ((twin_of_muted hmuted).symm.trans h)
    | some event' =>
      rw [List.filterMap_cons_some hmuted, after_cons, after_cons, step_of_muted hmuted]
      exact ih (h.step event)

/-- Runs that differ only in the publisher come to the same. -/
theorem Twin.after {events events' : List Event} (h : Twin o o')
    (hsame : events.filterMap Event.muted = events'.filterMap Event.muted) :
    Twin (o.after events) (o'.after events') := by
  have hquiet : Twin (o.after events) (o'.after (events'.filterMap Event.muted)) :=
    hsame ▸ h.after_muted events
  exact hquiet.trans ((Twin.refl o').after_muted events').symm

theorem opened_twin {e e' : Engine} (h : Engine.Twin e e') : Twin (opened e) (opened e') :=
  ⟨⟨h, rfl⟩, rfl⟩

end Office

end Bookkeeping
