import Bookkeeping.Engine.Schedule
import Bookkeeping.Proofs.Journal.Recovery

/-! What a step of a task makes of the task and of the store, and what the other operations of an
engine leave as it is. -/
namespace Bookkeeping

/-- The answers of a save: the posting is stored, its key is taken, or the save fails. -/
inductive Kept (b : Book) (p : Posting) : Except Error SaveOutcome → Book → Prop where
  | saved (h : b.hasKey p.key = false) : Kept b p (.ok .saved)
      ⟨b.transactions ++ [p.transaction], b.entries ++ p.entries, b.keys ++ [p.key]⟩
  | duplicate (h : b.hasKey p.key = true) : Kept b p (.ok .duplicateKey) b
  | failed (error : Error) : Kept b p (.error error) b

theorem Book.insert_kept (b : Book) (p : Posting) :
    Kept b p (.ok (b.insert p).1) (b.insert p).2 := by
  cases h : b.hasKey p.key with
  | true =>
    rw [insert_of_hasKey h]
    exact .duplicate h
  | false =>
    rw [insert_of_not_hasKey h]
    exact .saved h

theorem Journal.Store.rollback_book (s : Store) (device : Device) (file : List UInt8)
    (reason : String) :
    (s.rollback device file reason).store.book = s.book ∧
      ∃ error, (s.rollback device file reason).result = .error error := by
  unfold rollback
  cases device.setLength file s.length <;> exact ⟨rfl, _, rfl⟩

theorem Journal.Store.commit_kept (s : Store) (device : Device) (file : List UInt8) (p : Posting) :
    Kept s.book p (s.commit device file p).result (s.commit device file p).store.book := by
  unfold commit
  split
  · exact .failed _
  · have hkept := s.book.insert_kept p
    cases hinsert : s.book.insert p with
    | mk answer book =>
      rw [hinsert] at hkept
      cases hkept with
      | duplicate hk => exact .duplicate hk
      | saved hk =>
        simp only
        cases device.write file s.cursor (encodeLine p) with
        | done => exact .saved hk
        | failed stored reason =>
          obtain ⟨hbook, error, herror⟩ := rollback_book
            { s with cursor := s.cursor + stored } device
            (overwritten file (s.cursor + stored - stored) ((encodeLine p).take stored)) reason
          simp only [hbook, herror]
          exact .failed error

theorem Store.save_kept (store : Store) (device : Journal.Device) (p : Posting) :
    Kept store.book p (store.save device p).result (store.save device p).store.book := by
  cases store with
  | memory book => exact book.insert_kept p
  | journal store file => exact store.commit_kept device file p

namespace Engine

section Frame

variable (e : Engine) (i : Nat) (t : Task) (turn : Turn) (w : Owner) (account : String)
  (outcome : Outcome) (notice : Completion) (s : Surroundings)

@[simp] theorem store_start (r : PostingRequest) : (e.start r).store = e.store := rfl

theorem awaken_eq : ∃ ready, e.awaken turn = { e with ready } := by
  unfold awaken
  split
  · exact ⟨e.ready, rfl⟩
  · exact ⟨_, rfl⟩

theorem leaveLock_eq : ∃ ready,
    e.leaveLock w account = { e with locks := e.locks.leave account w, ready } := by
  unfold leaveLock
  cases e.locks.successor? account w with
  | none => exact ⟨e.ready, rfl⟩
  | some next =>
    cases next with
    | task i => exact awaken_eq ..
    | guard n => exact ⟨e.ready, rfl⟩

theorem finish_eq : ∃ locks ready, e.finish i t outcome =
    { e with
      tasks := e.tasks.modify i fun t => { t with stage := .finished outcome }, locks, ready } := by
  obtain ⟨ready, hfirst⟩ := e.leaveLock_eq (.task i) t.firstAccount
  unfold finish
  rw [hfirst]
  cases t.secondAccount? with
  | none => exact ⟨_, _, rfl⟩
  | some account =>
    obtain ⟨ready', hsecond⟩ := leaveLock_eq
      { e with locks := e.locks.leave t.firstAccount (.task i), ready } (.task i) account
    simp only [hsecond]
    exact ⟨_, _, rfl⟩

theorem notify_eq : ∃ notifier ready log,
    e.notify notice = { e with notifier, ready, log } := by
  unfold notify
  cases e.notifier with
  | absent => exact ⟨_, _, _, rfl⟩
  | stopping => exact ⟨_, _, _, rfl⟩
  | stopped => exact ⟨_, _, _, rfl⟩
  | running p waiting =>
    obtain ⟨ready, hawake⟩ := awaken_eq
      { e with notifier := .running p (waiting ++ [notice]) } .notifier
    exact ⟨_, ready, _, hawake⟩

theorem publish_eq (p : Publisher) : ∃ kept log,
    publish s p e notice = { e with kept, log } := by
  unfold publish
  cases p with
  | reporting => exact ⟨_, _, rfl⟩
  | keeping => cases s.faults.publish <;> exact ⟨_, _, rfl⟩

theorem foldl_publish_eq (p : Publisher) (notices : List Completion) : ∃ kept log,
    notices.foldl (publish s p) e = { e with kept, log } := by
  induction notices generalizing e with
  | nil => exact ⟨_, _, rfl⟩
  | cons notice notices ih =>
    obtain ⟨kept, log, hpublish⟩ := e.publish_eq notice s p
    rw [List.foldl_cons, hpublish]
    exact ih _

theorem deliver_eq : ∃ notifier ready kept log,
    e.deliver s = { e with notifier, ready, kept, log } := by
  unfold deliver
  simp only [withdraw]
  cases e.notifier with
  | running p waiting =>
    obtain ⟨kept, log, hpublish⟩ := foldl_publish_eq
      { e with ready := e.ready.filter (· != .notifier), notifier := .running p [] } s p waiting
    exact ⟨_, _, kept, log, hpublish⟩
  | absent => exact ⟨_, _, _, _, rfl⟩
  | stopping => exact ⟨_, _, _, _, rfl⟩
  | stopped => exact ⟨_, _, _, _, rfl⟩

@[simp] theorem store_awaken : (e.awaken turn).store = e.store := by
  obtain ⟨_, h⟩ := e.awaken_eq turn
  rw [h]

@[simp] theorem tasks_awaken : (e.awaken turn).tasks = e.tasks := by
  obtain ⟨_, h⟩ := e.awaken_eq turn
  rw [h]

@[simp] theorem store_leaveLock : (e.leaveLock w account).store = e.store := by
  obtain ⟨_, h⟩ := e.leaveLock_eq w account
  rw [h]

@[simp] theorem tasks_leaveLock : (e.leaveLock w account).tasks = e.tasks := by
  obtain ⟨_, h⟩ := e.leaveLock_eq w account
  rw [h]

@[simp] theorem store_finish : (e.finish i t outcome).store = e.store := by
  obtain ⟨_, _, h⟩ := e.finish_eq i t outcome
  rw [h]

theorem book_finish : (e.finish i t outcome).book = e.book :=
  congrArg Store.book (e.store_finish i t outcome)

@[simp] theorem tasks_finish : (e.finish i t outcome).tasks =
    e.tasks.modify i fun t => { t with stage := .finished outcome } := by
  obtain ⟨_, _, h⟩ := e.finish_eq i t outcome
  rw [h]

theorem deliver_frame : (e.deliver s).store = e.store ∧ (e.deliver s).tasks = e.tasks := by
  obtain ⟨_, _, _, _, h⟩ := e.deliver_eq s
  rw [h]
  exact ⟨rfl, rfl⟩

end Frame

end Engine

/-- The outcome of a task whose transaction was given to the store. -/
def Outcome.ofSave (transaction : Transaction) : Except Error SaveOutcome → Outcome
  | .ok .saved => .posted transaction
  | .ok .duplicateKey => .duplicate
  | .error error => .failed error

@[simp] theorem Task.outcome?_eq_some {t : Task} {outcome : Outcome} :
    t.outcome? = some outcome ↔ t.stage = .finished outcome := by
  unfold outcome?
  cases t.stage <;> simp

def Stage.isLocking : Stage → Bool
  | .firstLock | .awaitingFirst | .secondLock | .awaitingSecond => true
  | _ => false

/-- What a step makes of a task and of the store. -/
inductive Advance (store : Store) (t : Task) : Stage → Store → Prop where
  | checked (h : t.stage = .preCheck) (hkey : Text.blank t.request.key = false) :
    Advance store t .validation store
  | known (h : t.stage = .preCheck) (hkey : store.book.hasKey t.request.key = true) :
    Advance store t (.finished .duplicate) store
  | failed (error : Error) : Advance store t (.finished (.failed error)) store
  | validated (h : t.stage = .validation) (hvalid : t.request.validate = .ok ()) :
    Advance store t .firstLock store
  | locking (h : t.stage.isLocking = true) {stage : Stage}
    (hstage : stage.isLocking = true ∨ stage = .saving) : Advance store t stage store
  | panicked : Advance store t (.finished .panicked) store
  | saved (h : t.stage = .saving) (device : Journal.Device) (id : Uuid) (now : Moment) :
    Advance store t
      (.finished (.ofSave (t.request.toTransaction id now)
        (store.save device (t.request.toTransaction id now).posting).result))
      (store.save device (t.request.toTransaction id now).posting).store

namespace Engine

variable {s : Surroundings} {e e' : Engine} {i : Nat} {t : Task}

theorem hasKey_eq_ok_true {key : String} (h : e.hasKey s key = .ok true) :
    e.book.hasKey key = true := by
  unfold hasKey read at h
  cases hread : s.faults.read with
  | some reason => simp [hread, Functor.map, Except.map] at h
  | none =>
    simp only [hread, Functor.map, Except.map, Except.ok.injEq, Bool.and_eq_true] at h
    exact h.2

/-- A save that reaches the store changes nothing but the store and the log. -/
theorem save_eq (p : Posting) (h : s.faults.save = none) : ∃ log, e.save s p =
    ((e.store.save s.device p).result,
      { e with store := (e.store.save s.device p).store, log }) := by
  unfold save
  rw [h]
  cases hfailure : (e.store.save s.device p).appendFailure with
  | none => exact ⟨e.log, by simp [hfailure]⟩
  | some reason => exact ⟨e.log ++ [.appendFailed reason], by simp [hfailure, logged]⟩

theorem save_snd_eq (e : Engine) (s : Surroundings) (p : Posting) :
    ∃ store log, (e.save s p).2 = { e with store, log } := by
  cases hsave : s.faults.save with
  | some reason => exact ⟨e.store, e.log, by simp only [save, hsave]⟩
  | none =>
    obtain ⟨log, heq⟩ := save_eq (e := e) p hsave
    exact ⟨_, log, by rw [heq]⟩

theorem save_kept (e : Engine) (s : Surroundings) (p : Posting) :
    Kept e.book p (e.save s p).1 (e.save s p).2.book := by
  cases hsave : s.faults.save with
  | some reason =>
    simp only [save, hsave]
    exact .failed _
  | none =>
    obtain ⟨log, heq⟩ := save_eq (e := e) p hsave
    rw [heq]
    exact e.store.save_kept s.device p

def counted (e : Engine) : Engine := { e with made := e.made + 1 }

/-- What follows the answer of the store: a notice, nothing, or a report. -/
def announce (e : Engine) (now : Moment) (tx : Transaction) :
    Except Error SaveOutcome → Engine
  | .ok .saved => e.notify (tx.completion now)
  | .ok .duplicateKey => e
  | .error error => e.logged (.saveFailed error)

section Frame

variable (e : Engine) (now : Moment) (tx : Transaction) (answer : Except Error SaveOutcome)

theorem announce_eq : ∃ notifier ready log,
    e.announce now tx answer = { e with notifier, ready, log } := by
  cases answer with
  | error error => exact ⟨_, _, _, rfl⟩
  | ok outcome =>
    cases outcome with
    | saved => exact e.notify_eq _
    | duplicateKey => exact ⟨_, _, _, rfl⟩

theorem tasks_announce : (e.announce now tx answer).tasks = e.tasks := by
  obtain ⟨_, _, _, h⟩ := e.announce_eq now tx answer
  rw [h]

theorem store_announce : (e.announce now tx answer).store = e.store := by
  obtain ⟨_, _, _, h⟩ := e.announce_eq now tx answer
  rw [h]

theorem book_announce : (e.announce now tx answer).book = e.book :=
  congrArg Store.book (e.store_announce now tx answer)

end Frame

theorem stepSave_eq {tx : Transaction} {now : Moment} (hnow : (s.fresh e.made).2 = now)
    (htx : t.request.toTransaction (s.fresh e.made).1 now = tx) : stepSave s e i t =
      if s.faults.panics then e.counted.finish i t .panicked
      else
        let r := e.counted.save s tx.posting
        (r.2.announce now tx r.1).finish i t (.ofSave tx r.1) := by
  subst hnow htx
  unfold stepSave
  cases s.fresh e.made with
  | mk id now =>
    simp only
    split
    · rfl
    · unfold counted
      cases save { e with made := e.made + 1 } s (t.request.toTransaction id now).posting with
      | mk answer e' =>
        cases answer with
        | error error => rfl
        | ok outcome => cases outcome <;> rfl

theorem finish_advance {outcome : Outcome}
    (h : Advance e.store t (.finished outcome) e.store) :
    ∃ stage, (e.finish i t outcome).tasks = e.tasks.modify i (fun t => { t with stage }) ∧
      Advance e.store t stage (e.finish i t outcome).store := by
  refine ⟨_, tasks_finish .., ?_⟩
  rwa [store_finish]

theorem stepSave_advance (h : t.stage = .saving) :
    ∃ stage, (stepSave s e i t).tasks = e.tasks.modify i (fun t => { t with stage }) ∧
      Advance e.store t stage (stepSave s e i t).store := by
  rw [stepSave_eq rfl rfl]
  split
  · exact finish_advance (e := e.counted) .panicked
  · cases hsave : s.faults.save with
    | some reason =>
      simp only [save, hsave]
      exact finish_advance (e := e.counted.logged (.saveFailed _)) (.failed _)
    | none =>
      obtain ⟨log, heq⟩ := save_eq (e := e.counted)
        (t.request.toTransaction (s.fresh e.made).1 (s.fresh e.made).2).posting hsave
      simp only [heq]
      refine ⟨_, (tasks_finish ..).trans (congrArg _ (tasks_announce ..)), ?_⟩
      rw [store_finish, store_announce]
      exact .saved h s.device _ _

/-- What a step makes of an engine: a task is refused, goes on, asks for a lock, gets it or
saves. -/
inductive Stepped (s : Surroundings) (e : Engine) (i : Nat) (t : Task) : Engine → Prop where
  | keyless (h : t.stage = .preCheck) (hblank : Text.blank t.request.key = true) :
    Stepped s e i t (e.finish i t (.failed .missingKey))
  | unread {error : Error} (h : t.stage = .preCheck)
    (hread : e.hasKey s t.request.key = .error error) :
    Stepped s e i t (e.finish i t (.failed error))
  | known (h : t.stage = .preCheck) (hread : e.hasKey s t.request.key = .ok true) :
    Stepped s e i t (e.finish i t .duplicate)
  | checked (h : t.stage = .preCheck) (hkey : Text.blank t.request.key = false)
    (hread : e.hasKey s t.request.key = .ok false) : Stepped s e i t (e.setStage i .validation)
  | invalid {error : Error} (h : t.stage = .validation)
    (hinvalid : t.request.validate = .error error) : Stepped s e i t (e.finish i t (.failed error))
  | validated (h : t.stage = .validation) (hvalid : t.request.validate = .ok ()) :
    Stepped s e i t (e.setStage i .firstLock)
  | askedFirst (h : t.stage = .firstLock) : Stepped s e i t
    ({ e with locks := e.locks.request t.firstAccount (.task i) }.setStage i .awaitingFirst)
  | gotFirst (h : t.stage = .awaitingFirst)
    (hheld : e.locks.isHeldBy t.firstAccount (.task i) = true) : Stepped s e i t
    (e.setStage i (if t.secondAccount?.isSome then .secondLock else .saving))
  | askedSecond {account : String} (h : t.stage = .secondLock)
    (hsecond : t.secondAccount? = some account) : Stepped s e i t
    ({ e with locks := e.locks.request account (.task i) }.setStage i .awaitingSecond)
  | gotSecond {account : String} (h : t.stage = .awaitingSecond)
    (hsecond : t.secondAccount? = some account)
    (hheld : e.locks.isHeldBy account (.task i) = true) : Stepped s e i t (e.setStage i .saving)
  | single (h : t.stage = .secondLock ∨ t.stage = .awaitingSecond)
    (hsecond : t.secondAccount? = none) : Stepped s e i t (e.setStage i .saving)
  | saved (h : t.stage = .saving) : Stepped s e i t (stepSave s e i t)

theorem step_stepped (htask : e.tasks[i]? = some t) (h : e.step s i = some e') :
    Stepped s e i t e' := by
  cases hstage : t.stage with
  | finished outcome => simp [step, htask, hstage] at h
  | preCheck =>
    simp only [step, htask, hstage] at h
    split at h
    · next hblank =>
      cases h
      exact .keyless hstage hblank
    · next hkey =>
      split at h
      · next hread =>
        cases h
        exact .unread hstage hread
      · next hread =>
        cases h
        exact .known hstage hread
      · next hread =>
        cases h
        exact .checked hstage (Bool.eq_false_of_not_eq_true hkey) hread
  | validation =>
    simp only [step, htask, hstage] at h
    split at h
    · next hinvalid =>
      cases h
      exact .invalid hstage hinvalid
    · next hvalid =>
      cases h
      exact .validated hstage hvalid
  | firstLock =>
    simp only [step, htask, hstage] at h
    cases h
    exact .askedFirst hstage
  | awaitingFirst =>
    simp only [step, htask, hstage] at h
    split at h
    · next hheld =>
      cases h
      exact .gotFirst hstage hheld
    · cases h
  | secondLock =>
    simp only [step, htask, hstage] at h
    split at h
    · next hsecond =>
      cases h
      exact .askedSecond hstage hsecond
    · next hsecond =>
      cases h
      exact .single (.inl hstage) hsecond
  | awaitingSecond =>
    simp only [step, htask, hstage] at h
    split at h
    · next hsecond =>
      split at h
      · next hheld =>
        cases h
        exact .gotSecond hstage hsecond hheld
      · cases h
    · next hsecond =>
      cases h
      exact .single (.inr hstage) hsecond
  | saving =>
    simp only [step, htask, hstage] at h
    cases h
    exact .saved hstage

theorem Stepped.opened (h : Stepped s e i t e') : t.isFinished = false := by
  unfold Task.isFinished
  cases h with
  | single h => cases h with
    | inl h => rw [h]
    | inr h => rw [h]
  | _ => simp only [*]

theorem Stepped.advance (h : Stepped s e i t e') : ∃ stage,
    e'.tasks = e.tasks.modify i (fun t => { t with stage }) ∧ Advance e.store t stage e'.store := by
  cases h with
  | keyless => exact finish_advance (.failed _)
  | unread => exact finish_advance (.failed _)
  | known h hread => exact finish_advance (.known h (hasKey_eq_ok_true hread))
  | checked h hkey hread => exact ⟨_, rfl, .checked h hkey⟩
  | invalid => exact finish_advance (.failed _)
  | validated h hvalid => exact ⟨_, rfl, .validated h hvalid⟩
  | askedFirst h => exact ⟨_, rfl, .locking (by rw [h]; rfl) (.inl rfl)⟩
  | gotFirst h =>
    refine ⟨_, rfl, .locking (by rw [h]; rfl) ?_⟩
    cases t.secondAccount? with
    | none => exact .inr rfl
    | some account => exact .inl rfl
  | askedSecond h => exact ⟨_, rfl, .locking (by rw [h]; rfl) (.inl rfl)⟩
  | gotSecond h => exact ⟨_, rfl, .locking (by rw [h]; rfl) (.inr rfl)⟩
  | single h =>
    refine ⟨_, rfl, .locking ?_ (.inr rfl)⟩
    obtain h | h := h <;> rw [h] <;> rfl
  | saved h => exact stepSave_advance h

theorem step_advance (h : e.step s i = some e') : ∃ t stage, e.tasks[i]? = some t ∧
    t.isFinished = false ∧ e'.tasks = e.tasks.modify i (fun t => { t with stage }) ∧
    Advance e.store t stage e'.store := by
  cases htask : e.tasks[i]? with
  | none => simp [step, htask] at h
  | some t =>
    have hstepped := step_stepped htask h
    obtain ⟨stage, hadvance⟩ := hstepped.advance
    exact ⟨t, stage, rfl, hstepped.opened, hadvance⟩

end Engine

end Bookkeeping
