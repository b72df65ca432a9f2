import Bookkeeping.Engine.Replay
import Bookkeeping.Proofs.Engine.Alone

/-! Batches and replays that run their postings in the order of the requests: each posting comes to
its end before the next one starts, so that they are postings one after the other. -/
namespace Bookkeeping

namespace Store

/-- The requests are posted one after the other, each under some identifier and at some time. -/
inductive Posts (device : Journal.Device) :
    Store → List PostingRequest → List Outcome → Store → Prop where
  | nil (store : Store) : Posts device store [] [] store
  | cons {store store' : Store} {rs : List PostingRequest} {os : List Outcome}
    (r : PostingRequest) (id : Uuid) (now : Moment)
    (hrest : Posts device (store.post device r id now).2 rs os store') :
    Posts device store (r :: rs) ((store.post device r id now).1 :: os) store'

variable {device : Journal.Device} {store store' store'' : Store} {rs rs' : List PostingRequest}
  {os os' : List Outcome}

theorem Posts.append (h : Posts device store rs os store')
    (h' : Posts device store' rs' os' store'') :
    Posts device store (rs ++ rs') (os ++ os') store'' := by
  induction h with
  | nil store => exact h'
  | cons r id now _ ih => exact .cons r id now (ih h')

theorem Posts.length_eq (h : Posts device store rs os store') : os.length = rs.length := by
  induction h with
  | nil store => rfl
  | cons r id now _ ih => rw [List.length_cons, List.length_cons, ih]

theorem post_ne_panicked (store : Store) (device : Journal.Device) (r : PostingRequest) (id : Uuid)
    (now : Moment) : (store.post device r id now).1 ≠ .panicked := by
  unfold post
  split
  · simp
  · split
    · simp
    · cases r.validate with
      | error error => simp
      | ok _ =>
        simp only
        cases (store.save device (r.toTransaction id now).posting).result with
        | error error => simp [Outcome.ofSave]
        | ok answer => cases answer <;> simp [Outcome.ofSave]

theorem Posts.ne_panicked (h : Posts device store rs os store') : ∀ o ∈ os, o ≠ .panicked := by
  induction h with
  | nil store => simp
  | cons r id now _ ih =>
    rw [List.forall_mem_cons]
    exact ⟨post_ne_panicked _ device r id now, ih⟩

end Store

theorem Engine.foldl_logged {α : Type} {f : Engine → α → Engine}
    (hf : ∀ e a, ∃ log, f e a = { e with log }) (as : List α) (e : Engine) :
    ∃ log, as.foldl f e = { e with log } := by
  induction as generalizing e with
  | nil => exact ⟨e.log, rfl⟩
  | cons a as ih =>
    obtain ⟨log, hfirst⟩ := hf e a
    obtain ⟨log', hrest⟩ := ih (f e a)
    exact ⟨log', by rw [List.foldl_cons, hrest, hfirst]⟩

namespace Batch

open Engine (Steps Ended Quiet)

variable {s : Surroundings} {b : Batch} {e e' : Engine} {i m n : Nat} {outcome : Outcome}

theorem runTaskFor_of_step (h : b.step s i = none) (m : Nat) : runTaskFor s m b i = b := by
  cases m with
  | zero => rfl
  | succ m => rw [runTaskFor, h]

theorem step_of_outcome (hadmitted : i ∉ b.admitted) (h : b.engine.outcome? i = some outcome) :
    b.step s i = none := by
  rw [step, if_neg hadmitted, if_pos (by simp [h])]

theorem runTaskFor_of_steps (h : Steps s i n e e') (hopen : e.outcome? i = none)
    (hend : e'.outcome? i = some outcome) (hle : n ≤ m) :
    runTaskFor s m { b with engine := e, admitted := [i], queue := [] } i =
      { b with engine := e', admitted := [], queue := [] } := by
  -- all steps but the last leave the task open, and with the last it gives its permit back
  induction h generalizing m with
  | refl e =>
    rw [hopen] at hend
    cases hend
  | @step n e e₁ e' hstep hrest ih =>
    cases m with
    | zero => cases hle
    | succ m =>
      cases hout : e₁.outcome? i with
      | none =>
        have hnext : step s { b with engine := e, admitted := [i], queue := [] } i =
            some { b with engine := e₁, admitted := [i], queue := [] } := by
          simp [step, hstep, hout]
        rw [runTaskFor, hnext]
        exact ih hout hend (Nat.le_of_succ_le_succ hle)
      | some outcome' =>
        have hnext : step s { b with engine := e, admitted := [i], queue := [] } i =
            some { b with engine := e₁, admitted := [], queue := [] } := by
          simp [step, hstep, hout, release]
        have hlast : e₁ = e' := by
          cases hrest with
          | refl => rfl
          | step hstep' => simp [Engine.step_of_outcome hout] at hstep'
        subst hlast
        rw [runTaskFor, hnext]
        exact runTaskFor_of_step (step_of_outcome List.not_mem_nil hout) m

structure Idle (b : Batch) : Prop where
  admitted : b.admitted = []
  queue : b.queue = []
  permits : 0 < b.permits

theorem runTask_idle (hidle : b.Idle) (hquiet : b.engine.Quiet) (hmild : s.faults.Mild)
    (hhas : b.has i = true) {r : PostingRequest}
    (htask : b.engine.tasks[i]? = some { request := r }) :
    ∃ id now e', b.runTask s i = { b with engine := e' } ∧
      Ended b.engine e' i (b.engine.store.post s.device r id now).1
        (b.engine.store.post s.device r id now).2 := by
  cases hfresh : s.fresh b.engine.made with
  | mk id now =>
    obtain ⟨n, e', hn, hsteps, hended⟩ := hquiet.steps hmild htask hfresh
    have hopen : b.engine.outcome? i = none := by simp [Engine.outcome?, htask, Task.outcome?]
    have hasks : b.step s i = some { b with admitted := [i] } := by
      simp [step, hidle.admitted, hidle.queue, hhas, hopen, hidle.permits]
    refine ⟨id, now, e'.deliver s, ?_, ?_⟩
    · have hrun : runTaskFor s 9 b i = { b with engine := e' } := by
        have hruns := runTaskFor_of_steps (b := b) hsteps hopen (hended.outcome? htask)
          (show n ≤ 8 by omega)
        obtain ⟨engine, first, size, permits, admitted, queue⟩ := b
        obtain rfl : admitted = [] := hidle.admitted
        obtain rfl : queue = [] := hidle.queue
        rw [runTaskFor, hasks]
        exact hruns
      rw [runTask, hrun]
    · exact ⟨(e'.deliver_frame s).2.trans hended.tasks, (e'.deliver_frame s).1.trans hended.store,
        hended.quiet.deliver s⟩

def ended (r : PostingRequest) (outcome : Outcome) : Task :=
  { request := r, stage := .finished outcome }

theorem foldl_runTask (hmild : s.faults.Mild) {done : List Task} {rs : List PostingRequest}
    (hidle : b.Idle) (hquiet : b.engine.Quiet)
    (htasks : b.engine.tasks = done ++ rs.map ({ request := · }))
    (hfirst : b.first ≤ done.length) (hsize : done.length + rs.length ≤ b.first + b.size) :
    ∃ os e', Store.Posts s.device b.engine.store rs os e'.store ∧
      (List.range' done.length rs.length).foldl (runTask s) b = { b with engine := e' } ∧
      e'.Quiet ∧ e'.tasks = done ++ List.zipWith ended rs os := by
  -- what is done grows by one task at a time, whose number is how many there were before
  induction rs generalizing b done with
  | nil => exact ⟨[], b.engine, .nil _, rfl, hquiet, by simpa using htasks⟩
  | cons r rs ih =>
    have htask : b.engine.tasks[done.length]? = some { request := r } := by simp [htasks]
    have hhas : b.has done.length = true := by
      rw [List.length_cons] at hsize
      simp only [has, Bool.and_eq_true, decide_eq_true_eq]
      omega
    obtain ⟨id, now, e₁, hrun, hended⟩ := runTask_idle hidle hquiet hmild hhas htask
    generalize hpost : b.engine.store.post s.device r id now = posted at hended
    have htasks₁ : e₁.tasks = (done ++ [ended r posted.1]) ++ rs.map ({ request := · }) := by
      rw [hended.tasks, htasks, List.modify_eq_take_drop]
      simp [ended]
    obtain ⟨os, e', hposts, hfold, hquiet', htasks'⟩ := ih
      (b := { b with engine := e₁ }) ⟨hidle.admitted, hidle.queue, hidle.permits⟩ hended.quiet
      htasks₁ (by simp; omega) (by simp at hsize ⊢; omega)
    refine ⟨posted.1 :: os, e', ?_, ?_, hquiet', by simpa using htasks'⟩
    · rw [hended.store] at hposts
      subst hpost
      exact .cons r id now hposts
    · rw [List.length_cons, List.range'_succ, List.foldl_cons, hrun]
      simpa using hfold

theorem filterMap_range'_getElem? {α β : Type} (f : α → Option β) (done l : List α) :
    (List.range' done.length l.length).filterMap (fun i => (done ++ l)[i]?.bind f) =
      l.filterMap f := by
  induction l generalizing done with
  | nil => rfl
  | cons a l ih =>
    have := ih (done ++ [a])
    simp only [List.length_append, List.length_singleton, List.append_assoc,
      List.singleton_append] at this
    rw [List.length_cons, List.range'_succ, List.filterMap_cons, List.filterMap_cons, this]
    simp

def result? (t : Task) : Option (PostingRequest × Outcome) :=
  match t.outcome? with
  | none | some .panicked => none
  | some outcome => some (t.request, outcome)

theorem results_eq (b : Batch) :
    b.results = b.members.filterMap fun i => b.engine.tasks[i]?.bind result? := by
  unfold results
  congr 1
  funext i
  cases b.engine.tasks[i]? <;> rfl

theorem filterMap_result?_zipWith {rs : List PostingRequest} {os : List Outcome}
    (h : ∀ o ∈ os, o ≠ .panicked) : (List.zipWith ended rs os).filterMap result? = rs.zip os := by
  induction rs generalizing os with
  | nil => rfl
  | cons r rs ih =>
    cases os with
    | nil => rfl
    | cons o os =>
      rw [List.forall_mem_cons] at h
      have hresult : result? (ended r o) = some (r, o) := by
        cases o <;> first | rfl | exact absurd rfl h.1
      rw [List.zipWith_cons_cons, List.filterMap_cons_some hresult, ih h.2, List.zip_cons_cons]

theorem close_eq (b : Batch) : ∃ log, b.close = { b.engine with log } := by
  refine Engine.foldl_logged (fun e i => ?_) b.members b.engine
  split
  · exact ⟨_, rfl⟩
  · exact ⟨e.log, rfl⟩

theorem close_frame (b : Batch) :
    b.close.store = b.engine.store ∧ b.close.locks = b.engine.locks := by
  obtain ⟨log, h⟩ := b.close_eq
  rw [h]
  exact ⟨rfl, rfl⟩

end Batch

namespace Engine

variable {s : Surroundings} {e : Engine}

theorem foldl_start (rs : List PostingRequest) (e : Engine) : rs.foldl start e =
    { e with tasks := e.tasks ++ rs.map ({ request := · }) } := by
  induction rs generalizing e with
  | nil => simp
  | cons r rs ih =>
    rw [List.foldl_cons, ih]
    simp [start]

theorem Quiet.run_batch (h : e.Quiet) (hmild : s.faults.Mild) (rs : List PostingRequest)
    (permits : Nat) : ∃ os e', Store.Posts s.device e.store rs os e'.store ∧
      (Batch.start e rs permits).run s = { Batch.start e rs permits with engine := e' } ∧
      e'.Quiet ∧ e'.tasks = e.tasks ++ List.zipWith Batch.ended rs os := by
  have hstarted : (Batch.start e rs permits).engine =
      { e with tasks := e.tasks ++ rs.map ({ request := · }) } := foldl_start rs e
  obtain ⟨hstore, htasks⟩ := (Batch.start e rs permits).engine.deliver_frame s
  have hquiet : (Batch.start e rs permits).engine.Quiet := hstarted ▸ h
  rw [hstarted] at hstore htasks
  obtain ⟨os, e', hposts, hfold, hquiet', htasks'⟩ := Batch.foldl_runTask
    (b := { Batch.start e rs permits with engine := (Batch.start e rs permits).engine.deliver s })
    hmild ⟨rfl, rfl, by simp [Batch.start]⟩ (hquiet.deliver s) (hstarted ▸ htasks) (Nat.le_refl _)
    (Nat.le_refl _)
  exact ⟨os, e', by simpa [hstarted, hstore] using hposts, hfold, hquiet', htasks'⟩

theorem Quiet.process (h : e.Quiet) (hmild : s.faults.Mild) (rs : List PostingRequest)
    (permits : Nat) : ∃ os, Store.Posts s.device e.store rs os (e.process s rs permits).1.store ∧
      (e.process s rs permits).2 = rs.zip os ∧ (e.process s rs permits).1.Quiet := by
  obtain ⟨os, e', hposts, hrun, hquiet, htasks⟩ := h.run_batch hmild rs permits
  have hlength : (List.zipWith Batch.ended rs os).length = rs.length := by
    simp [hposts.length_eq]
  unfold Engine.process
  simp only [hrun]
  refine ⟨os, ?_, ?_, ?_⟩
  · rw [(Batch.close_frame _).1]
    exact hposts
  · rw [Batch.results_eq, Batch.members]
    simp only [htasks]
    rw [← Batch.filterMap_result?_zipWith hposts.ne_panicked,
      ← Batch.filterMap_range'_getElem? Batch.result? e.tasks, hlength]
    rfl
  · rw [Quiet, (Batch.close_frame _).2]
    exact hquiet

end Engine

namespace Csv

def requestsOf (rows : List (Except RowFault PostingRequest)) : List PostingRequest :=
  rows.filterMap (·.toOption)

theorem requests_takeRequests (n : Nat) (rows : List (Except RowFault PostingRequest)) :
    (takeRequests n rows).1.requests ++ requestsOf (takeRequests n rows).2 = requestsOf rows := by
  fun_induction takeRequests n rows with
  | case1 => rfl
  | case2 => rfl
  | case3 n r rows b rest hb ih =>
    rw [hb] at ih
    simpa [requestsOf, Except.toOption] using ih
  | case4 n e rows b rest hb ih =>
    rw [hb] at ih
    simpa [requestsOf, Except.toOption] using ih

theorem requestsOf_of_takeRequests_eq_nil {n : Nat} {rows : List (Except RowFault PostingRequest)}
    (hn : n ≠ 0) (h : (takeRequests n rows).1.requests = []) : requestsOf rows = [] := by
  fun_induction takeRequests n rows with
  | case1 => exact absurd rfl hn
  | case2 => rfl
  | case3 => cases h
  | case4 n e rows b rest hb ih =>
    rw [hb] at ih
    exact ih hn h

def Reader.requests (r : Reader) : List PostingRequest := requestsOf r.rows

theorem Reader.requests_readBatch (r : Reader) (size : Nat) :
    (r.readBatch size).1.requests ++ (r.readBatch size).2.requests = r.requests := by
  unfold readBatch
  split
  · rfl
  · exact requests_takeRequests size r.rows

theorem Reader.requests_eq_nil {r : Reader} {size : Nat} (hsize : size ≠ 0)
    (h : (r.readBatch size).1.requests = []) : r.requests = [] := by
  rw [readBatch, if_neg hsize] at h
  exact requestsOf_of_takeRequests_eq_nil hsize h

end Csv

namespace Engine

variable {s : Surroundings} {e e' : Engine}

theorem skipped_eq (faults : List Csv.RowFault) (e : Engine) : ∃ log,
    faults.foldl (fun e fault => e.logged (.rowSkipped fault)) e = { e with log } :=
  foldl_logged (fun _ _ => ⟨_, rfl⟩) faults e

theorem skipped_frame (faults : List Csv.RowFault) (e : Engine) :
    (faults.foldl (fun e fault => e.logged (.rowSkipped fault)) e).store = e.store ∧
      (faults.foldl (fun e fault => e.logged (.rowSkipped fault)) e).locks = e.locks := by
  obtain ⟨log, h⟩ := skipped_eq faults e
  rw [h]
  exact ⟨rfl, rfl⟩

theorem recorded_eq (results : List (PostingRequest × Outcome)) (acc : Engine × ReplaySummary) :
    ∃ log, results.foldl recordResult acc =
      ({ acc.1 with log }, (results.map (·.2)).foldl ReplaySummary.record acc.2) := by
  induction results generalizing acc with
  | nil => exact ⟨acc.1.log, rfl⟩
  | cons r results ih =>
    obtain ⟨log, hrest⟩ := ih (recordResult acc r)
    have hfirst : ∃ log, (recordResult acc r).1 = { acc.1 with log } := by
      unfold recordResult
      split
      · split <;> exact ⟨_, rfl⟩
      · exact ⟨_, rfl⟩
    obtain ⟨log', hfirst⟩ := hfirst
    refine ⟨log, ?_⟩
    rw [List.foldl_cons, hrest, hfirst]
    rfl

/-- What is posted of a reader's rows are its requests, one after the other, and what is counted is
what became of them. -/
theorem Quiet.replayRows (h : e.Quiet) (hmild : s.faults.Mild) (size permits : Nat)
    (reader : Csv.Reader) (summary : ReplaySummary) :
    ∃ os malformed,
      Store.Posts s.device e.store (if size = 0 then [] else reader.requests) os
        (e.replayRows s size permits reader summary).1.store ∧
      (e.replayRows s size permits reader summary).2 =
        { os.foldl ReplaySummary.record summary with malformed } ∧
      (e.replayRows s size permits reader summary).1.Quiet := by
  fun_induction Engine.replayRows s size permits e reader summary with
  | case1 e reader summary b e' hempty =>
    obtain ⟨hstore, hlocks⟩ : e'.store = e.store ∧ e'.locks = e.locks :=
      skipped_frame b.1.faults e
    refine ⟨[], _, ?_, rfl, ?_⟩
    · have hnone : (if size = 0 then [] else reader.requests) = [] := by
        split
        · rfl
        · next hsize => exact Csv.Reader.requests_eq_nil hsize hempty
      rw [hnone, hstore]
      exact .nil e.store
    · rw [Quiet, hlocks]
      exact h
  | case2 e reader summary b e' hnonempty done acc ih =>
    obtain ⟨hstore, hlocks⟩ : e'.store = e.store ∧ e'.locks = e.locks :=
      skipped_frame b.1.faults e
    have hquiet : e'.Quiet := by
      rw [Quiet, hlocks]
      exact h
    obtain ⟨os, hposts, hresults, hdone⟩ := hquiet.process hmild b.1.requests permits
    obtain ⟨log, hrecorded⟩ := recorded_eq done.2 (done.1, summary)
    have hstore' : acc.1.store = done.1.store := congrArg (·.1.store) hrecorded
    have hlocks' : acc.1.locks = done.1.locks := congrArg (·.1.locks) hrecorded
    have hsummary : acc.2 = (done.2.map (·.2)).foldl ReplaySummary.record summary :=
      congrArg Prod.snd hrecorded
    have hrecorded : acc.1.Quiet := by
      rw [Quiet, hlocks']
      exact hdone
    obtain ⟨os', malformed, hposts', hsummary', hquiet'⟩ := ih hrecorded
    have hsize : size ≠ 0 := by
      rintro rfl
      exact hnonempty rfl
    rw [if_neg hsize] at hposts' ⊢
    refine ⟨os ++ os', malformed, ?_, ?_, hquiet'⟩
    · rw [hstore] at hposts
      rw [hstore'] at hposts'
      rw [← reader.requests_readBatch size]
      exact hposts.append hposts'
    · have houtcomes : (b.1.requests.zip os).map (·.2) = os :=
        List.map_snd_zip (Nat.le_of_eq hposts.length_eq)
      rw [hsummary', hsummary, hresults, houtcomes, List.foldl_append]

def requestsIn : ReplayInput → List PostingRequest
  | .bytes bytes => (Csv.Reader.ofBytes bytes).requests
  | .unreadable _ | .missing _ => []

/-- The requests that a replay posts: none if there is no room for its batches or its permits, or if
its batches have no requests. -/
def replayed (processors : Nat) (limits : ReplayLimits) (input : ReplayInput) :
    List PostingRequest :=
  if Batch.maxPermits < limits.permits.getD processors ||
      Csv.maxBatchSize < limits.batchSize then []
  else if limits.batchSize = 0 then []
  else requestsIn input

/-- A replay posts its requests one after the other and counts what became of them. -/
theorem Quiet.replay (h : e.Quiet) (hmild : s.faults.Mild) (processors : Nat)
    (limits : ReplayLimits) (input : ReplayInput) :
    ∃ os, Store.Posts s.device e.store (replayed processors limits input) os
        (e.replay s processors limits input).1.store ∧
      (∀ summary, (e.replay s processors limits input).2 = .finished summary →
        ∃ malformed, summary = { os.foldl ReplaySummary.record {} with malformed }) ∧
      (e.replay s processors limits input).1.Quiet := by
  have hrun (reader : Csv.Reader) := h.replayRows hmild limits.batchSize
    (limits.permits.getD processors) reader {}
  unfold replayed Engine.replay
  cases input with
  | missing path => exact ⟨[], by simpa [requestsIn] using .nil e.store, by simp, h⟩
  | unreadable reason =>
    simp only
    split
    · exact ⟨[], .nil e.store, by simp, h⟩
    · obtain ⟨os, malformed, hposts, hsummary, hquiet⟩ := hrun (.failing reason)
      exact ⟨os, hposts, fun _ h => ⟨malformed, (ReplayEnd.finished.inj h).symm.trans hsummary⟩,
        hquiet⟩
  | bytes bytes =>
    simp only
    split
    · exact ⟨[], .nil e.store, by simp, h⟩
    · obtain ⟨os, malformed, hposts, hsummary, hquiet⟩ := hrun (.ofBytes bytes)
      exact ⟨os, hposts, fun _ h => ⟨malformed, (ReplayEnd.finished.inj h).symm.trans hsummary⟩,
        hquiet⟩

/-- How a replay ends, up to its counts, depends on its input and its limits only. -/
theorem replay_ends (processors : Nat) (limits : ReplayLimits) (input : ReplayInput)
    (e e' : Engine) (s s' : Surroundings) :
    (∃ summary summary', (e.replay s processors limits input).2 = .finished summary ∧
      (e'.replay s' processors limits input).2 = .finished summary') ∨
    (e.replay s processors limits input).2 = (e'.replay s' processors limits input).2 ∧
      ∀ summary, (e.replay s processors limits input).2 ≠ .finished summary := by
  unfold Engine.replay
  cases input with
  | missing path => exact .inr ⟨rfl, nofun⟩
  | unreadable reason =>
    simp only
    split
    · exact .inr ⟨rfl, nofun⟩
    · exact .inl ⟨_, _, rfl, rfl⟩
  | bytes bytes =>
    simp only
    split
    · exact .inr ⟨rfl, nofun⟩
    · exact .inl ⟨_, _, rfl, rfl⟩

theorem replay_finished {processors : Nat} {limits : ReplayLimits} {input : ReplayInput}
    {summary : ReplaySummary} (h : (e.replay s processors limits input).2 = .finished summary)
    (e' : Engine) (s' : Surroundings) :
    ∃ summary', (e'.replay s' processors limits input).2 = .finished summary' := by
  rcases replay_ends processors limits input e e' s s' with
    ⟨_, summary', -, hfinished⟩ | ⟨-, hnone⟩
  · exact ⟨summary', hfinished⟩
  · exact absurd h (hnone summary)

end Engine

end Bookkeeping
