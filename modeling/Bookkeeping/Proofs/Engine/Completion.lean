import Bookkeeping.Proofs.Engine.Progress

/-! What a batch makes of its requests, in whatever order its tasks take their steps. The invariant
is that each task that has ended posted its transaction under a key that was new, found its key in
the book, or was refused because of its request; so which keys are in the book at the end does not
depend on the order, though which of the tasks with one key posted does. -/
namespace Bookkeeping

/-- Nothing that was in the book is lost. -/
structure Book.Grows (b b' : Book) : Prop where
  keys : b.keys ⊆ b'.keys
  transactions : b.transactions ⊆ b'.transactions

theorem Book.grows_insert {b : Book} {p : Posting} (h : b.hasKey p.key = false) :
    b.Grows (b.insert p).2 := by
  rw [insert_of_not_hasKey h]
  exact ⟨List.subset_append_left .., List.subset_append_left ..⟩

/-- What the outcome of a request tells of the request and of the book, which was `old` before. -/
def Outcome.Settles (old now : Book) (r : PostingRequest) : Outcome → Prop
  | .posted transaction => r.Valid ∧ r.key ∉ old.keys ∧ transaction ∈ now.transactions ∧
      ∃ id time, transaction = r.toTransaction id time
  | .duplicate => r.key ∈ now.keys
  | .failed _ => ¬r.Valid
  | .panicked | .cancelled => False

theorem Outcome.Settles.grow {old now now' : Book} {r : PostingRequest} {outcome : Outcome}
    (h : outcome.Settles old now r) (hgrows : now.Grows now') : outcome.Settles old now' r := by
  cases outcome with
  | posted transaction =>
    obtain ⟨hvalid, hnew, hmem, hmade⟩ := h
    exact ⟨hvalid, hnew, hgrows.transactions hmem, hmade⟩
  | duplicate => exact hgrows.keys h
  | failed error => exact h
  | panicked => exact h
  | cancelled => exact h

def Task.Settled (old now : Book) (t : Task) : Prop :=
  ∀ outcome, t.stage = .finished outcome → outcome.Settles old now t.request

theorem Task.Settled.grow {old now now' : Book} {t : Task} (h : t.Settled old now)
    (hgrows : now.Grows now') : t.Settled old now' :=
  fun outcome hended => (h outcome hended).grow hgrows

namespace Batch

variable {P : Surroundings → Prop} {s : Surroundings} {b b' : Batch} {old : Book}
  {e e' : Engine} {i j n : Nat} {t : Task} {stage : Stage} {tx tx' : Transaction}
  {rs : List PostingRequest}

def Posted (b : Batch) (i : Nat) (tx : Transaction) : Prop :=
  b.has i = true ∧ b.engine.outcome? i = some (.posted tx)

/-- The store can be written to, the tasks are checked as far as they have come, what has ended is
settled, and besides those that were there at first the book has the keys of what was posted, each
of which was posted by one task only. -/
structure Accounted (b : Batch) (old : Book) : Prop where
  writable : b.engine.store.Writable
  checked : ∀ i t, b.has i = true → b.engine.tasks[i]? = some t → t.Checked
  settled : ∀ i t, b.has i = true → b.engine.tasks[i]? = some t → t.Settled old b.engine.book
  keys : ∀ key, key ∈ b.engine.book.keys ↔ key ∈ old.keys ∨ ∃ i tx, b.Posted i tx ∧ tx.key = key
  once : ∀ i j tx tx', b.Posted i tx → b.Posted j tx' → tx.key = tx'.key → i = j

namespace Accounted

theorem start (h : e.store.Writable) (rs : List PostingRequest) (permits : Nat) :
    (Batch.start e rs permits).Accounted e.book := by
  have hengine : (Batch.start e rs permits).engine.store = e.store := by
    simp [Batch.start, Engine.foldl_start]
  have hnone (i : Nat) (tx : Transaction) : ¬(Batch.start e rs permits).Posted i tx := by
    rintro ⟨hi, hout⟩
    obtain ⟨t, htask, hposted⟩ := Option.bind_eq_some_iff.1 hout
    simp [Task.outcome?, stage_start hi htask] at hposted
  constructor
  case writable => exact hengine ▸ h
  case checked =>
    intro i t hi htask
    rw [Task.Checked, stage_start hi htask]
    trivial
  case settled =>
    intro i t hi htask outcome hended
    rw [stage_start hi htask] at hended
    cases hended
  case keys =>
    intro key
    simp [hnone, Engine.book, hengine]
  case once => exact fun i j tx tx' hposted => absurd hposted (hnone i tx)

theorem congr (h : b.Accounted old) (hhas : ∀ j, b'.has j = b.has j)
    (htasks : b'.engine.tasks = b.engine.tasks) (hstore : b'.engine.store = b.engine.store) :
    b'.Accounted old := by
  have hposted (i : Nat) (tx : Transaction) : b'.Posted i tx ↔ b.Posted i tx := by
    rw [Posted, Posted, hhas, Engine.outcome?, Engine.outcome?, htasks]
  have hbook : b'.engine.book = b.engine.book := congrArg Store.book hstore
  exact ⟨hstore ▸ h.writable, by simpa only [hhas, htasks] using h.checked,
    by simpa only [hhas, htasks, hbook] using h.settled, by simpa only [hposted, hbook] using h.keys,
    by simpa only [hposted] using h.once⟩

theorem posted_modify_stage (hi : b.has i = true) (htask : b.engine.tasks[i]? = some t)
    (hopen : t.isFinished = false) (hhas : ∀ j, b'.has j = b.has j)
    (htasks : b'.engine.tasks = b.engine.tasks.modify i fun t => { t with stage }) :
    b'.Posted j tx ↔ j = i ∧ stage = .finished (.posted tx) ∨ b.Posted j tx := by
  rw [Posted, Posted, hhas, Engine.outcome?_modify_stage htask htasks]
  by_cases hj : j = i
  · subst hj
    simp [hi, Engine.outcome?_of_open htask hopen]
  · simp [hj]

theorem forall_step {P : Task → Prop} (hall : ∀ j t, b.has j = true →
      b.engine.tasks[j]? = some t → P t) (hhas : ∀ j, b'.has j = b.has j)
    (htask : b.engine.tasks[i]? = some t)
    (htasks : b'.engine.tasks = b.engine.tasks.modify i fun t => { t with stage })
    (hnew : P { t with stage }) :
    ∀ j t, b'.has j = true → b'.engine.tasks[j]? = some t → P t := by
  intro j t' hj htask'
  rw [hhas] at hj
  rw [Engine.getElem?_modify_stage htask htasks] at htask'
  split at htask'
  · cases htask'
    exact hnew
  · exact hall j t' hj htask'

theorem goOn (h : b.Accounted old) (hi : b.has i = true) (hhas : ∀ j, b'.has j = b.has j)
    (hstep : b.engine.SoundStep b'.engine i t stage) (htask : b.engine.tasks[i]? = some t)
    (hopen : t.isFinished = false) (hstore : b'.engine.store = b.engine.store)
    (hposted : ∀ tx, stage ≠ .finished (.posted tx))
    (hsettled : ({ t with stage } : Task).Settled old b.engine.book) : b'.Accounted old := by
  have hbook : b'.engine.book = b.engine.book := congrArg Store.book hstore
  have hsame (j : Nat) (tx : Transaction) : b'.Posted j tx ↔ b.Posted j tx := by
    rw [posted_modify_stage hi htask hopen hhas hstep.tasks]
    simp [hposted]
  constructor
  case writable => exact hstore ▸ h.writable
  case checked => exact forall_step h.checked hhas htask hstep.tasks hstep.checked
  case settled => exact hbook ▸ forall_step h.settled hhas htask hstep.tasks hsettled
  case keys => simpa only [hsame, hbook] using h.keys
  case once => simpa only [hsame] using h.once

theorem post (h : b.Accounted old) (hi : b.has i = true) (hhas : ∀ j, b'.has j = b.has j)
    (htask : b.engine.tasks[i]? = some t) (hopen : t.isFinished = false) (hvalid : t.request.Valid)
    (hkey : b.engine.book.hasKey t.request.key = false) {id : Uuid} {now : Moment}
    (hstep : b.engine.SoundStep b'.engine i t
      (.finished (.posted (t.request.toTransaction id now))))
    (hwritable : b'.engine.store.Writable)
    (hbook : b'.engine.book = (b.engine.book.insert (t.request.toTransaction id now).posting).2) :
    b'.Accounted old := by
  have hgrows : b.engine.book.Grows b'.engine.book := hbook ▸ Book.grows_insert hkey
  rw [Book.insert_of_not_hasKey hkey] at hbook
  have hnew : t.request.key ∉ b.engine.book.keys := Book.hasKey_eq_false.1 hkey
  have hposted (j : Nat) (tx : Transaction) : b'.Posted j tx ↔
      j = i ∧ t.request.toTransaction id now = tx ∨ b.Posted j tx := by
    rw [posted_modify_stage hi htask hopen hhas hstep.tasks]
    simp
  have hother {j : Nat} {tx : Transaction} (htx : b.Posted j tx) : tx.key ≠ t.request.key := by
    intro hsame
    exact hnew ((h.keys _).2 (.inr ⟨j, tx, htx, hsame⟩))
  constructor
  case writable => exact hwritable
  case checked => exact forall_step h.checked hhas htask hstep.tasks hstep.checked
  case settled =>
    refine forall_step (fun j t hj htask => (h.settled j t hj htask).grow hgrows) hhas htask
      hstep.tasks fun outcome hended => ?_
    cases hended
    refine ⟨hvalid, fun hold => hnew ((h.keys _).2 (.inl hold)), ?_, id, now, rfl⟩
    rw [hbook]
    exact List.mem_append_right _ (List.mem_singleton_self _)
  case keys =>
    intro key
    rw [hbook, List.mem_append, List.mem_singleton, h.keys]
    simp only [hposted]
    constructor
    · rintro ((hold | ⟨j, tx, htx, hsame⟩) | rfl)
      · exact .inl hold
      · exact .inr ⟨j, tx, .inr htx, hsame⟩
      · exact .inr ⟨i, _, .inl ⟨rfl, rfl⟩, rfl⟩
    · rintro (hold | ⟨j, tx, ⟨rfl, rfl⟩ | htx, hsame⟩)
      · exact .inl (.inl hold)
      · exact .inr hsame.symm
      · exact .inl (.inr ⟨j, tx, htx, hsame⟩)
  case once =>
    intro j k tx tx' hj hk hsame
    rw [hposted] at hj hk
    obtain ⟨rfl, rfl⟩ | hj := hj
    · obtain ⟨rfl, -⟩ | hk := hk
      · rfl
      · exact absurd hsame.symm (hother hk)
    · obtain ⟨rfl, rfl⟩ | hk := hk
      · exact absurd hsame (hother hj)
      · exact h.once j k tx tx' hj hk hsame

theorem engine (h : b.Accounted old) (hs : s.Sound) (hi : b.has i = true)
    (hhas : ∀ j, b'.has j = b.has j) (hmove : b.engine.step s i = some b'.engine) :
    b'.Accounted old := by
  obtain ⟨t, -, htask, hopen, -, -⟩ := Engine.step_advance hmove
  obtain ⟨stage, hstep⟩ := Engine.soundStep_of_step hs h.writable htask (h.checked i t hi htask)
    hmove
  have hclean := hstep.clean
  generalize hstore : b'.engine.store = store at hclean
  cases hclean with
  | goesOn hgoes =>
    exact h.goOn hi hhas hstep htask hopen hstore (fun tx => hgoes _)
      fun outcome hended => absurd hended (hgoes outcome)
  | known hkey =>
    refine h.goOn hi hhas hstep htask hopen hstore (by simp) fun outcome hended => ?_
    cases hended
    exact Book.hasKey_iff.1 hkey
  | refused error hinvalid =>
    refine h.goOn hi hhas hstep htask hopen hstore (by simp) fun outcome hended => ?_
    cases hended
    exact hinvalid
  | posted hvalid hkey id now hwritable hbook =>
    subst hstore
    exact h.post hi hhas htask hopen hvalid hkey hstep hwritable hbook

theorem step (h : b.Accounted old) (hs : s.Sound) (horderly : b.Orderly)
    (hstep : b.step s i = some b') : b'.Accounted old := by
  obtain ⟨hi, hhas, hsame | hmove⟩ := horderly.engine_step hstep
  · exact h.congr hhas (by rw [hsame]) (by rw [hsame])
  · exact h.engine hs hi hhas hmove

theorem deliver (h : b.Accounted old) (s : Surroundings) :
    Accounted { b with engine := b.engine.deliver s } old :=
  h.congr (fun _ => rfl) (b.engine.deliver_frame s).2 (b.engine.deliver_frame s).1

theorem goes (h : b.Accounted old) (horderly : b.Orderly)
    (hgoes : b.Goes Surroundings.Sound n b') : b'.Accounted old :=
  horderly.invariant (I := fun b => b.Accounted old)
    (fun hs horderly hstep h => h.step hs horderly hstep) (fun s _ h => h.deliver s) hgoes h

end Accounted

/-- What no step changes: which tasks there are, what they were asked to post, and how many permits
there are. -/
def plan (b : Batch) : Nat × Nat × Nat × List PostingRequest :=
  (b.first, b.size, b.permits, b.engine.tasks.map (·.request))

theorem plan_start (e : Engine) (rs : List PostingRequest) (permits : Nat) :
    (Batch.start e rs permits).plan =
      (e.tasks.length, rs.length, max permits 1, e.tasks.map (·.request) ++ rs) := by
  simp [plan, Batch.start, Engine.foldl_start, Function.comp_def]

theorem requests_step (h : e.step s i = some e') :
    e'.tasks.map (·.request) = e.tasks.map (·.request) := by
  obtain ⟨t, stage, -, -, htasks, -⟩ := Engine.step_handled h
  apply List.ext_getElem?
  intro j
  rw [List.getElem?_map, List.getElem?_map]
  exact Engine.request?_modify_stage htasks j

theorem plan_step (h : b.step s i = some b') : b'.plan = b.plan := by
  cases step_stepped h with
  | entered _ _ => rfl
  | queued _ _ => rfl
  | moved _ hmove _ => simp [plan, requests_step hmove]
  | ended _ hmove _ => simp [plan, engine_release, requests_step hmove]

theorem plan_goes (h : b.Goes P n b') : b'.plan = b.plan := by
  induction h with
  | refl b => rfl
  | step _ hstep _ ih => exact ih.trans (plan_step hstep)
  | @deliver n b b' s _ ih =>
    refine ih.trans ?_
    simp [plan, (b.engine.deliver_frame s).2]

theorem getElem?_filterMap_of_isSome {α β : Type} {f : α → Option β} {l : List α}
    (h : ∀ a ∈ l, (f a).isSome = true) (k : Nat) : (l.filterMap f)[k]? = l[k]?.bind f := by
  induction l generalizing k with
  | nil => rfl
  | cons a l ih =>
    rw [List.forall_mem_cons] at h
    obtain ⟨c, hc⟩ := Option.isSome_iff_exists.1 h.1
    rw [List.filterMap_cons_some hc]
    cases k with
    | zero => simp [hc]
    | succ k => simpa using ih h.2 k

structure Ended (b : Batch) (old : Book) : Prop where
  tasks : b.first + b.size = b.engine.tasks.length
  settled : ∀ i, b.has i = true → ∃ t outcome, b.engine.tasks[i]? = some t ∧
    t.stage = .finished outcome ∧ outcome.Settles old b.engine.book t.request

theorem result?_of_settles {now : Book} {outcome : Outcome} (hstage : t.stage = .finished outcome)
    (h : outcome.Settles old now t.request) : result? t = some (t.request, outcome) := by
  have hout : t.outcome? = some outcome := Task.outcome?_eq_some.2 hstage
  rw [result?, hout]
  cases outcome with
  | panicked => exact h.elim
  | _ => rfl

namespace Ended

theorem getElem?_results (h : b.Ended old) (k : Nat) :
    b.results[k]? = b.engine.tasks[b.first + k]?.bind result? := by
  have hsome : ∀ i ∈ b.members, (b.engine.tasks[i]?.bind result?).isSome = true := by
    intro i hi
    obtain ⟨t, outcome, htask, hstage, hsettled⟩ := h.settled i (mem_members.1 hi)
    rw [htask, Option.bind_some, result?_of_settles hstage hsettled]
    rfl
  rw [results_eq, getElem?_filterMap_of_isSome hsome, members]
  by_cases hk : k < b.size
  · rw [List.getElem?_range' hk, Option.bind_some, Nat.one_mul]
  · rw [List.getElem?_eq_none (by simpa using hk),
      List.getElem?_eq_none (by rw [← h.tasks]; omega)]
    rfl

theorem has (h : b.Ended old) {k : Nat} (htask : b.engine.tasks[b.first + k]? = some t) :
    b.has (b.first + k) = true := by
  have hlt := (List.getElem?_eq_some_iff.1 htask).1
  rw [← h.tasks] at hlt
  simp only [Batch.has, Bool.and_eq_true, decide_eq_true_eq]
  omega

theorem settles (h : b.Ended old) {k : Nat} {r : PostingRequest} {outcome : Outcome}
    (hk : b.results[k]? = some (r, outcome)) :
    b.has (b.first + k) = true ∧ b.engine.outcome? (b.first + k) = some outcome ∧
      outcome.Settles old b.engine.book r := by
  rw [h.getElem?_results] at hk
  obtain ⟨t, htask, hresult⟩ := Option.bind_eq_some_iff.1 hk
  have hi := h.has htask
  obtain ⟨t', outcome', htask', hstage, hsettled⟩ := h.settled _ hi
  obtain rfl : t = t' := Option.some.inj (htask.symm.trans htask')
  rw [result?_of_settles hstage hsettled, Option.some.injEq, Prod.mk.injEq] at hresult
  obtain ⟨rfl, rfl⟩ := hresult
  refine ⟨hi, ?_, hsettled⟩
  rw [Engine.outcome?, htask, Option.bind_some, Task.outcome?_eq_some]
  exact hstage

theorem posted (h : b.Ended old) {k : Nat} {r : PostingRequest}
    (hk : b.results[k]? = some (r, .posted tx)) : b.Posted (b.first + k) tx :=
  ⟨(h.settles hk).1, (h.settles hk).2.1⟩

theorem map_results (h : b.Ended old) {earlier : List PostingRequest}
    (hrequests : b.engine.tasks.map (·.request) = earlier ++ rs) (hfirst : b.first = earlier.length) :
    b.results.map (·.1) = rs := by
  apply List.ext_getElem?
  intro k
  have hr : rs[k]? = (b.engine.tasks[b.first + k]?).map (·.request) := by
    rw [← List.getElem?_map, hrequests, hfirst, List.getElem?_append_right (Nat.le_add_right _ k),
      Nat.add_sub_cancel_left]
  rw [List.getElem?_map, h.getElem?_results, hr]
  cases htask : b.engine.tasks[b.first + k]? with
  | none => rfl
  | some t =>
    obtain ⟨t', outcome, htask', hstage, hsettled⟩ := h.settled _ (h.has htask)
    obtain rfl : t = t' := Option.some.inj (htask.symm.trans htask')
    rw [Option.bind_some, result?_of_settles hstage hsettled]
    rfl

end Ended

/-- What a batch has made of its requests when it has come to its end, where the book was `old`
before. -/
structure Completed (b : Batch) (old : Book) (rs : List PostingRequest) : Prop where
  /-- There is one result for each request, in the order of the requests. -/
  results : b.results.map (·.1) = rs
  /-- The keys are those that were there before, and those of the requests that are valid. -/
  keys : ∀ key, key ∈ b.close.book.keys ↔ key ∈ old.keys ∨ ∃ r ∈ rs, r.Valid ∧ r.key = key
  /-- For each key that is new one result, and no other, says that it was posted. -/
  posted : ∀ key ∈ b.close.book.keys, key ∉ old.keys →
    ∃! k : Nat, ∃ r tx, b.results[k]? = some (r, .posted tx) ∧ r.key = key
  /-- What was posted is what the request asked for, and it is in the book. -/
  made : ∀ r tx, (r, Outcome.posted tx) ∈ b.results → r.Valid ∧ r.key ∉ old.keys ∧
    tx ∈ b.close.book.transactions ∧ ∃ id now, tx = r.toTransaction id now
  /-- All other requests that are valid are duplicates. -/
  others : ∀ r outcome, (r, outcome) ∈ b.results → r.Valid →
    outcome = .duplicate ∨ ∃ tx, outcome = .posted tx

namespace Ended

theorem key_mem (h : b.Ended old) (haccounted : b.Accounted old)
    (hresults : b.results.map (·.1) = rs) {r : PostingRequest} (hr : r ∈ rs) (hvalid : r.Valid) :
    r.key ∈ b.engine.book.keys := by
  rw [← hresults] at hr
  obtain ⟨⟨r, outcome⟩, hmem, rfl⟩ := List.mem_map.1 hr
  obtain ⟨k, hk⟩ := List.mem_iff_getElem?.1 hmem
  have hsettled := (h.settles hk).2.2
  cases outcome with
  | posted tx =>
    obtain ⟨-, -, -, id, now, rfl⟩ := hsettled
    exact (haccounted.keys _).2 (.inr ⟨_, _, h.posted hk, rfl⟩)
  | duplicate => exact hsettled
  | failed error => exact absurd hvalid hsettled
  | panicked => exact hsettled.elim
  | cancelled => exact hsettled.elim

theorem result_of_posted (h : b.Ended old) (hposted : b.Posted i tx) :
    ∃ k r, i = b.first + k ∧ b.results[k]? = some (r, .posted tx) ∧ r.Valid ∧ r.key = tx.key := by
  obtain ⟨hi, hout⟩ := hposted
  obtain ⟨t, outcome, htask, hstage, hsettled⟩ := h.settled i hi
  rw [Engine.outcome?, htask, Option.bind_some, Task.outcome?_eq_some, hstage, Stage.finished.injEq]
    at hout
  subst hout
  obtain ⟨k, rfl⟩ : ∃ k, i = b.first + k := by
    simp only [Batch.has, Bool.and_eq_true, decide_eq_true_eq] at hi
    exact Nat.exists_eq_add_of_le hi.1
  refine ⟨k, t.request, rfl, ?_, ?_⟩
  · rw [h.getElem?_results, htask, Option.bind_some, result?_of_settles hstage hsettled]
  · obtain ⟨hvalid, -, -, id, now, rfl⟩ := hsettled
    exact ⟨hvalid, rfl⟩

theorem completed (h : b.Ended old) (haccounted : b.Accounted old)
    (hresults : b.results.map (·.1) = rs) : b.Completed old rs := by
  have hbook : b.close.book = b.engine.book := congrArg Store.book b.close_frame.1
  constructor
  case results => exact hresults
  case keys =>
    intro key
    rw [hbook]
    constructor
    · intro hkey
      obtain hold | ⟨i, tx, hposted, rfl⟩ := (haccounted.keys key).1 hkey
      · exact .inl hold
      · obtain ⟨k, r, -, hk, hvalid, hsame⟩ := h.result_of_posted hposted
        have hr : r ∈ rs := hresults ▸ List.mem_map_of_mem (List.mem_of_getElem? hk)
        exact .inr ⟨r, hr, hvalid, hsame⟩
    · rintro (hold | ⟨r, hr, hvalid, rfl⟩)
      · exact (haccounted.keys key).2 (.inl hold)
      · exact h.key_mem haccounted hresults hr hvalid
  case posted =>
    intro key hkey hnew
    obtain hold | ⟨i, tx, hposted, rfl⟩ := (haccounted.keys key).1 (hbook ▸ hkey)
    · exact absurd hold hnew
    · obtain ⟨k, r, rfl, hk, -, hsame⟩ := h.result_of_posted hposted
      refine ⟨k, ⟨r, tx, hk, hsame⟩, ?_⟩
      rintro k' ⟨r', tx', hk', hsame'⟩
      obtain ⟨-, -, -, id, now, rfl⟩ := (h.settles hk').2.2
      exact Nat.add_left_cancel (haccounted.once _ _ _ _ (h.posted hk') hposted hsame')
  case made =>
    intro r tx hmem
    obtain ⟨k, hk⟩ := List.mem_iff_getElem?.1 hmem
    rw [hbook]
    exact (h.settles hk).2.2
  case others =>
    intro r outcome hmem hvalid
    obtain ⟨k, hk⟩ := List.mem_iff_getElem?.1 hmem
    have hsettled := (h.settles hk).2.2
    cases outcome with
    | posted tx => exact .inr ⟨tx, rfl⟩
    | duplicate => exact .inl rfl
    | failed error => exact absurd hvalid hsettled
    | panicked => exact hsettled.elim
    | cancelled => exact hsettled.elim

end Ended

theorem Accounted.ended_of_stuck (h : b.Accounted old) (horderly : b.Orderly) (hkept : b.Kept)
    (hstuck : b.Stuck s) : b.Ended old := by
  refine ⟨horderly.tasks, fun i hi => ?_⟩
  obtain ⟨outcome, hout⟩ := horderly.outcome_of_stuck hkept hstuck hi
  obtain ⟨t, htask, hended⟩ := Option.bind_eq_some_iff.1 hout
  have hstage := Task.outcome?_eq_some.1 hended
  exact ⟨t, outcome, htask, hstage, h.settled i t hi htask outcome hstage⟩

/-- Takes the next steps of tasks in some order, without those that have none to take. -/
def after (s : Surroundings) (b : Batch) (is : List Nat) : Batch :=
  is.foldl (fun b i => (b.step s i).getD b) b

theorem goes_after (hs : P s) (b : Batch) (is : List Nat) : ∃ n, b.Goes P n (b.after s is) := by
  induction is generalizing b with
  | nil => exact ⟨0, .refl b⟩
  | cons i is ih =>
    rw [after, List.foldl_cons]
    cases hstep : b.step s i with
    | none => exact ih b
    | some b' =>
      obtain ⟨n, hgoes⟩ := ih b'
      exact ⟨n + 1, .step hs hstep hgoes⟩

/-- However the tasks of a batch take their steps, at most so many of them hold a permit and only
those are under way; the batch comes to its end after eight steps for each request at most, and
then it has posted each key of its valid requests that was not there before, once. -/
theorem completes_in_any_order (h : e.Quiet) (hwritable : e.store.Writable)
    (rs : List PostingRequest) (permits : Nat)
    (hgoes : (Batch.start e rs permits).Goes Surroundings.Sound n b) :
    b.admitted.length ≤ max permits 1 ∧
      (∀ i t, b.has i = true → b.engine.tasks[i]? = some t → t.stage ≠ .preCheck →
        t.isFinished = false → i ∈ b.admitted) ∧
      n ≤ 8 * rs.length ∧
      (∀ s : Surroundings, s.Sound → ∃ m b', b.Goes Surroundings.Sound m b' ∧ b'.Stuck s) ∧
      ∀ s, b.Stuck s → b.Completed e.book rs := by
  have hstart : (Batch.start e rs permits).Orderly := .start e rs permits
  have horderly : b.Orderly := hstart.goes hgoes
  have hkept : b.Kept := (Kept.start h rs permits).goes hstart hgoes
  have haccounted : b.Accounted e.book := (Accounted.start hwritable rs permits).goes hstart hgoes
  have hplan := plan_goes hgoes
  rw [plan_start, plan, Prod.mk.injEq, Prod.mk.injEq, Prod.mk.injEq] at hplan
  obtain ⟨hfirst, -, hpermits, hrequests⟩ := hplan
  refine ⟨hpermits ▸ horderly.room, horderly.underWay, ?_, fun s hs => horderly.exists_stuck hs,
    fun s hstuck => ?_⟩
  · have hsteps := hstart.goes_le hgoes
    have hbound : (Batch.start e rs permits).stepsLeft ≤ 8 * rs.length := stepsLeft_le _
    omega
  · have hended := haccounted.ended_of_stuck horderly hkept hstuck
    exact hended.completed haccounted (hended.map_results hrequests (by simpa using hfirst))

def rivals : List PostingRequest :=
  [Engine.smallRequest, ⟨"b", "a", .ofWord false 7, "k"⟩, ⟨"a", "b", .ofWord false 0, "l"⟩]

/-- Both rivals find their key to be new; then the second has the locks first, and the third request
gets the permit that it gives back. -/
def rivalry : Batch :=
  (Batch.start (Engine.inMemory .absent) rivals 2).after Engine.calm
    [1, 0, 2, 0, 0, 1, 1, 1, 0, 1, 1, 1, 1, 2, 2, 0, 0, 0, 0]

theorem completes_in_any_order_rivals :
    (Engine.inMemory .absent).Quiet ∧ (Engine.inMemory .absent).store.Writable ∧
      (∃ n, (Batch.start (Engine.inMemory .absent) rivals 2).Goes Surroundings.Sound n rivalry) ∧
      rivalry.Stuck Engine.calm ∧ rivalry.Completed {} rivals ∧
      rivalry.results.map (·.2) = [.duplicate,
        .posted (PostingRequest.toTransaction ⟨"b", "a", .ofWord false 7, "k"⟩ (.ofNat 0) .epoch),
        .failed (.nonPositiveAmount (.ofWord false 0))] := by
  have hquiet : (Engine.inMemory .absent).Quiet := Locks.kept_empty
  have hcalm : Engine.calm.Sound := ⟨Faults.mild_none, rfl⟩
  obtain ⟨n, hgoes⟩ : ∃ n,
      (Batch.start (Engine.inMemory .absent) rivals 2).Goes Surroundings.Sound n rivalry :=
    goes_after hcalm _ _
  have hstuck : rivalry.Stuck Engine.calm := by
    intro i
    match i with
    | 0 => decide +kernel
    | 1 => decide +kernel
    | 2 => decide +kernel
    | i + 3 => rfl
  have hcompleted := (completes_in_any_order hquiet trivial rivals 2 hgoes).2.2.2.2 _ hstuck
  exact ⟨hquiet, trivial, ⟨n, hgoes⟩, hstuck, hcompleted, by decide +kernel⟩

end Batch

end Bookkeeping
