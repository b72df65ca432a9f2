import Bookkeeping.Proofs.Csv.Batches
import Bookkeeping.Proofs.Engine.Limits
import Bookkeeping.Proofs.Engine.Sequence

/-! What a replay counts, in whatever order the tasks of each batch take their steps and whatever the
store does wrong: each request once, and as posted just those whose transactions the book has
gained. The invariant counts what was recorded of earlier batches, the tasks of the batch under way
and the requests behind it. -/
namespace Bookkeeping

namespace Outcome

/-- The outcome is one of those that a replay counts. -/
def Counts : Outcome → Prop
  | .panicked | .cancelled => False
  | _ => True

def isPosted : Outcome → Bool
  | .posted _ => true
  | _ => false

theorem counts_ofSave (tx : Transaction) (answer : Except Error SaveOutcome) :
    (ofSave tx answer).Counts := by
  cases answer with
  | error error => trivial
  | ok outcome => cases outcome <;> trivial

end Outcome

def Task.hasPosted (t : Task) : Bool := t.outcome?.any (·.isPosted)

namespace ReplaySummary

/-- How many requests were counted. -/
def total (s : ReplaySummary) : Nat := s.posted + s.duplicates + s.rejected + s.failed

variable {os : List Outcome}

theorem total_record (s : ReplaySummary) {outcome : Outcome} (h : outcome.Counts) :
    (s.record outcome).total = s.total + 1 := by
  cases outcome with
  | posted tx => simp only [record, total]; omega
  | duplicate => simp only [record, total]; omega
  | failed error =>
    rw [record]
    split <;> (simp only [total]; omega)
  | panicked => exact h.elim
  | cancelled => exact h.elim

theorem posted_record (s : ReplaySummary) (outcome : Outcome) :
    (s.record outcome).posted = s.posted + if outcome.isPosted then 1 else 0 := by
  cases outcome with
  | failed error =>
    rw [record]
    split <;> rfl
  | _ => rfl

theorem foldl_record (s : ReplaySummary) (h : ∀ o ∈ os, o.Counts) :
    (os.foldl record s).total = s.total + os.length ∧
      (os.foldl record s).posted = s.posted + os.countP (·.isPosted) := by
  induction os generalizing s with
  | nil => exact ⟨rfl, rfl⟩
  | cons o os ih =>
    rw [List.forall_mem_cons] at h
    obtain ⟨htotal, hposted⟩ := ih (s.record o) h.2
    rw [List.foldl_cons, htotal, hposted, s.total_record h.1, s.posted_record, List.length_cons,
      List.countP_cons]
    omega

end ReplaySummary

theorem countP_modify {α : Type} {p : α → Bool} {f : α → α} {l : List α} {i : Nat} {a : α}
    (ha : l[i]? = some a) (hp : p a = false) :
    (l.modify i f).countP p = l.countP p + if p (f a) then 1 else 0 := by
  obtain ⟨hi, rfl⟩ := List.getElem?_eq_some_iff.1 ha
  rw [List.modify_eq_set_getElem?, ha, Option.map_eq_map, Option.map_some, Option.getD_some,
    List.countP_set hi, hp]
  rfl

theorem Kept.transactions {b b' : Book} {p : Posting} {answer : Except Error SaveOutcome}
    (h : Kept b p answer b') (tx : Transaction) : ∃ new,
      b'.transactions = b.transactions ++ new ∧
        new.length = if (Outcome.ofSave tx answer).isPosted then 1 else 0 := by
  cases h with
  | saved h => exact ⟨[p.transaction], rfl, rfl⟩
  | duplicate h => exact ⟨[], (List.append_nil _).symm, rfl⟩
  | failed error => exact ⟨[], (List.append_nil _).symm, rfl⟩

/-- A step appends a transaction to the book just if its task has posted with it. -/
theorem Advance.transactions {store store' : Store} {t : Task} {stage : Stage}
    (h : Advance store t stage store') : ∃ new,
      store'.book.transactions = store.book.transactions ++ new ∧
        new.length = if ({ t with stage } : Task).hasPosted then 1 else 0 := by
  cases h with
  | saved h device id now => exact (store.save_kept device _).transactions _
  | locking h hstage =>
    refine ⟨[], (List.append_nil _).symm, ?_⟩
    unfold Task.hasPosted Task.outcome?
    obtain hlocking | rfl := hstage
    · cases stage <;> first | rfl | cases hlocking
    · rfl
  | _ => exact ⟨[], (List.append_nil _).symm, rfl⟩

namespace Engine

variable {s : Surroundings} {e e' e'' : Engine} {i : Nat}

/-- The book has gained a transaction for each task that has posted since, and no other. -/
def Gained (e e' : Engine) : Prop := ∃ new,
  e'.book.transactions = e.book.transactions ++ new ∧
    e'.tasks.countP (·.hasPosted) = e.tasks.countP (·.hasPosted) + new.length

theorem Gained.of_frame (htasks : e'.tasks.countP (·.hasPosted) = e.tasks.countP (·.hasPosted))
    (hstore : e'.store = e.store) : e.Gained e' :=
  ⟨[], by rw [book, hstore, List.append_nil]; rfl, htasks⟩

theorem Gained.trans (h : e.Gained e') (h' : e'.Gained e'') : e.Gained e'' := by
  obtain ⟨new, hbook, htasks⟩ := h
  obtain ⟨new', hbook', htasks'⟩ := h'
  refine ⟨new ++ new', ?_, ?_⟩
  · rw [hbook', hbook, List.append_assoc]
  · rw [htasks', htasks, List.length_append, Nat.add_assoc]

theorem gained_step (h : e.step s i = some e') : e.Gained e' := by
  obtain ⟨t, stage, htask, hopen, htasks, hadvance⟩ := step_advance h
  obtain ⟨new, hbook, hlength⟩ := hadvance.transactions
  have hnot : t.hasPosted = false := by
    unfold Task.hasPosted Task.outcome?
    cases hstage : t.stage <;> simp_all [Task.isFinished]
  exact ⟨new, hbook, by rw [htasks, countP_modify htask hnot, hlength]⟩

theorem counts_of_step (hs : s.faults.panics = false) (h : e.step s i = some e')
    {outcome : Outcome} (hended : e'.outcome? i = some outcome) : outcome.Counts := by
  obtain ⟨t, -, htask, -, -, -⟩ := step_advance h
  have hfinish {e₀ : Engine} {o : Outcome} (htasks : e₀.tasks = e.tasks) (ho : o.Counts)
      (hout : (e₀.finish i t o).outcome? i = some outcome) : outcome.Counts := by
    rw [outcome?_of_ended htask ((tasks_finish e₀ i t o).trans (by rw [htasks]))] at hout
    cases hout
    exact ho
  have hopen {e₀ : Engine} {stage : Stage} (htasks : e₀.tasks = e.tasks)
      (hstage : ∀ o, stage ≠ .finished o)
      (hout : (e₀.setStage i stage).outcome? i = some outcome) : outcome.Counts := by
    rw [outcome?_modify_stage htask (by rw [setStage, htasks]), if_pos rfl,
      Task.outcome?_eq_some] at hout
    exact absurd hout (hstage outcome)
  cases step_stepped htask h with
  | keyless | unread | known | invalid =>
    refine hfinish rfl ?_ hended
    trivial
  | gotFirst => exact hopen rfl (by split <;> simp) hended
  | checked | validated | askedFirst | askedSecond | gotSecond | single =>
    exact hopen rfl (by simp) hended
  | saved =>
    rw [stepSave_eq rfl rfl, hs] at hended
    refine hfinish ?_ (Outcome.counts_ofSave _ _) hended
    obtain ⟨store, log, hsave⟩ := save_snd_eq e.counted s
      (t.request.toTransaction (s.fresh e.made).1 (s.fresh e.made).2).posting
    rw [tasks_announce, hsave]
    rfl

end Engine

namespace Batch

variable {s : Surroundings} {b b' : Batch} {i : Nat}

def own (b : Batch) : List Task := b.engine.tasks.drop b.first

theorem Orderly.results_eq (h : b.Orderly) : b.results = b.own.filterMap result? := by
  have hle : b.first ≤ b.engine.tasks.length := h.tasks ▸ Nat.le_add_right ..
  have hfirst : (b.engine.tasks.take b.first).length = b.first := List.length_take_of_le hle
  have hsize : b.own.length = b.size := by
    rw [own, List.length_drop, ← h.tasks, Nat.add_sub_cancel_left]
  have hmembers := filterMap_range'_getElem? result? (b.engine.tasks.take b.first) b.own
  rw [hfirst, hsize, own, List.take_append_drop] at hmembers
  rw [Batch.results_eq]
  exact hmembers

theorem exists_outcomes {ts : List Task} (h : ∀ t ∈ ts, ∃ o, t.outcome? = some o ∧ o.Counts) :
    ∃ os : List Outcome, (ts.filterMap result?).map (·.2) = os ∧ os.length = ts.length ∧
      os.countP (·.isPosted) = ts.countP (·.hasPosted) ∧ ∀ o ∈ os, o.Counts := by
  induction ts with
  | nil => exact ⟨[], rfl, rfl, rfl, by simp⟩
  | cons t ts ih =>
    rw [List.forall_mem_cons] at h
    obtain ⟨⟨o, hout, hcounts⟩, hrest⟩ := h
    obtain ⟨os, hresults, hlength, hposted, hall⟩ := ih hrest
    have hresult : result? t = some (t.request, o) := by
      rw [result?, hout]
      cases o with
      | panicked => exact hcounts.elim
      | _ => rfl
    refine ⟨o :: os, ?_, by simp [hlength], ?_, List.forall_mem_cons.2 ⟨hcounts, hall⟩⟩
    · rw [List.filterMap_cons_some hresult, List.map_cons, hresults]
    · rw [List.countP_cons, List.countP_cons, hposted, Task.hasPosted, hout]
      rfl

theorem step_frame (h : b.Orderly) (hstep : b.step s i = some b') :
    b'.first = b.first ∧ b'.size = b.size ∧
      b'.engine.tasks.take b.first = b.engine.tasks.take b.first := by
  have hplan := plan_step hstep
  simp only [plan, Prod.mk.injEq] at hplan
  refine ⟨hplan.1, hplan.2.1, ?_⟩
  obtain ⟨hi, -, hsame | hmove⟩ := h.engine_step hstep
  · rw [hsame]
  · simp only [has, Bool.and_eq_true, decide_eq_true_eq] at hi
    apply List.ext_getElem?
    intro j
    rw [List.getElem?_take, List.getElem?_take]
    split
    · next hj => exact Engine.getElem?_step_of_ne hmove (by omega)
    · rfl

theorem size_goes {P : Surroundings → Prop} {n : Nat} (h : b.Orderly) (hgoes : b.Goes P n b') :
    b'.size = b.size :=
  h.invariant (I := fun b' => b'.size = b.size)
    (fun _ horderly hstep hsame => (step_frame horderly hstep).2.1.trans hsame)
    (fun _ _ hsame => hsame) hgoes rfl

theorem Kept.quiet_recorded (h : b.Kept) (hended : b.AllEnded) (summary : ReplaySummary) :
    (b.results.foldl Engine.recordResult (b.close, summary)).1.Quiet := by
  obtain ⟨log, hclose⟩ := b.close_eq
  obtain ⟨log', hrecorded⟩ := Engine.recorded_eq b.results (b.close, summary)
  rw [hrecorded, hclose]
  exact h.quiet hended

end Batch

/-- A replay whose tasks take their steps one at a time: so many requests are to make a batch and so
many of them may be posted at one time; its batch, the rows behind it, and what was counted of the
batches before it. -/
structure Replay where
  size : Nat
  permits : Nat
  batch : Batch
  reader : Csv.Reader
  summary : ReplaySummary

namespace Replay

def load (size permits : Nat) (e : Engine) (reader : Csv.Reader) (summary : ReplaySummary) :
    Replay where
  size := size
  permits := permits
  batch := .start
    ((reader.readBatch size).1.faults.foldl (fun e fault => e.logged (.rowSkipped fault)) e)
    (reader.readBatch size).1.requests permits
  reader := (reader.readBatch size).2
  summary := summary

def next (r : Replay) : Replay :=
  let acc := r.batch.results.foldl Engine.recordResult (r.batch.close, r.summary)
  load r.size r.permits acc.1 r.reader acc.2

def IsOver (r : Replay) : Prop := r.batch.size = 0

/-- What a replay that is over tells. -/
def counts (r : Replay) : ReplaySummary := { r.summary with malformed := r.reader.malformed }

/-- So many steps lead from one state of a replay to the other. A task takes a step in surroundings
of its own, of which `P` is true; when all tasks have ended the next batch is read; the notifier has
its turns at any time. -/
inductive Goes (P : Surroundings → Prop) : Nat → Replay → Replay → Prop where
  | refl (r : Replay) : Goes P 0 r r
  | step {n i : Nat} {s : Surroundings} {r r' : Replay} {b : Batch} (hs : P s)
    (h : r.batch.step s i = some b) (hrest : Goes P n { r with batch := b } r') :
    Goes P (n + 1) r r'
  | deliver {n : Nat} {r r' : Replay} (s : Surroundings)
    (hrest : Goes P n { r with batch.engine := r.batch.engine.deliver s } r') : Goes P n r r'
  | next {n : Nat} {r r' : Replay} (hmore : ¬r.IsOver) (hended : r.batch.AllEnded)
    (hrest : Goes P n r.next r') : Goes P (n + 1) r r'

variable {P : Surroundings → Prop} {s : Surroundings} {e base : Engine} {r r' : Replay} {b : Batch}
  {source : Csv.Reader} {i n m : Nat}

theorem Goes.trans {r'' : Replay} (h : Goes P n r r') (h' : Goes P m r' r'') :
    Goes P (n + m) r r'' := by
  induction h with
  | refl r => rwa [Nat.zero_add]
  | step hs hstep _ ih =>
    rw [Nat.succ_add]
    exact .step hs hstep (ih h')
  | deliver s _ ih => exact .deliver s (ih h')
  | next hmore hended _ ih =>
    rw [Nat.succ_add]
    exact .next hmore hended (ih h')

theorem goes_of_batch (h : Batch.Goes P n r.batch b) : Goes P n r { r with batch := b } := by
  generalize hstart : r.batch = b₀ at h
  induction h generalizing r with
  | refl b =>
    subst hstart
    exact .refl r
  | @step n i s b b' b'' hs hstep _ ih =>
    subst hstart
    exact .step hs hstep (ih (r := { r with batch := b' }) rfl)
  | @deliver n b b' s _ ih =>
    subst hstart
    exact .deliver s (ih (r := { r with batch.engine := r.batch.engine.deliver s }) rfl)

theorem batch_load (size permits : Nat) (e : Engine) (reader : Csv.Reader)
    (summary : ReplaySummary) : ∃ log, (load size permits e reader summary).batch =
      .start { e with log } (reader.readBatch size).1.requests permits := by
  obtain ⟨log, hskipped⟩ := Engine.skipped_eq (reader.readBatch size).1.faults e
  exact ⟨log, by rw [load, hskipped]⟩

theorem load_frame (size permits : Nat) (e : Engine) (reader : Csv.Reader)
    (summary : ReplaySummary) :
    (load size permits e reader summary).batch.engine.store = e.store ∧
      (load size permits e reader summary).batch.engine.tasks.take
        (load size permits e reader summary).batch.first = e.tasks ∧
      (load size permits e reader summary).batch.engine.tasks.countP (·.hasPosted) =
        e.tasks.countP (·.hasPosted) := by
  obtain ⟨log, hbatch⟩ := batch_load size permits e reader summary
  have hnone : ((reader.readBatch size).1.requests.map ({ request := · } : _ → Task)).countP
      (·.hasPosted) = 0 := by
    rw [List.countP_map, List.countP_eq_zero]
    exact fun r _ => Bool.false_ne_true
  rw [hbatch, Batch.start, Engine.foldl_start]
  refine ⟨rfl, List.take_left, ?_⟩
  rw [List.countP_append, hnone, Nat.add_zero]

/-- What is true of a replay of the rows of `source` on the engine `base` at any time: its batch is
in order, and each request is recorded, has its task, or is still to be read. -/
structure Conserves (base : Engine) (source : Csv.Reader) (r : Replay) : Prop where
  size : 0 < r.size
  orderly : r.batch.Orderly
  kept : r.batch.Kept
  counts : ∀ i outcome, r.batch.has i = true → r.batch.engine.outcome? i = some outcome →
    outcome.Counts
  gained : base.Gained r.batch.engine
  posted : (r.batch.engine.tasks.take r.batch.first).countP (·.hasPosted) =
    base.tasks.countP (·.hasPosted) + r.summary.posted
  total : r.summary.total + r.batch.size + r.reader.requests.length = source.requests.length
  stands : ∃ earlier, source.Stands r.size earlier r.batch.size r.reader

namespace Conserves

theorem load {reader : Csv.Reader} {summary : ReplaySummary} {size permits : Nat}
    (hsize : 0 < size) (hquiet : e.Quiet) (hgained : base.Gained e)
    (hposted : e.tasks.countP (·.hasPosted) = base.tasks.countP (·.hasPosted) + summary.posted)
    (htotal : summary.total + reader.requests.length = source.requests.length)
    (hstands : ∃ earlier, source.Stands size earlier (reader.readBatch size).1.requests.length
      (reader.readBatch size).2) :
    (Replay.load size permits e reader summary).Conserves base source := by
  obtain ⟨log, hbatch⟩ := batch_load size permits e reader summary
  obtain ⟨hstore, htasks, hnone⟩ := load_frame size permits e reader summary
  constructor
  case size => exact hsize
  case orderly => exact hbatch ▸ .start ..
  case kept =>
    have hlogged : ({ e with log } : Engine).Quiet := hquiet
    exact hbatch ▸ .start hlogged ..
  case counts =>
    intro i outcome hi hout
    rw [hbatch] at hi hout
    obtain ⟨t, htask, hended⟩ := Option.bind_eq_some_iff.1 hout
    rw [Task.outcome?, Batch.stage_start hi htask] at hended
    cases hended
  case gained => exact hgained.trans (.of_frame hnone hstore)
  case posted =>
    rw [htasks]
    exact hposted
  case total =>
    rw [← htotal, ← reader.requests_readBatch size, List.length_append, Nat.add_assoc]
    rfl
  case stands => exact hstands

theorem step (h : r.Conserves base source) (hs : s.faults.panics = false)
    (hstep : r.batch.step s i = some b) : ({ r with batch := b } : Replay).Conserves base source := by
  obtain ⟨hfirst, hsize, htake⟩ := Batch.step_frame h.orderly hstep
  obtain ⟨hi, hhas, hengine⟩ := h.orderly.engine_step hstep
  constructor
  case size => exact h.size
  case orderly => exact h.orderly.step hstep
  case kept => exact h.kept.step h.orderly hstep
  case counts =>
    intro j outcome hj hout
    rw [hhas] at hj
    obtain hsame | hmove := hengine
    · exact h.counts j outcome hj (by rwa [hsame] at hout)
    · by_cases hji : j = i
      · subst hji
        exact Engine.counts_of_step hs hmove hout
      · rw [Engine.outcome?_step_of_ne hmove hji] at hout
        exact h.counts j outcome hj hout
  case gained =>
    refine h.gained.trans ?_
    obtain hsame | hmove := hengine
    · exact hsame ▸ .of_frame rfl rfl
    · exact Engine.gained_step hmove
  case posted => simpa only [hfirst, htake] using h.posted
  case total => simpa only [hsize] using h.total
  case stands => simpa only [hsize] using h.stands

theorem deliver (h : r.Conserves base source) (s : Surroundings) :
    ({ r with batch.engine := r.batch.engine.deliver s } : Replay).Conserves base source := by
  obtain ⟨hstore, htasks⟩ := r.batch.engine.deliver_frame s
  constructor
  case size => exact h.size
  case orderly => exact h.orderly.deliver s
  case kept => exact h.kept.deliver s
  case counts =>
    intro i outcome hi hout
    rw [Engine.outcome?, htasks] at hout
    exact h.counts i outcome hi hout
  case gained => exact h.gained.trans (.of_frame (by rw [htasks]) hstore)
  case posted => simpa only [htasks] using h.posted
  case total => exact h.total
  case stands => exact h.stands

theorem next (h : r.Conserves base source) (hmore : ¬r.IsOver) (hended : r.batch.AllEnded) :
    r.next.Conserves base source := by
  have hown : r.batch.own.length = r.batch.size := by
    rw [Batch.own, List.length_drop, ← h.orderly.tasks, Nat.add_sub_cancel_left]
  have houtcomes : ∀ t ∈ r.batch.own, ∃ o, t.outcome? = some o ∧ o.Counts := by
    intro t ht
    obtain ⟨k, hk⟩ := List.mem_iff_getElem?.1 ht
    have hlt : k < r.batch.size := hown ▸ (List.getElem?_eq_some_iff.1 hk).1
    have hhas : r.batch.has (r.batch.first + k) = true := by
      simp only [Batch.has, Bool.and_eq_true, decide_eq_true_eq]
      omega
    have hout : r.batch.engine.outcome? (r.batch.first + k) = t.outcome? := by
      rw [Engine.outcome?, ← List.getElem?_drop]
      exact congrArg (·.bind Task.outcome?) hk
    obtain ⟨o, ho⟩ := Option.ne_none_iff_exists'.1 (hended _ hhas)
    exact ⟨o, hout.symm.trans ho, h.counts _ o hhas ho⟩
  obtain ⟨os, hresults, hlength, hposted, hcounts⟩ := Batch.exists_outcomes houtcomes
  rw [← h.orderly.results_eq] at hresults
  obtain ⟨log, hclose⟩ := r.batch.close_eq
  obtain ⟨log', hrecorded⟩ := Engine.recorded_eq r.batch.results (r.batch.close, r.summary)
  rw [hresults, hclose] at hrecorded
  obtain ⟨htotal, hsum⟩ := r.summary.foldl_record hcounts
  have htasks : r.batch.engine.tasks.countP (·.hasPosted) =
      base.tasks.countP (·.hasPosted) + (r.summary.posted + os.countP (·.isPosted)) := by
    rw [hposted, ← Nat.add_assoc, ← h.posted, Batch.own, ← List.countP_append,
      List.take_append_drop]
  rw [Replay.next, hclose, hrecorded]
  obtain ⟨earlier, hstands⟩ := h.stands
  refine load h.size (h.kept.quiet hended) h.gained ?_ ?_ ⟨earlier + 1, hstands.next h.size hmore⟩
  · rw [hsum]
    exact htasks
  · rw [htotal, hlength, hown]
    exact h.total

theorem goes (h : r.Conserves base source)
    (hgoes : Goes (fun s => s.faults.panics = false) n r r') : r'.Conserves base source := by
  induction hgoes with
  | refl r => exact h
  | step hs hstep _ ih => exact ih (h.step hs hstep)
  | deliver s _ ih => exact ih (h.deliver s)
  | next hmore hended _ ih => exact ih (h.next hmore hended)

theorem counted (h : r.Conserves base source) (hover : r.IsOver) :
    r.counts.total = source.requests.length ∧
      r.counts.malformed = source.malformed + source.faults.length +
        ((source.requests.length + r.size - 1) / r.size + 1) *
          source.headerFault.toList.length ∧
      ∃ new, r.batch.engine.book.transactions = base.book.transactions ++ new ∧
        new.length = r.counts.posted := by
  obtain ⟨earlier, hstands⟩ := h.stands
  rw [hover] at hstands
  have hnone : r.reader.requests = [] := congrArg Csv.requestsOf (hstands.short h.size)
  refine ⟨?_, hstands.malformed h.size, ?_⟩
  · have htotal := h.total
    rw [hover, hnone] at htotal
    exact htotal
  · obtain ⟨new, hbook, htasks⟩ := h.gained
    have hposted := h.posted
    have hall : r.batch.first = r.batch.engine.tasks.length := by rw [← h.orderly.tasks, hover]; rfl
    rw [hall, List.take_length, htasks] at hposted
    exact ⟨new, hbook, Nat.add_left_cancel hposted⟩

theorem goesOn (h : r.Conserves base source) (s : Surroundings) :
    r.IsOver ∨ r.batch.AllEnded ∨ ∃ i b, r.batch.step s i = some b :=
  .inr (h.orderly.goesOn h.kept s)

end Conserves

/-- How many steps are left to a replay, at most: eight for each task, and one to read the batch
behind it, which has a request at least if it is not the last. -/
def left (r : Replay) : Nat :=
  r.batch.stepsLeft + (if r.batch.size = 0 then 0 else 1) + 9 * r.reader.requests.length

theorem left_load_le (size permits : Nat) (e : Engine) (reader : Csv.Reader)
    (summary : ReplaySummary) :
    (load size permits e reader summary).left ≤ 9 * reader.requests.length := by
  have hsteps := (load size permits e reader summary).batch.stepsLeft_le
  have hsize : (load size permits e reader summary).batch.size =
      (reader.readBatch size).1.requests.length := rfl
  have hrequests := congrArg List.length (reader.requests_readBatch size)
  have hreader : (load size permits e reader summary).reader = (reader.readBatch size).2 := rfl
  rw [List.length_append] at hrequests
  rw [hsize] at hsteps
  rw [left, hsize, hreader]
  split <;> omega

theorem Goes.size_eq (h : Goes P n r r') : r'.size = r.size := by
  induction h with
  | refl r => rfl
  | step _ _ _ ih => exact ih
  | deliver s _ ih => exact ih
  | next _ _ _ ih => exact ih

theorem Goes.left_le (h : Goes P n r r') (horderly : r.batch.Orderly) : n + r'.left ≤ r.left := by
  induction h with
  | refl r => exact Nat.le_of_eq (Nat.zero_add _)
  | @step n i s r r' b _ hstep _ ih =>
    have hless := horderly.stepsLeft_step hstep
    have hsize := (Batch.step_frame horderly hstep).2.1
    have hrest := ih (horderly.step hstep)
    simp only [left, hsize] at hrest ⊢
    omega
  | @deliver n r r' s _ ih =>
    have hrest := ih (horderly.deliver s)
    simp only [left] at hrest ⊢
    rwa [Batch.Orderly.stepsLeft_deliver] at hrest
  | @next n r r' hmore _ _ ih =>
    have hrest := ih (.start ..)
    have hload := left_load_le r.size r.permits
      (r.batch.results.foldl Engine.recordResult (r.batch.close, r.summary)).1 r.reader
      (r.batch.results.foldl Engine.recordResult (r.batch.close, r.summary)).2
    have hnext : r.next.left ≤ 9 * r.reader.requests.length := hload
    have hsize : r.batch.size ≠ 0 := hmore
    have hnow : r.left = r.batch.stepsLeft + 1 + 9 * r.reader.requests.length := by
      rw [left, if_neg hsize]
    omega

end Replay

namespace Engine

variable {P : Surroundings → Prop} {s : Surroundings} {e : Engine}

theorem Quiet.replayRows_goes (h : e.Quiet) (hs : P s) (size permits : Nat) (reader : Csv.Reader)
    (summary : ReplaySummary) : ∃ n r,
      Replay.Goes P n (Replay.load size permits e reader summary) r ∧ r.IsOver ∧
        e.replayRows s size permits reader summary = (r.batch.engine, r.counts) := by
  fun_induction Engine.replayRows s size permits e reader summary with
  | case1 e reader summary b e' hempty =>
    refine ⟨0, Replay.load size permits e reader summary, .refl _, ?_, ?_⟩
    · exact congrArg List.length hempty
    · have hbatch : (Replay.load size permits e reader summary).batch = .start e' [] permits :=
        congrArg (Batch.start e' · permits) hempty
      rw [hbatch]
      rfl
  | case2 e reader summary b e' hnonempty done acc ih =>
    obtain ⟨log, hskipped⟩ := skipped_eq b.1.faults e
    have hquiet : e'.Quiet := by
      have hsame : e' = { e with log } := hskipped
      rw [hsame]
      exact h
    obtain ⟨n, hgoes⟩ := Batch.goes_run hs (Batch.start e' b.1.requests permits)
    obtain ⟨hrest, hended⟩ := (Batch.Resting.start hquiet b.1.requests permits).run (s := s)
    have hrecorded : acc.1.Quiet := hrest.kept.quiet_recorded hended summary
    obtain ⟨m, r, hlater, hover, hresult⟩ := ih hrecorded
    have hmore : ((Batch.start e' b.1.requests permits).run s).size ≠ 0 := by
      rw [Batch.size_goes (.start ..) hgoes]
      exact fun hnone => hnonempty (List.eq_nil_of_length_eq_zero hnone)
    refine ⟨n + (m + 1), r, ?_, hover, hresult⟩
    exact (Replay.goes_of_batch (r := Replay.load size permits e reader summary) hgoes).trans
      (.next hmore hended hlater)

def replayStart (processors : Nat) (limits : ReplayLimits) (e : Engine) (bytes : List UInt8) :
    Replay :=
  .load limits.batchSize (limits.permits.getD processors) e (.ofBytes bytes) {}

/-- A replay that there is room for comes to its end, in whatever order the tasks take their steps
and whatever the store does wrong as long as nothing panics: after so many steps for each request at
most, and before that one can always be taken. Then each request of the file has been counted once,
and as posted as many as the ledger has gained transactions; each row that is passed over has been
counted, and a header that is no text once for each batch. The replay whose tasks run in the order
of their requests is one of these. -/
theorem replay_counts (hquiet : e.Quiet) {processors size permits : Nat}
    (hfits : (ReplayLimits.chosen size permits).Fits processors) (bytes : List UInt8) :
    (∀ s : Surroundings, s.faults.panics = false → ∃ n r,
      (replayStart processors (.chosen size permits) e bytes).Goes (·.faults.panics = false) n r ∧
        r.IsOver ∧ e.replay s processors (.chosen size permits) (.bytes bytes) =
          (r.batch.engine, .finished r.counts)) ∧
    ∀ n r, (replayStart processors (.chosen size permits) e bytes).Goes
        (·.faults.panics = false) n r →
      n ≤ 9 * (Csv.Reader.ofBytes bytes).requests.length ∧
      (∀ s, r.IsOver ∨ r.batch.AllEnded ∨ ∃ i b, r.batch.step s i = some b) ∧
      (r.IsOver →
        r.counts.posted + r.counts.duplicates + r.counts.rejected + r.counts.failed =
            (Csv.Reader.ofBytes bytes).requests.length ∧
          r.counts.malformed = (Csv.Reader.ofBytes bytes).faults.length +
            (((Csv.Reader.ofBytes bytes).requests.length +
              (ReplayLimits.chosen size permits).batchSize - 1) /
                (ReplayLimits.chosen size permits).batchSize + 1) *
              (Csv.Reader.ofBytes bytes).headerFault.toList.length ∧
          ∃ new, r.batch.engine.book.transactions = e.book.transactions ++ new ∧
            new.length = r.counts.posted) := by
  have hsize := ReplayLimits.batchSize_chosen_pos size permits
  constructor
  · intro s hs
    obtain ⟨n, r, hgoes, hover, hreplay⟩ := hquiet.replayRows_goes (s := s)
      (P := (·.faults.panics = false)) hs (ReplayLimits.chosen size permits).batchSize
      ((ReplayLimits.chosen size permits).permits.getD processors) (.ofBytes bytes) {}
    exact ⟨n, r, hgoes, hover, by rw [replay_of_fits hfits, hreplay]⟩
  · intro n r hgoes
    have hstart : (replayStart processors (.chosen size permits) e bytes).Conserves e
        (.ofBytes bytes) :=
      .load hsize hquiet (.of_frame rfl rfl) rfl (Nat.zero_add _)
        ⟨0, (Csv.Reader.ofBytes bytes).stands_first hsize⟩
    have hend := hstart.goes hgoes
    have hlimits : r.size = (ReplayLimits.chosen size permits).batchSize := hgoes.size_eq
    refine ⟨?_, hend.goesOn, fun hover => ?_⟩
    · have hsteps := hgoes.left_le hstart.orderly
      have hbound := Replay.left_load_le (ReplayLimits.chosen size permits).batchSize
        ((ReplayLimits.chosen size permits).permits.getD processors) e (.ofBytes bytes) {}
      exact (Nat.le_of_add_right_le hsteps).trans hbound
    · obtain ⟨htotal, hmalformed, hbook⟩ := hend.counted hover
      have hnothing : (Csv.Reader.ofBytes bytes).malformed = 0 := Csv.malformed_ofBytes bytes
      rw [hlimits, hnothing, Nat.zero_add] at hmalformed
      exact ⟨htotal, hmalformed, hbook⟩

def refusing : Surroundings := { calm with faults.save := some "full" }

theorem replay_counts_refused :
    (inMemory .absent).Quiet ∧ (ReplayLimits.chosen 1 0).Fits 4 ∧
      ∃ r : Replay, (inMemory .absent).replay refusing 4 (.chosen 1 0) (.bytes Csv.mixedFile) =
          (r.batch.engine, .finished r.counts) ∧
        r.counts.posted + r.counts.duplicates + r.counts.rejected + r.counts.failed = 2 ∧
        r.counts.malformed = 2 := by
  have hquiet : (inMemory .absent).Quiet := Locks.kept_empty
  have hfits : (ReplayLimits.chosen 1 0).Fits 4 := ⟨by decide +kernel, by decide +kernel⟩
  obtain ⟨hends, hall⟩ := replay_counts hquiet hfits Csv.mixedFile
  obtain ⟨n, r, hgoes, hover, hreplay⟩ := hends refusing rfl
  obtain ⟨htotal, hmalformed, -⟩ := (hall n r hgoes).2.2 hover
  have hrequests : (Csv.Reader.ofBytes Csv.mixedFile).requests.length = 2 := by decide +kernel
  have hheader : (Csv.Reader.ofBytes Csv.mixedFile).headerFault = none := by decide +kernel
  have hfaults : (Csv.Reader.ofBytes Csv.mixedFile).faults.length = 2 := by decide +kernel
  rw [hrequests] at htotal
  rw [hheader, hfaults, Option.toList_none, List.length_nil, Nat.mul_zero] at hmalformed
  exact ⟨hquiet, hfits, r, hreplay, htotal, hmalformed⟩

/-- The header, which is no text, is counted with each batch of a row and once more at the end, though
no other row is passed over. -/
theorem replay_counts_header :
    (inMemory .absent).Quiet ∧ (ReplayLimits.chosen 1 1).Fits 4 ∧
      ((inMemory .absent).replay calm 4 (.chosen 1 1) (.bytes smallFile)).2 =
        .finished { posted := 2, duplicates := 1, rejected := 1, failed := 0, malformed := 5 } ∧
      (Csv.Reader.ofBytes smallFile).faults = [] ∧
      (Csv.Reader.ofBytes smallFile).headerFault.toList.length = 1 :=
  ⟨Locks.kept_empty, ⟨by decide +kernel, by decide +kernel⟩, by decide +kernel, by decide +kernel,
    by decide +kernel⟩

end Engine

end Bookkeeping
