import Bookkeeping.Proofs.Engine.Permits
import Bookkeeping.Proofs.Engine.TrialBalance

/-! Whatever drives an engine, one posting, a batch or a whole replay, is a run of moves, so that
what every move keeps is kept by it. Double entry is kept so, whatever fails on the way. -/
namespace Bookkeeping

namespace Engine

def Reaches (e e' : Engine) : Prop := ∃ ms, e.moves ms = e'

variable {e e' e'' : Engine}

theorem Reaches.refl (e : Engine) : Reaches e e := ⟨[], rfl⟩

theorem Reaches.trans (h : Reaches e e') (h' : Reaches e' e'') : Reaches e e'' := by
  obtain ⟨ms, rfl⟩ := h
  obtain ⟨ms', rfl⟩ := h'
  exact ⟨ms ++ ms', moves_append e ms ms'⟩

theorem Reaches.ite (c : Prop) [Decidable c] (h : Reaches e e') (h' : Reaches e e'') :
    Reaches e (if c then e' else e'') := by
  split
  · exact h
  · exact h'

theorem reaches_move (e : Engine) (m : Move) : Reaches e (e.move m) := ⟨[m], rfl⟩

theorem reaches_foldl {α : Type} {f : Engine → α → Engine} (hf : ∀ e a, Reaches e (f e a))
    (as : List α) (e : Engine) : Reaches e (as.foldl f e) := by
  induction as generalizing e with
  | nil => exact .refl e
  | cons a as ih => exact (hf e a).trans (ih (f e a))

variable (s : Surroundings)

theorem reaches_start (e : Engine) (r : PostingRequest) : Reaches e (e.start r) :=
  e.reaches_move (.start r)

theorem reaches_cancel (e : Engine) (i : Nat) : Reaches e (e.cancel i) :=
  e.reaches_move (.cancel i)

theorem reaches_deliver (e : Engine) : Reaches e (e.deliver s) := e.reaches_move (.deliver s)

theorem reaches_logged (e : Engine) (event : LogEvent) : Reaches e (e.logged event) :=
  e.reaches_move (.report event)

variable {s} in
theorem reaches_step {i : Nat} (h : e.step s i = some e') : Reaches e e' :=
  move_of_step h ▸ e.reaches_move (.step s i)

theorem reaches_runFor (n : Nat) (e : Engine) (i : Nat) : Reaches e (runFor s n e i) := by
  induction n generalizing e with
  | zero => exact .refl e
  | succ n ih =>
    rw [runFor]
    cases hstep : e.step s i with
    | none => exact .refl e
    | some e' => exact (reaches_step hstep).trans (ih e')

theorem reaches_run (e : Engine) (i : Nat) : Reaches e (e.run s i) := reaches_runFor s 8 e i

theorem reaches_takeTurn (e : Engine) (turn : Turn) : Reaches e (e.takeTurn s turn) := by
  cases turn with
  | task i => exact (e.reaches_move (.withdraw (.task i))).trans (reaches_run s _ i)
  | notifier => exact reaches_deliver s e

theorem reaches_settleFor (n : Nat) (e : Engine) : Reaches e (settleFor s n e) := by
  induction n generalizing e with
  | zero => exact .refl e
  | succ n ih =>
    rw [settleFor]
    cases e.ready with
    | nil => exact .refl e
    | cons turn rest => exact (reaches_takeTurn s e turn).trans (ih _)

theorem reaches_settle (e : Engine) : Reaches e (e.settle s) := reaches_settleFor s _ e

theorem reaches_post (e : Engine) (r : PostingRequest) : Reaches e (e.post s r).1 :=
  ((e.reaches_start r).trans (reaches_run s _ _)).trans (reaches_cancel _ _)

theorem reaches_postAndWait (e : Engine) (r : PostingRequest) :
    Reaches e (e.postAndWait s r).1 := by
  have hfirst : Reaches e (if e.reachesDevice s r then e.deliver s else e) :=
    .ite _ (reaches_deliver s e) (.refl e)
  have hrun := (hfirst.trans (reaches_start _ r)).trans (reaches_run s _ e.tasks.length)
  exact (hrun.trans (.ite _ (reaches_settle s _) (.refl _))).trans (reaches_cancel _ _)

end Engine

section Batches

open Engine (Reaches)

variable {s : Surroundings}

theorem Batch.reaches_step {b b' : Batch} {i : Nat} (h : b.step s i = some b') :
    Reaches b.engine b'.engine := by
  cases step_stepped h with
  | entered _ _ => exact .refl _
  | queued _ _ => exact .refl _
  | moved _ hmove _ => exact Engine.reaches_step hmove
  | ended _ hmove _ =>
    rw [engine_release]
    exact Engine.reaches_step hmove

variable (s)

theorem Batch.reaches_runTaskFor (n : Nat) (b : Batch) (i : Nat) :
    Reaches b.engine (runTaskFor s n b i).engine := by
  induction n generalizing b with
  | zero => exact .refl _
  | succ n ih =>
    rw [runTaskFor]
    cases hstep : b.step s i with
    | none => exact .refl _
    | some b' => exact (reaches_step hstep).trans (ih b')

theorem Batch.reaches_runTask (b : Batch) (i : Nat) : Reaches b.engine (b.runTask s i).engine :=
  (b.reaches_runTaskFor s 9 i).trans (Engine.reaches_deliver s _)

theorem Batch.reaches_run (b : Batch) : Reaches b.engine (b.run s).engine := by
  have hmembers (is : List Nat) (b : Batch) :
      Reaches b.engine (is.foldl (runTask s) b).engine := by
    induction is generalizing b with
    | nil => exact .refl _
    | cons i is ih => exact (b.reaches_runTask s i).trans (ih _)
  exact (Engine.reaches_deliver s b.engine).trans
    (hmembers b.members { b with engine := b.engine.deliver s })

theorem Batch.reaches_close (b : Batch) : Reaches b.engine b.close := by
  refine Engine.reaches_foldl (fun e i => ?_) b.members b.engine
  split
  · exact Engine.reaches_logged e _
  · exact .refl e

namespace Engine

theorem reaches_process (e : Engine) (requests : List PostingRequest) (permits : Nat) :
    Reaches e (e.process s requests permits).1 := by
  have hstart : Reaches e (Batch.start e requests permits).engine :=
    reaches_foldl reaches_start requests e
  exact (hstart.trans (Batch.reaches_run s _)).trans (Batch.reaches_close _)

theorem reaches_recordResults (results : List (PostingRequest × Outcome))
    (acc : Engine × ReplaySummary) : Reaches acc.1 (results.foldl recordResult acc).1 := by
  induction results generalizing acc with
  | nil => exact .refl _
  | cons r results ih =>
    refine Reaches.trans ?_ (ih (recordResult acc r))
    unfold recordResult
    split
    · split
      · exact reaches_logged _ _
      · exact reaches_logged _ _
    · exact .refl _

theorem reaches_replayRows (size permits : Nat) (e : Engine) (reader : Csv.Reader)
    (summary : ReplaySummary) : Reaches e (e.replayRows s size permits reader summary).1 := by
  fun_induction replayRows s size permits e reader summary with
  | case1 e reader summary b e' hempty =>
    exact reaches_foldl (fun e fault => reaches_logged e (.rowSkipped fault)) b.1.faults e
  | case2 e reader summary b e' hnonempty done acc ih =>
    have hskipped : Reaches e e' :=
      reaches_foldl (fun e fault => reaches_logged e (.rowSkipped fault)) b.1.faults e
    have hprocessed : Reaches e' done.1 := reaches_process s e' b.1.requests permits
    have hrecorded : Reaches done.1 acc.1 := reaches_recordResults done.2 (done.1, summary)
    exact ((hskipped.trans hprocessed).trans hrecorded).trans ih

theorem reaches_replay (processors : Nat) (limits : ReplayLimits) (e : Engine)
    (input : ReplayInput) : Reaches e (e.replay s processors limits input).1 := by
  have hrows (permits : Nat) (reader : Csv.Reader) :=
    reaches_replayRows s limits.batchSize permits e reader {}
  unfold replay
  cases input with
  | missing path => exact .refl e
  | unreadable reason =>
    simp only
    split
    · exact .refl e
    · exact hrows _ _
  | bytes bytes =>
    simp only
    split
    · exact .refl e
    · exact hrows _ _

/-- What drives an engine, each time in surroundings of its own: a posting that is given up where
it would have to wait, one that is waited for, or the replay of a file. -/
inductive Drive where
  | post (s : Surroundings) (r : PostingRequest)
  | postAndWait (s : Surroundings) (r : PostingRequest)
  | replay (s : Surroundings) (processors : Nat) (limits : ReplayLimits) (input : ReplayInput)

def drive (e : Engine) : Drive → Engine
  | .post s r => (e.post s r).1
  | .postAndWait s r => (e.postAndWait s r).1
  | .replay s processors limits input => (e.replay s processors limits input).1

def drives (e : Engine) (ds : List Drive) : Engine := ds.foldl drive e

theorem reaches_drives (e : Engine) (ds : List Drive) : Reaches e (e.drives ds) := by
  refine reaches_foldl (fun e d => ?_) ds e
  cases d with
  | post s r => exact reaches_post s e r
  | postAndWait s r => exact reaches_postAndWait s e r
  | replay s processors limits input => exact reaches_replay s processors limits e input

theorem Sound.reaches {e e' : Engine} {ps : List Posting} (h : e.Sound ps)
    (hreaches : Reaches e e') : ∃ new, e'.Sound (ps ++ new) := by
  obtain ⟨ms, rfl⟩ := hreaches
  have hacts : e.acts (ms.map .move) = e.moves ms := List.foldl_map
  exact hacts ▸ h.acts (ms.map .move)

/-- Postings and replays of whatever is asked for keep double entry, also where they fail, panic or
are given up: no key is posted twice, the transactions are valid, the entries are theirs and sum up
to zero, and what is booked stays. -/
theorem drives_keep_double_entry {e : Engine} (h : Fresh e) (ds es : List Drive) :
    ((e.drives ds).book.transactions.map (·.key)).Nodup ∧
      (∀ t ∈ (e.drives ds).book.transactions, t.Valid) ∧
      (e.drives ds).book.entries =
        (e.drives ds).book.transactions.flatMap (fun t => [t.debit, t.credit]) ∧
      (∃ d, (e.drives ds).book.trialBalance = .ok d ∧ d.isZero = true) ∧
      (e.drives ds).book.transactions <+: (e.drives (ds ++ es)).book.transactions ∧
      (e.drives ds).book.entries <+: (e.drives (ds ++ es)).book.entries := by
  obtain ⟨ps, hnow⟩ := h.sound.reaches (reaches_drives e ds)
  obtain ⟨new, hlater⟩ := hnow.reaches (reaches_drives (e.drives ds) es)
  rw [List.nil_append] at hnow hlater
  rw [drives, drives, ← List.foldl_append] at hlater
  have hbook : (e.drives ds).book = Book.of ps := hnow.store.book
  have hentries : (e.drives ds).book.entries =
      (e.drives ds).book.transactions.flatMap (·.posting.entries) :=
    hbook ▸ Book.entries_of_proper hnow.store.proper
  refine ⟨?_, ?_, hentries, Book.trialBalance_of_pairs hentries, hnow.earlier hlater⟩
  · rw [← hnow.keys_eq, hbook]
    exact hnow.store.keys
  · intro t ht
    rw [hbook] at ht
    obtain ⟨p, hp, rfl⟩ := List.mem_map.1 ht
    exact (hnow.store.proper p hp).valid

end Engine

end Batches

end Bookkeeping
