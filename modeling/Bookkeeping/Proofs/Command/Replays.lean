import Bookkeeping.Command.Run
import Bookkeeping.Proofs.Engine.Counting

/-! Replays under whatever limits the arguments ask for. A replay of a file that is there comes to its
counts, whatever the store and its panics make of the postings, unless its limits are more than there
is room for; then it ends before a row is read. -/
namespace Bookkeeping

namespace Replay

variable {P : Surroundings → Prop} {s : Surroundings} {e : Engine} {r r' : Replay} {b : Batch}
  {i n : Nat}

/-- The batch of a replay is in order: its tasks are there, and those of them that have asked for
locks stand in the lines. -/
structure UnderWay (r : Replay) : Prop where
  orderly : r.batch.Orderly
  kept : r.batch.Kept

namespace UnderWay

theorem load (hquiet : e.Quiet) (size permits : Nat) (reader : Csv.Reader)
    (summary : ReplaySummary) : (Replay.load size permits e reader summary).UnderWay := by
  obtain ⟨log, hbatch⟩ := batch_load size permits e reader summary
  have hlogged : ({ e with log } : Engine).Quiet := hquiet
  exact ⟨hbatch ▸ .start .., hbatch ▸ .start hlogged ..⟩

theorem step (h : r.UnderWay) (hstep : r.batch.step s i = some b) :
    ({ r with batch := b } : Replay).UnderWay :=
  ⟨h.orderly.step hstep, h.kept.step h.orderly hstep⟩

theorem deliver (h : r.UnderWay) (s : Surroundings) :
    ({ r with batch.engine := r.batch.engine.deliver s } : Replay).UnderWay :=
  ⟨h.orderly.deliver s, h.kept.deliver s⟩

theorem next (h : r.UnderWay) (hended : r.batch.AllEnded) : r.next.UnderWay :=
  load (h.kept.quiet_recorded hended r.summary) ..

theorem goes (h : r.UnderWay) (hgoes : Goes P n r r') : r'.UnderWay := by
  induction hgoes with
  | refl r => exact h
  | step _ hstep _ ih => exact ih (h.step hstep)
  | deliver s _ ih => exact ih (h.deliver s)
  | next _ hended _ ih => exact ih (h.next hended)

end UnderWay

end Replay

/-- There is room for the limits that are given; those that are not do not matter. -/
structure ReplayLimits.Room (batchSize permits : Option Nat) : Prop where
  batchSize : ∀ n ∈ batchSize, n ≤ Csv.maxBatchSize
  permits : ∀ n ∈ permits, n ≤ Batch.maxPermits

namespace Command.Task

variable {batchSize permits : Option Nat} {processors : Nat}

theorem batchSize_limits_le (path : String) :
    (replay path batchSize permits).limits.batchSize ≤ Csv.maxBatchSize ↔
      ∀ n ∈ batchSize, n ≤ Csv.maxBatchSize := by
  have hdefault : 1000 ≤ Csv.maxBatchSize := by decide +kernel
  cases batchSize with
  | none => simpa [limits, ReplayLimits.chosen] using hdefault
  | some n =>
    by_cases hn : n = 0
    · simpa [limits, ReplayLimits.chosen, hn] using hdefault
    · simp [limits, ReplayLimits.chosen, hn]

theorem permits_limits_le (hprocessors : processors ≤ Batch.maxPermits) (path : String) :
    (replay path batchSize permits).limits.permits.getD processors ≤ Batch.maxPermits ↔
      ∀ n ∈ permits, n ≤ Batch.maxPermits := by
  cases permits with
  | none => simpa [limits, ReplayLimits.chosen] using hprocessors
  | some n =>
    by_cases hn : n = 0
    · simpa [limits, ReplayLimits.chosen, hn] using hprocessors
    · simp [limits, ReplayLimits.chosen, hn]

theorem fits_limits_iff (hprocessors : processors ≤ Batch.maxPermits) (path : String) :
    (replay path batchSize permits).limits.Fits processors ↔
      ReplayLimits.Room batchSize permits := by
  constructor
  · exact fun h => ⟨(batchSize_limits_le path).1 h.batchSize,
      (permits_limits_le hprocessors path).1 h.permits⟩
  · exact fun h => ⟨(permits_limits_le hprocessors path).2 h.permits,
      (batchSize_limits_le path).2 h.batchSize⟩

end Command.Task

namespace Command

open Engine

/-- A replay that arguments ask for ends with an error if its file is not there. Otherwise it comes
to its counts if there is room for the limits that are given, zeros among them: in whatever order
the tasks take their steps and whatever the store does, even if it panics, it goes on until it is
over, after so many steps for each request at most. If there is no room for them it ends without
either, and nothing is posted. -/
theorem replay_answers {e : Engine} (hquiet : e.Quiet) {processors : Nat}
    (hprocessors : processors ≤ Batch.maxPermits) (path : String)
    (batchSize permits : Option Nat) :
    let limits := (Task.replay path batchSize permits).limits
    (∀ s missing, e.replay s processors limits (.missing missing) =
      (e, .failed (.fileNotFound missing))) ∧
    ∀ input reader, input.reader? = some reader →
      (¬ReplayLimits.Room batchSize permits →
        ∀ s, e.replay s processors limits input = (e, .noRoom)) ∧
      (ReplayLimits.Room batchSize permits →
        let start := Replay.load limits.batchSize (limits.permits.getD processors) e reader {}
        (∀ s, ∃ n r, start.Goes (fun _ => True) n r ∧ r.IsOver ∧
          e.replay s processors limits input = (r.batch.engine, .finished r.counts)) ∧
        ∀ n r, start.Goes (fun _ => True) n r → n ≤ 9 * reader.requests.length ∧
          ∀ s, r.IsOver ∨ r.batch.AllEnded ∨ ∃ i b, r.batch.step s i = some b) := by
  intro limits
  refine ⟨fun s missing => rfl, fun input reader hreader => ⟨fun hroom s => ?_, fun hroom => ?_⟩⟩
  · have hfits : ¬limits.Fits processors :=
      (Task.fits_limits_iff hprocessors path).not.2 hroom
    exact replay_of_no_room hfits hreader s e
  · intro start
    have hfits : limits.Fits processors := (Task.fits_limits_iff hprocessors path).2 hroom
    have hstart : start.UnderWay := .load hquiet ..
    refine ⟨fun s => ?_, fun n r hgoes => ⟨?_, fun s => ?_⟩⟩
    · obtain ⟨n, r, hgoes, hover, hrows⟩ := hquiet.replayRows_goes (s := s) (P := fun _ => True)
        trivial limits.batchSize (limits.permits.getD processors) reader {}
      exact ⟨n, r, hgoes, hover, by rw [replay_of_reader hfits hreader, hrows]⟩
    · have hsteps := hgoes.left_le hstart.orderly
      exact (Nat.le_of_add_right_le hsteps).trans (Replay.left_load_le ..)
    · have hend := hstart.goes hgoes
      exact .inr (hend.orderly.goesOn hend.kept s)

theorem replay_answers_panicking :
    (inMemory .absent).Quiet ∧ 4 ≤ Batch.maxPermits ∧
      ReplayLimits.Room (some 0) (some Batch.maxPermits) ∧
      ∃ r : Replay, (inMemory .absent).replay { calm with faults.panics := true } 4
          (Task.replay "rows.csv" (some 0) (some Batch.maxPermits)).limits (.bytes smallFile) =
        (r.batch.engine, .finished r.counts) := by
  have hquiet : (inMemory .absent).Quiet := Locks.kept_empty
  have hprocessors : 4 ≤ Batch.maxPermits := by decide +kernel
  have hroom : ReplayLimits.Room (some 0) (some Batch.maxPermits) :=
    ⟨by simp, by simp⟩
  obtain ⟨-, hthere⟩ :=
    replay_answers hquiet hprocessors "rows.csv" (some 0) (some Batch.maxPermits)
  obtain ⟨n, r, -, -, hreplay⟩ := ((hthere (.bytes smallFile) _ rfl).2 hroom).1
    { calm with faults.panics := true }
  exact ⟨hquiet, hprocessors, hroom, r, hreplay⟩

/-- The greatest number that is taken for an option is more permits than can be counted. -/
theorem replay_lacks_room :
    Invocation.read ["ledger", "replay", "--max-concurrent", "18446744073709551615", "rows.csv"] =
        .ok { task := .replay "rows.csv" none (some 18446744073709551615) } ∧
      ((inMemory .absent).replay calm 4
        (Task.replay "rows.csv" none (some 18446744073709551615)).limits
        (.bytes smallFile)).2 = .noRoom := by
  refine ⟨?_, ?_⟩
  · decide +kernel
  · decide +kernel

end Command

end Bookkeeping
