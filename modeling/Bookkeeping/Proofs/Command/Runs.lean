import Bookkeeping.Command.Run
import Bookkeeping.Proofs.Command.Directory
import Bookkeeping.Proofs.Engine.Limits

/-! Runs of the program on one journal, one after the other. Each of them opens the journal, does
its task and ends; yet they report what one engine does that keeps its book in memory all the while,
and what they leave behind in the journal are the whole lines of what they posted. -/
namespace Bookkeeping.Command

open Journal (encodeLine encodeLines)

/-- Texts that are printed and differ at most in identifiers and times. -/
inductive SameText : String → String → Prop where
  | refl (s : String) : SameText s s
  | posted (id id' : Uuid) :
      SameText ("posted " ++ id.text ++ "\n") ("posted " ++ id'.text ++ "\n")
  | entries {es es' : List Entry} (h : es.map (·.effect) = es'.map (·.effect)) :
      SameText (Csv.entriesReport es) (Csv.entriesReport es')

/-- Reports of runs that say the same and end the same; what they log is left open. -/
structure Report.Alike (r r' : Report) : Prop where
  output : SameText r.output r'.output
  complaint : r.complaint = r'.complaint
  code : r.code = r'.code

theorem Report.Alike.refl (r : Report) : r.Alike r := ⟨.refl _, rfl, rfl⟩

def Report.ofOutcome : Outcome → Report
  | .posted transaction => { output := "posted " ++ transaction.id.text ++ "\n" }
  | .duplicate => { output := "duplicate\n" }
  | .failed error => .ofError error
  | .panicked | .cancelled => .aborted

theorem Report.ofOutcome_alike {o o' : Outcome} (h : o.Alike o') :
    (Report.ofOutcome o).Alike (.ofOutcome o') := by
  cases h with
  | posted _ => exact ⟨.posted .., rfl, rfl⟩
  | refl _ => exact .refl _

theorem Task.run_post (w : World) (e : Engine) (r : PostingRequest) :
    (Task.post r).run w e =
      ((e.post w.surroundings r).1, .ofOutcome (e.post w.surroundings r).2) := by
  simp only [Task.run]
  generalize e.post w.surroundings r = posted
  obtain ⟨e', outcome⟩ := posted
  cases outcome <;> rfl

def Report.ofReplay (b : Book) : ReplayEnd → Report
  | .finished _ => .ofText (Csv.balancesReport <$> b.balances)
  | .failed error => .ofError error
  | .noRoom => .aborted

theorem Report.ofReplay_alike {b b' : Book} {ending ending' : ReplayEnd}
    (hbalances : b.balances = b'.balances)
    (h : (∃ summary summary', ending = .finished summary ∧ ending' = .finished summary') ∨
      ending = ending' ∧ ∀ summary, ending ≠ .finished summary) :
    (Report.ofReplay b ending).Alike (.ofReplay b' ending') := by
  rcases h with ⟨summary, summary', rfl, rfl⟩ | ⟨rfl, hnone⟩
  · rw [ofReplay, ofReplay, hbalances]
    exact .refl _
  · cases ending with
    | finished summary => exact absurd rfl (hnone summary)
    | failed error => exact .refl _
    | noRoom => exact .refl _

theorem Task.run_replay (w : World) (e : Engine) (path : String) (batchSize permits : Option Nat)
    {limits : ReplayLimits} (hlimits : (Task.replay path batchSize permits).limits = limits) :
    (Task.replay path batchSize permits).run w e =
      ((e.replay w.surroundings w.processors limits (w.input path)).1,
        .ofReplay (e.replay w.surroundings w.processors limits (w.input path)).1.book
          (e.replay w.surroundings w.processors limits (w.input path)).2) := by
  simp only [Task.run, hlimits]
  generalize e.replay w.surroundings w.processors limits (w.input path) = done
  obtain ⟨e', ending⟩ := done
  cases ending <;> rfl

/-- What a task adds to a journal, by what it reports. -/
inductive Task.Adds : Task → Report → List Posting → Prop where
  | posted {r : PostingRequest} {report : Report} (id : Uuid) (now : Moment)
      (hcode : report.code = 0) (hout : report.output = "posted " ++ id.text ++ "\n") :
      Adds (.post r) report [(r.toTransaction id now).posting]
  | duplicate {r : PostingRequest} {report : Report} (hcode : report.code = 0)
      (hout : report.output = "duplicate\n") : Adds (.post r) report []
  | failed {r : PostingRequest} {report : Report} (hcode : report.code = 1)
      (hout : report.output = "") : Adds (.post r) report []
  | balance (account : String) (report : Report) : Adds (.balance account) report []
  | entries (account : Option String) (report : Report) : Adds (.entries account) report []
  | replay (input : String) (batchSize permits : Option Nat) (report : Report)
      (ps : List Posting) : Adds (.replay input batchSize permits) report ps

theorem Task.Adds.withLog {t : Task} {report : Report} {ps : List Posting} (h : t.Adds report ps)
    (log : List LogEvent) : t.Adds { report with log } ps := by
  cases h with
  | posted id now hcode hout => exact .posted id now hcode hout
  | duplicate hcode hout => exact .duplicate hcode hout
  | failed hcode hout => exact .failed hcode hout
  | balance account => exact .balance account _
  | entries account => exact .entries account _
  | replay input batchSize permits => exact .replay input batchSize permits _ ps

/-- An engine on a journal and one in memory, both at rest, with books that are alike. -/
structure Beside (file : List UInt8) (e e' : Engine) : Prop where
  quiet : e.Quiet
  quiet' : e'.Quiet
  journal : ∃ s, e.store = .journal s file ∧ s.Whole file
  memory : ∃ b, e'.store = .memory b
  alike : e.book.Alike e'.book

namespace Beside

variable {file : List UInt8} {e e' : Engine}

theorem logged (h : Beside file e e') (log log' : List LogEvent) :
    Beside file { e with log } { e' with log := log' } :=
  ⟨h.quiet, h.quiet', h.journal, h.memory, h.alike⟩

theorem deliver (h : Beside file e e') (s s' : Surroundings) :
    Beside file (e.deliver s) (e'.deliver s') := by
  have hstore := (e.deliver_frame s).1
  have hstore' := (e'.deliver_frame s').1
  refine ⟨h.quiet.deliver s, h.quiet'.deliver s', ?_, ?_, ?_⟩
  · rw [hstore]
    exact h.journal
  · rw [hstore']
    exact h.memory
  · rw [Engine.book, Engine.book, hstore, hstore']
    exact h.alike

theorem whole (h : Beside file e e') : e.store.Whole := by
  obtain ⟨s, hstore, hwhole⟩ := h.journal
  rw [hstore]
  exact hwhole

theorem stores (h : Beside file e e') : ∃ s b, e.store = .journal s file ∧
    e'.store = .memory b ∧ s.Whole file ∧ s.book.Alike b := by
  obtain ⟨s, hstore, hwhole⟩ := h.journal
  obtain ⟨b, hstore'⟩ := h.memory
  have halike := h.alike
  rw [Engine.book, Engine.book, hstore, hstore'] at halike
  exact ⟨s, b, hstore, hstore', hwhole, halike⟩

theorem post (h : Beside file e e') (s s' : Surroundings) (hs : s.device = .sound)
    (hmild : s.faults.Mild) (hmild' : s'.faults.Mild) (r : PostingRequest) :
    ∃ ps, Beside (file ++ encodeLines ps) (e.post s r).1 (e'.post s' r).1 ∧
      (Task.post r).Adds (.ofOutcome (e.post s r).2) ps ∧
      (e.post s r).2.Alike (e'.post s' r).2 := by
  have hstays := h.whole
  obtain ⟨store, b, hstore, hstore', hwhole, halike⟩ := h.stores
  obtain ⟨id, now, hout, hpost, hquiet⟩ := h.quiet.post hmild r
  obtain ⟨id', now', hout', hpost', hquiet'⟩ := h.quiet'.post hmild' r
  rw [hstore] at hstays
  rw [hs, hstore] at hout hpost
  rw [hstore', Store.post_memory] at hout' hpost'
  -- the book says what becomes of the posting, and its fate what becomes of the file
  obtain ⟨hbook, hgrown, -⟩ := hstays.post r id now
  obtain ⟨houtcomes, hbooks⟩ := halike.post r id id' now now'
  have hnext : (e.post s r).1.book.Alike (e'.post s' r).1.book := by
    rw [Engine.book, Engine.book, hpost, hpost', hgrown]
    exact hbooks
  have hsame : (e.post s r).2.Alike (e'.post s' r).2 := by
    rw [hout, hout', hbook]
    exact houtcomes
  have hfate := hwhole.post_fate Journal.Device.stops_sound r id now
  rw [← Prod.mk.eta (p := (Store.journal store file).post .sound r id now), ← hout,
    ← hpost] at hfate
  generalize (e.post s r).2 = outcome at hfate hsame ⊢
  generalize hafter : (e.post s r).1.store = after at hfate
  cases hfate with
  | refused _ hrefused =>
    refine ⟨[], ⟨hquiet, hquiet', ⟨store, by simpa using hafter, by simpa using hwhole⟩,
      ⟨_, hpost'⟩, hnext⟩, ?_, hsame⟩
    cases hrefused with
    | duplicate => exact .duplicate rfl rfl
    | failed _ => exact .failed rfl rfl
  | posted hr id now =>
    have hproper := PostingRequest.proper_posting hr.1.key hr.1.validated id now
    have hkey : store.book.hasKey (r.toTransaction id now).posting.key = false :=
      Book.hasKey_eq_false.2 hr.2
    refine ⟨[(r.toTransaction id now).posting], ⟨hquiet, hquiet', ⟨_, by simpa using hafter, ?_⟩,
      ⟨_, hpost'⟩, hnext⟩, .posted id now rfl rfl, hsame⟩
    simpa using hwhole.grown hproper.plain_eq hkey
  | stopped hne => exact absurd rfl hne

theorem replay (h : Beside file e e') (s s' : Surroundings) (hs : s.device = .sound)
    (hmild : s.faults.Mild) (hmild' : s'.faults.Mild) (processors : Nat) (limits : ReplayLimits)
    (input : ReplayInput) :
    ∃ ps, Beside (file ++ encodeLines ps) (e.replay s processors limits input).1
      (e'.replay s' processors limits input).1 := by
  have hstays := h.whole
  obtain ⟨store, b, hstore, hstore', hwhole, halike⟩ := h.stores
  obtain ⟨os, hposts, -, hquiet⟩ := h.quiet.replay hmild processors limits input
  obtain ⟨os', hposts', -, hquiet'⟩ := h.quiet'.replay hmild' processors limits input
  rw [hs] at hposts
  rw [hstore'] at hposts'
  obtain ⟨ps, grown, hgrown, hextends, -⟩ := hposts.sound hstore hwhole
  have honBook := hposts.onBook hstays
  rw [hstore] at honBook
  have hbooks := (Store.Posts.alike halike honBook hposts').1
  obtain ⟨b', hmemory⟩ := hposts'.stays
  exact ⟨ps, hquiet, hquiet', ⟨grown, hgrown, hextends.whole⟩, ⟨b', hmemory⟩, hbooks⟩

theorem task (h : Beside file e e') (w w' : World) (hdevice : w.device = .sound)
    (hprocessors : w.processors = w'.processors) (hinput : w.input = w'.input) (t : Task) :
    ∃ ps, Beside (file ++ encodeLines ps) (t.run w e).1 (t.run w' e').1 ∧
      t.Adds (t.run w e).2 ps ∧ (t.run w e).2.Alike (t.run w' e').2 := by
  have hkept : Beside (file ++ encodeLines []) e e' := by simpa using h
  cases t with
  | post r =>
    obtain ⟨ps, hbeside, hadds, halike⟩ := h.post w.surroundings w'.surroundings hdevice
      Faults.mild_none Faults.mild_none r
    rw [Task.run_post, Task.run_post]
    exact ⟨ps, hbeside, hadds, Report.ofOutcome_alike halike⟩
  | balance account =>
    refine ⟨[], hkept, .balance account _, ?_⟩
    simp only [Task.run, h.alike.balance]
    exact .refl _
  | entries account =>
    refine ⟨[], by cases account <;> exact hkept, .entries account _, ?_⟩
    cases account with
    | none => exact ⟨.entries h.alike.effects, rfl, rfl⟩
    | some account => exact ⟨.entries (h.alike.effects_entriesOf account), rfl, rfl⟩
  | replay path batchSize permits =>
    generalize hlimits : (Task.replay path batchSize permits).limits = limits
    obtain ⟨ps, hbeside⟩ := h.replay w.surroundings w'.surroundings hdevice Faults.mild_none
      Faults.mild_none w.processors limits (w.input path)
    have hends := Engine.replay_ends w.processors limits (w.input path) e e' w.surroundings
      w'.surroundings
    rw [Task.run_replay w e _ _ _ hlimits, Task.run_replay w' e' _ _ _ hlimits, ← hprocessors,
      ← hinput]
    exact ⟨ps, hbeside, .replay path batchSize permits _ ps,
      Report.ofReplay_alike hbeside.alike.balances hends⟩

theorem run (h : Beside file e e') (w w' : World) (hdevice : w.device = .sound)
    (hprocessors : w.processors = w'.processors) (hinput : w.input = w'.input) (i : Invocation) :
    ∃ ps, Beside (file ++ encodeLines ps) (i.run w e).1 (i.run w' e').1 ∧
      i.task.Adds (i.run w e).2 ps ∧ (i.run w e).2.Alike (i.run w' e').2 := by
  obtain ⟨ps, hbeside, hadds, halike⟩ := (h.logged (i.task.limitWarnings ++ e.log)
    (i.task.limitWarnings ++ e'.log)).task w w' hdevice hprocessors hinput i.task
  exact ⟨ps, hbeside.deliver _ _, hadds.withLog _, halike.output, halike.complaint, halike.code⟩

end Beside

theorem Invocation.start_of_read {args : List String} {i : Invocation} {startup : Nat → Startup}
    {processors : Nat} (hread : Invocation.read args = .ok i)
    (hready : startup (i.workers processors) = .ready) :
    Invocation.start startup processors args = .ok i := by
  simp only [start, hread, hready, halted?]

/-- A run of the program: its arguments, the processors that it finds and the workers that it can
start, the identifiers and times that it makes transactions under, and what others do to the
directory before it. -/
structure Launch where
  args : List String
  startup : Nat → Startup
  processors : Nat
  fresh : Nat → Uuid × Moment
  before : Directory → Directory

/-- What a run sets out to do, or how it ends before that. -/
def Launch.start (l : Launch) : Except Report Invocation :=
  Invocation.start l.startup l.processors l.args

/-- The run is on the journal at a path, unless it ends before, and nobody else writes there. -/
structure Launch.On (l : Launch) (path : String) : Prop where
  journal : ∀ i, l.start = .ok i → i.journal = some path
  before : ∀ d, (l.before d).bytesAt path = d.bytesAt path

/-- What a run makes of a directory, and its report. -/
def Directory.launch (d : Directory) (l : Launch) : Directory × Report :=
  (l.before d).runUnder l.startup l.processors l.fresh l.args

theorem Directory.launch_eq (d : Directory) (l : Launch) :
    d.launch l = match l.start with
      | .ok i => (l.before d).invoke l.processors l.fresh i
      | .error report => (l.before d, report) := rfl

def Directory.withFile (d : Directory) (path : String) : Directory := d.putAt path (d.bytesAt path)

/-- What the task of a run makes of an engine that is kept open, and its report. What is to be
replayed is what the run finds in its directory, where the journal is made first. -/
def Launch.onEngine (l : Launch) (path : String) (d : Directory) (fresh : Nat → Uuid × Moment)
    (e : Engine) : Engine × Report :=
  match l.start with
  | .ok i =>
    i.run { processors := l.processors, fresh, input := ((l.before d).withFile path).input } e
  | .error report => (e, report)

/-- The directory after some runs, and the engine after their tasks. -/
def afterLaunches (path : String) (fresh : Nat → Uuid × Moment) (d : Directory) (e : Engine) :
    List Launch → Directory × Engine
  | [] => (d, e)
  | l :: ls => afterLaunches path fresh (d.launch l).1 (l.onEngine path d fresh e).1 ls

/-- What one run does: it reports what the engine does, adds the lines of what it posted to the
journal, and leaves all other files as they are; and one whose arguments are refused or that has no
runtime touches nothing. -/
structure Ran (path : String) (fresh : Nat → Uuid × Moment) (d : Directory) (e : Engine)
    (l : Launch) : Prop where
  reports : (d.launch l).2.Alike (l.onEngine path d fresh e).2
  appends : ∃ ps, (d.launch l).1.bytesAt path = d.bytesAt path ++ encodeLines ps ∧
    match l.start with
    | .ok i => i.task.Adds (d.launch l).2 ps
    | .error _ => ps = []
  halted : ∀ report, l.start = .error report → d.launch l = (l.before d, report)
  others : ∀ other, d.locate other ≠ d.locate path →
    (d.launch l).1.bytesAt other = (l.before d).bytesAt other

variable {path : String} {d : Directory} {e : Engine} {l : Launch} {ls : List Launch}

theorem Directory.invoke_eq {i : Invocation} {store : Journal.Store}
    (hjournal : i.journal = some path) (htarget : d.target path = .regularFile)
    (hwhole : store.Whole (d.bytesAt path)) (processors : Nat) (fresh : Nat → Uuid × Moment) :
    ∃ e, e.Quiet ∧ e.store = .journal store (d.bytesAt path) ∧
      d.invoke processors fresh i =
        ((d.withFile path).putAt path
            (i.run { processors, fresh, input := (d.withFile path).input } e).1.store.file,
          (i.run { processors, fresh, input := (d.withFile path).input } e).2) := by
  obtain ⟨e, hopen, hstore⟩ :=
    Engine.onJournal_of_whole hwhole List.not_mem_nil (.running .reporting [])
  rw [List.append_nil] at hopen
  have hengine : i.openEngine .regularFile (d.bytesAt path) = .ok e := by
    rw [Invocation.openEngine, hjournal]
    exact hopen
  have htarget' : (d.putAt path (d.bytesAt path)).target path = .regularFile :=
    target_of_regularFile htarget _
  have hfile : e.store.file = d.bytesAt path := by rw [hstore]; rfl
  refine ⟨e, (Engine.journal_of_onJournal hopen).1, hstore, ?_⟩
  unfold invoke
  simp only [hjournal, Option.getD_some, htarget, hengine, hfile, htarget']
  rfl

/-- The journal at a path is whole, and the engine at rest; their books are alike. -/
structure InStep (path : String) (d : Directory) (e : Engine) : Prop where
  target : d.target path = .regularFile
  whole : ∃ store : Journal.Store, store.Whole (d.bytesAt path) ∧ store.book.Alike e.book
  quiet : e.Quiet
  memory : ∃ b, e.store = .memory b

theorem InStep.before (h : InStep path d e) (hl : l.On path) : InStep path (l.before d) e where
  target := Directory.target_of_regularFile h.target _
  whole := by
    rw [hl.before]
    exact h.whole
  quiet := h.quiet
  memory := h.memory

theorem InStep.invoke (h : InStep path d e) {i : Invocation} (hjournal : i.journal = some path)
    (processors : Nat) (fresh fresh' : Nat → Uuid × Moment) :
    let w' : World := { processors, fresh := fresh', input := (d.withFile path).input }
    ∃ ps, InStep path (d.invoke processors fresh i).1 (i.run w' e).1 ∧
      (d.invoke processors fresh i).1.bytesAt path = d.bytesAt path ++ encodeLines ps ∧
      i.task.Adds (d.invoke processors fresh i).2 ps ∧
      (d.invoke processors fresh i).2.Alike (i.run w' e).2 ∧
      ∀ other, d.locate other ≠ d.locate path →
        (d.invoke processors fresh i).1.bytesAt other = d.bytesAt other := by
  intro w'
  obtain ⟨name, hname⟩ := Directory.target_eq_regularFile.1 h.target
  obtain ⟨store, hwhole, halike⟩ := h.whole
  obtain ⟨opened, hquiet, hstore, hinvoke⟩ :=
    Directory.invoke_eq hjournal h.target hwhole processors fresh
  have hbeside : Beside (d.bytesAt path) opened e := by
    refine ⟨hquiet, h.quiet, ⟨store, hstore, hwhole⟩, h.memory, ?_⟩
    rw [Engine.book, hstore]
    exact halike
  obtain ⟨ps, hafter, hadds, hreport⟩ :=
    hbeside.run { processors, fresh, input := (d.withFile path).input } w' rfl rfl rfl i
  obtain ⟨store', hstore', hwhole'⟩ := hafter.journal
  have hbytes (file : List UInt8) : ((d.withFile path).putAt path file).bytesAt path = file :=
    Directory.bytesAt_putAt (Directory.locate_of_file hname _) file
  rw [hinvoke]
  refine ⟨ps, ⟨?_, ⟨store', ?_, ?_⟩, hafter.quiet', hafter.memory⟩, ?_, hadds, hreport,
    fun other hother => ?_⟩
  · exact Directory.target_of_regularFile h.target _
  · rw [hbytes, hstore']
    exact hwhole'
  · have halike' := hafter.alike
    rwa [Engine.book, hstore'] at halike'
  · rw [hbytes, hstore']
    rfl
  · rw [Directory.bytesAt_putAt_of_ne (Directory.locate_ne hname hother _), Directory.withFile,
      Directory.bytesAt_putAt_of_ne hother]

theorem InStep.launch (h : InStep path d e) (hl : l.On path) (fresh : Nat → Uuid × Moment) :
    Ran path fresh d e l ∧ InStep path (d.launch l).1 (l.onEngine path d fresh e).1 := by
  have hbefore := h.before hl
  have hbytes := hl.before d
  have hlaunch := d.launch_eq l
  cases hstart : l.start with
  | error report =>
    have hengine : l.onEngine path d fresh e = (e, report) := by rw [Launch.onEngine, hstart]
    rw [hstart] at hlaunch
    refine ⟨⟨?_, ⟨[], ?_, by rw [hstart]⟩, fun report' hreport => ?_,
      fun other _ => by rw [hlaunch]⟩,
      ?_⟩
    · rw [hlaunch, hengine]
      exact .refl _
    · rw [hlaunch, hbytes]
      simp
    · rwa [← Except.error.inj (hstart.symm.trans hreport)]
    · rw [hlaunch, hengine]
      exact hbefore
  | ok i =>
    obtain ⟨ps, hstep, happends, hadds, hreport, hothers⟩ :=
      hbefore.invoke (hl.journal i hstart) l.processors l.fresh fresh
    have hengine : l.onEngine path d fresh e = i.run
        { processors := l.processors, fresh, input := ((l.before d).withFile path).input } e := by
      rw [Launch.onEngine, hstart]
    obtain ⟨name, hname⟩ := Directory.target_eq_regularFile.1 h.target
    rw [hstart] at hlaunch
    refine ⟨⟨?_, ⟨ps, ?_, ?_⟩, fun report hreport => ?_, fun other hother => ?_⟩, ?_⟩
    · rw [hlaunch, hengine]
      exact hreport
    · rw [hlaunch, ← hbytes]
      exact happends
    · rw [hstart, hlaunch]
      exact hadds
    · rw [hstart] at hreport
      nomatch hreport
    · rw [hlaunch]
      exact hothers other (Directory.locate_ne hname hother _)
    · rw [hlaunch, hengine]
      exact hstep

theorem InStep.afterLaunches (h : InStep path d e) (hls : ∀ l ∈ ls, l.On path)
    (fresh : Nat → Uuid × Moment) :
    InStep path (afterLaunches path fresh d e ls).1 (afterLaunches path fresh d e ls).2 := by
  induction ls generalizing d e with
  | nil => exact h
  | cons l ls ih =>
    obtain ⟨hfirst, hrest⟩ := List.forall_mem_cons.1 hls
    exact ih (h.launch hfirst fresh).2 hrest

theorem inStep_empty (hfile : d.target path = .regularFile) (hempty : d.bytesAt path = [])
    (notifier : Notifier) : InStep path d (.inMemory notifier) := by
  refine ⟨hfile, ⟨{}, ?_, .refl _⟩, Locks.kept_empty, ⟨{}, rfl⟩⟩
  rw [hempty]
  exact Journal.whole_empty

/-- Runs on a journal that starts empty, one after the other: whatever runs came before, each
reports what its task does on one engine that keeps its book in memory and did the tasks of those
runs; and each appends just the lines of what it posted, one for a posting that is reported as
posted, and none for any other and for a question. -/
theorem runs_as_in_memory (hfile : d.target path = .regularFile) (hempty : d.bytesAt path = [])
    (fresh : Nat → Uuid × Moment) (hls : ∀ l ∈ ls, l.On path) (hl : l.On path) :
    Ran path fresh (afterLaunches path fresh d (.inMemory (.running .reporting [])) ls).1
      (afterLaunches path fresh d (.inMemory (.running .reporting [])) ls).2 l :=
  (((inStep_empty hfile hempty _).afterLaunches hls fresh).launch hl fresh).1

def launchOf (args : List String) : Launch :=
  ⟨["ledger", "--journal", "j"] ++ args, .standard, 1, Engine.calm.fresh, id⟩

def transfer : Launch :=
  launchOf ["post", "--from", "a", "--to", "b", "--amount", "5", "--key", "k"]

def question : Launch := launchOf ["balance", "b"]

theorem runs_as_in_memory_transfer :
    let x := afterLaunches "j" Engine.calm.fresh {} (.inMemory (.running .reporting [])) [transfer]
    ({} : Directory).target "j" = .regularFile ∧ ({} : Directory).bytesAt "j" = [] ∧
      (∀ l ∈ [transfer], l.On "j") ∧ question.On "j" ∧
      SameText (x.1.launch question).2.output "5\n" := by
  intro x
  have hfile : ({} : Directory).target "j" = .regularFile := by decide +kernel
  have hempty : ({} : Directory).bytesAt "j" = [] := by decide +kernel
  have htransfer : transfer.start =
      .ok ⟨some "j", "info", false, .post ⟨"a", "b", .ofWord false 5, "k"⟩⟩ :=
    Invocation.start_of_read (by decide +kernel) (by decide +kernel)
  have hquestion : question.start = .ok ⟨some "j", "info", false, .balance "b"⟩ :=
    Invocation.start_of_read (by decide +kernel) (by decide +kernel)
  have hfirst : ∀ l ∈ [transfer], l.On "j" := by
    rw [List.forall_mem_singleton]
    refine ⟨fun i hi => ?_, fun d => rfl⟩
    rw [htransfer] at hi
    cases hi
    rfl
  have hsecond : question.On "j" := by
    refine ⟨fun i hi => ?_, fun d => rfl⟩
    rw [hquestion] at hi
    cases hi
    rfl
  have hran := runs_as_in_memory hfile hempty Engine.calm.fresh hfirst hsecond
  have hanswer : (question.onEngine "j" x.1 Engine.calm.fresh x.2).2.output = "5\n" := by
    decide +kernel
  refine ⟨hfile, hempty, hfirst, hsecond, ?_⟩
  rw [← hanswer]
  exact hran.reports.output

/-- More workers than can be listed: the run dies, and makes no journal. -/
example :
    let x := ({} : Directory).run 1 Engine.calm.fresh
      ["ledger", "--journal", "j", "replay", "--max-concurrent", "1152921504606846976", "rows"]
    x.2.code = 101 ∧ x.1 = {} := by
  decide +kernel

end Bookkeeping.Command
