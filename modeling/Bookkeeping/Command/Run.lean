import Bookkeeping.Command.Directory
import Bookkeeping.Command.Invocation
import Bookkeeping.Csv.Writing
import Bookkeeping.Engine.Opening
/-!
Runs of the program: once it has workers to run on, a task is done on the journal's book or on an
empty one, its answer is printed, and the journal file holds what was posted.
-/
namespace Bookkeeping.Command

/-- What a run prints, what it says of an error, its exit code, and what it reports. -/
structure Report where
  output : String := ""
  complaint : Option String := none
  code : Nat := 0
  log : List LogEvent := []

structure World where
  device : Journal.Device := .sound
  processors : Nat := 1
  fresh : Nat → Uuid × Moment
  /-- The file to replay, by its path. -/
  input : String → ReplayInput

def World.surroundings (w : World) : Surroundings := { device := w.device, fresh := w.fresh }

namespace Report

def ofError (e : Error) : Report := { complaint := some ("Error: " ++ e.message), code := 1 }

def ofText : Except Error String → Report
  | .ok s => { output := s }
  | .error e => ofError e

/-- Help is no mistake; everything else that is refused is. -/
def ofRefusal : Refusal → Report
  | .help about => { output := about ++ "\n" }
  | r => { complaint := some r.message, code := 2 }

def aborted : Report := { code := 101 }

end Report

/-- What comes of asking for a runtime with a number of workers. -/
inductive Startup where
  | ready
  | refused (reason : String)
  /-- The process died of it, with an exit code. -/
  | died (code : Nat)
  deriving DecidableEq, Repr

/-- The most workers that can be listed: a list holds less than 2^63 bytes, 8 for each of them. -/
def maxWorkers : Nat := (twoTo 63 - 1) / 8

/-- A machine that starts as many workers as can be listed. -/
def Startup.standard (workers : Nat) : Startup := if workers ≤ maxWorkers then .ready else .died 101

def Task.run (w : World) (e : Engine) : Task → Engine × Report
  | .post r =>
    match e.post w.surroundings r with
    | (e, .posted transaction) => (e, { output := "posted " ++ transaction.id.text ++ "\n" })
    | (e, .duplicate) => (e, { output := "duplicate\n" })
    | (e, .failed error) => (e, .ofError error)
    | (e, .panicked) | (e, .cancelled) => (e, .aborted)
  | .balance account => (e, .ofText ((·.text ++ "\n") <$> e.book.balance account))
  | .entries none => (e, .ofText (.ok (Csv.entriesReport e.book.entries)))
  | .entries (some account) => (e, .ofText (.ok (Csv.entriesReport (e.book.entriesOf account))))
  | t@(.replay path _ _) =>
    match e.replay w.surroundings w.processors t.limits (w.input path) with
    | (e, .finished _) => (e, .ofText (Csv.balancesReport <$> e.book.balances))
    | (e, .failed error) => (e, .ofError error)
    | (e, .noRoom) => (e, .aborted)

namespace Invocation

/-- How many workers an invocation asks for: without a limit on postings, one for each processor. -/
def workers (i : Invocation) (processors : Nat) : Nat := i.task.limits.permits.getD processors

/-- How an invocation ends that has no runtime to run on. -/
def halted? (i : Invocation) : Startup → Option Report
  | .ready => none
  | .refused reason =>
    some
      { complaint := some ("Error: Failed to create tokio runtime: " ++ reason)
        code := 1
        log := i.task.limitWarnings }
  | .died code => some { code, log := i.task.limitWarnings }

/-- What arguments ask for, or how the run ends before it comes to its journal. -/
def start (startup : Nat → Startup) (processors : Nat) (args : List String) :
    Except Report Invocation :=
  match read args with
  | .error refusal => .error (.ofRefusal refusal)
  | .ok i =>
    match i.halted? (startup (i.workers processors)) with
    | some report => .error report
    | none => .ok i

def openEngine (i : Invocation) (target : Journal.Target) (bytes : List UInt8) :
    Except Error Engine :=
  let notifier : Notifier := .running .reporting []
  if i.journal.isNone then .ok (Engine.inMemory notifier)
  else Engine.onJournal notifier target bytes

def run (i : Invocation) (w : World) (e : Engine) : Engine × Report :=
  let (e, report) := i.task.run w { e with log := i.task.limitWarnings ++ e.log }
  let e := e.deliver w.surroundings
  (e, { report with log := e.log })

end Invocation

namespace Directory

/-- Does the task of an invocation that has a runtime, and whose paths lead into a directory. -/
def invoke (d : Directory) (processors : Nat) (fresh : Nat → Uuid × Moment) (i : Invocation) :
    Directory × Report :=
  let path := i.journal.getD ""
  match i.openEngine (d.target path) (d.bytesAt path) with
  | .error e => (d, { Report.ofError e with log := i.task.limitWarnings })
  | .ok e =>
    let d := d.putAt path e.store.file
    let device := match i.journal with
      | none => .sound
      | some _ => (d.target path).device none
    let (e, report) := i.run { device, processors, fresh, input := d.input } e
    (d.putAt path e.store.file, report)

/-- Runs the program in a directory, on a machine that starts workers or does not. The first of the
arguments is the program's name. -/
def runUnder (d : Directory) (startup : Nat → Startup) (processors : Nat)
    (fresh : Nat → Uuid × Moment) (args : List String) : Directory × Report :=
  match Invocation.start startup processors args with
  | .ok i => d.invoke processors fresh i
  | .error report => (d, report)

/-- Runs the program where nothing but their number keeps workers from starting. -/
def run (d : Directory) (processors : Nat) (fresh : Nat → Uuid × Moment) (args : List String) :
    Directory × Report :=
  d.runUnder Startup.standard processors fresh args

end Directory

end Bookkeeping.Command
