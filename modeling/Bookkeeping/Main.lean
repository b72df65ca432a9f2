import Bookkeeping.Command.LogLine
import Bookkeeping.Command.Run
/-! The command line: reads and writes files, and prints what a run has to say. -/
namespace Bookkeeping.Command

def failureText : IO.Error → String
  | .noFileOrDirectory _ _ _ => "No such file or directory (os error 2)"
  | .permissionDenied _ code _ => "Permission denied (os error " ++ toString code ++ ")"
  | .inappropriateType _ code details | .invalidArgument _ code details =>
    details ++ " (os error " ++ toString code ++ ")"
  | e => e.toString

def findJournal (path : String) : IO (Journal.Target × List UInt8) := do
  if path = "/dev/null" then return (.nullDevice, [])
  try
    let bytes ← IO.FS.readBinFile path
    return (.regularFile, bytes.toList)
  catch
    | .noFileOrDirectory _ _ _ =>
      try
        IO.FS.writeBinFile path .empty
        return (.regularFile, [])
      catch e => return (.unusable (failureText e), [])
    | e => return (.unusable (failureText e), [])

/-- The rows to replay at a path. A directory can be opened, but not read. -/
def readInput (path : String) : IO ReplayInput := do
  try
    let bytes ← IO.FS.readBinFile path
    return .bytes bytes.toList
  catch
    | e@(.inappropriateType _ 21 _) => return .unreadable (failureText e)
    | _ => return .missing path

def numberAfter (word text : String) : Nat :=
  match (text.splitOn word).getD 1 "" |>.trimAscii.toString.toList.takeWhile Text.isDigit with
  | [] => 0
  | cs => Text.digitsValue cs

def now : IO Moment := do
  let started := numberAfter "btime" (← IO.FS.readFile "/proc/stat")
  let uptime ← IO.FS.readFile "/proc/uptime"
  let whole := Text.digitsValue (uptime.toList.takeWhile Text.isDigit)
  let fraction := numberAfter "." uptime
  return (Moment.ofUnix? (started + whole) (fraction * 10000000)).getD .epoch

def freshFrom (seed : List UInt8) (moment : Moment) (n : Nat) : Uuid × Moment :=
  (.random (Digest.sha1 (seed ++ Text.encode (Text.natText n))), moment)

/-- Writes the journal's file: whole if it was shortened, and otherwise only what was added. -/
def writeJournal (path : String) (old new : List UInt8) : IO Unit := do
  if new.length < old.length then IO.FS.writeBinFile path ⟨new.toArray⟩
  else if old.length < new.length then
    IO.FS.withFile path .append fun h => do
      h.write ⟨(new.drop old.length).toArray⟩
      h.flush

def printReport (i : Invocation) (r : Report) : IO Unit := do
  for e in r.log do
    if e.severity.isShownAt i.logLevel then
      IO.eprintln (if i.logAsJson then e.jsonLine else e.plainLine)
  IO.print r.output
  if let some text := r.complaint then IO.eprintln text

def execute (i : Invocation) : IO UInt32 := do
  let (target, bytes) ← match i.journal with
    | some path => findJournal path
    | none => pure (.regularFile, [])
  match i.openEngine target bytes with
  | .error e =>
    let r := Report.ofError e
    printReport i r
    return r.code.toUInt32
  | .ok e =>
    let keep (old new : List UInt8) : IO Unit := do
      if let (.regularFile, some path) := (target, i.journal) then writeJournal path old new
    keep bytes e.store.file
    let input ← match i.task with
      | .replay path _ _ => readInput path
      | _ => pure (.bytes [])
    let seed ← IO.getRandomBytes 16
    let fresh := freshFrom seed.toList (← now)
    let (done, r) := i.run { device := target.device none, fresh, input := fun _ => input } e
    keep e.store.file done.store.file
    printReport i r
    return r.code.toUInt32

end Bookkeeping.Command

open Bookkeeping.Command in
def main (args : List String) : IO UInt32 := do
  match Invocation.read ("ledger" :: args) with
  | .ok i =>
    if let some r := i.halted? (.standard (i.workers 1)) then
      printReport i r
      return r.code.toUInt32
    try execute i
    catch e =>
      IO.eprintln ("Error: Storage error: " ++ failureText e)
      return 1
  | .error refusal =>
    let r := Report.ofRefusal refusal
    IO.print r.output
    if let some text := r.complaint then IO.eprintln text
    return r.code.toUInt32
