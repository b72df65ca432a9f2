import Bookkeeping.Command.Arguments
import Bookkeeping.Command.Path
import Bookkeeping.Engine.Replay
/-! The commands of the program, and what its arguments ask for. -/
namespace Bookkeeping.Command

inductive Task where
  | post (request : PostingRequest)
  | balance (account : String)
  | entries (account : Option String)
  | replay (input : String) (batchSize permits : Option Nat)
  deriving DecidableEq, Repr

def Task.limits : Task → ReplayLimits
  | replay _ batchSize permits => .chosen (batchSize.getD 1000) (permits.getD 0)
  | _ => {}

def Task.limitWarnings : Task → List LogEvent
  | replay _ batchSize permits => ReplayLimits.warnings (batchSize.getD 1000) (permits.getD 1)
  | _ => []

structure Invocation where
  /-- The journal that holds the book, if it is not only in memory. -/
  journal : Option String := none
  logLevel : String := "info"
  logAsJson : Bool := false
  task : Task
  deriving DecidableEq, Repr

def commonParameters : List Parameter :=
  [⟨"journal", .option "PATH" .path⟩, ⟨"log-level", .option "LEVEL" .text⟩, ⟨"log-json", .switch⟩]

def programGrammar : Grammar where
  about := "Double-entry ledger with idempotent postings"
  parameters := commonParameters
  commands := ["post", "balance", "entries", "replay", "help"]

def helpAbout : String := "Print this message or the help of the given subcommand(s)"

def commandGrammar (name : String) : Grammar :=
  match name with
  | "post" =>
    { about := "Post a transfer between two accounts"
      parameters :=
        [⟨"from", .option "ACCOUNT" .text⟩, ⟨"to", .option "ACCOUNT" .text⟩,
          ⟨"amount", .option "AMOUNT" .amount⟩, ⟨"key", .option "KEY" .text⟩] ++ commonParameters
      required := ["from", "to", "amount", "key"] }
  | "balance" =>
    { about := "Print the balance of an account"
      parameters := commonParameters
      operand := some ⟨"account", .operand "ACCOUNT" .text⟩
      required := ["account"] }
  | "entries" =>
    { about := "Write ledger entries as CSV"
      parameters := ⟨"account", .option "ACCOUNT" .text⟩ :: commonParameters }
  | "replay" =>
    { about := "Post every row of a CSV file and write the resulting balances"
      parameters :=
        [⟨"batch-size", .option "SIZE" .count⟩, ⟨"max-concurrent", .option "COUNT" .count⟩] ++
          commonParameters
      operand := some ⟨"input", .operand "INPUT" .path⟩
      required := ["input"] }
  | _ => { about := helpAbout, parameters := [] }

namespace Matches

def text? (m : Matches) (name : String) : Option String :=
  match m.given.lookup name with
  | some (.text s) => some s
  | _ => none

def amount? (m : Matches) (name : String) : Option Decimal :=
  match m.given.lookup name with
  | some (.amount d) => some d
  | _ => none

def count? (m : Matches) (name : String) : Option Nat :=
  match m.given.lookup name with
  | some (.count n) => some n
  | _ => none

def task? (m : Matches) (command : String) : Option Task :=
  match command with
  | "post" => do
    return .post ⟨← m.text? "from", ← m.text? "to", ← m.amount? "amount", ← m.text? "key"⟩
  | "balance" => do return .balance (← m.text? "account")
  | "entries" => some (.entries (m.text? "account"))
  | "replay" => do
    return .replay (← m.text? "input") (m.count? "batch-size") (m.count? "max-concurrent")
  | _ => none

end Matches

def helpOn : List String → Refusal
  | [] => .help programGrammar.about
  | name :: rest =>
    if !programGrammar.commands.contains name then .unknownCommand name
    else
      match rest with
      | [] => .help (commandGrammar name).about
      | a :: _ => .unknownCommand a

def readCommand (name : String) (args : List String) : Except Refusal (Matches × Task) := do
  let g := commandGrammar name
  let s ← g.scan true {} args
  let m ← s.found.settle
  match m.task? name with
  | some task => if g.required.all m.has then return (m, task) else .error .missingArguments
  | none => .error .missingArguments

/-- The name of the program by the path under which it was called. -/
def programName (path : String) : String := (lastName? path).getD "ledger"

/-- Reads arguments, the first of which is the name of the program. An option that every command
has may stand before the command and after it, where it counts more. -/
def Invocation.read (args : List String) : Except Refusal Invocation := do
  let program := programGrammar
  let s ← program.scan true {} args.tail
  match s.command with
  | none =>
    let m ← s.found.settle
    if m.given.isEmpty then .error (.nothingGiven program.about)
    else .error (.noCommand (programName (args.headD "")))
  | some ("help", rest) => .error (helpOn rest)
  | some (name, rest) =>
    let (inner, task) ← readCommand name rest
    let outer ← s.found.settle
    return {
      journal := inner.text? "journal" <|> outer.text? "journal"
      logLevel := (inner.text? "log-level" <|> outer.text? "log-level").getD "info"
      logAsJson := inner.has "log-json" || outer.has "log-json"
      task }

end Bookkeeping.Command
