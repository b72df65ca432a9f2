import Bookkeeping.Decimal.Reading
import Bookkeeping.Power
import Bookkeeping.Text.Integer
/-! The parameters of a command, their values, and why arguments are refused. -/
namespace Bookkeeping.Command

inductive ValueKind where
  | text
  /-- A text that is not empty. -/
  | path
  /-- A decimal number; an argument that looks like a negative number can be its value. -/
  | amount
  /-- A whole number of 64 bits. -/
  | count
  deriving DecidableEq, Repr

inductive Value where
  | text (s : String)
  | amount (d : Decimal)
  | count (n : Nat)
  | on
  deriving DecidableEq, Repr

/-- How a parameter is given: by its name alone, by its name and a value, or by its place. -/
inductive Form where
  | switch
  | option (placeholder : String) (kind : ValueKind)
  | operand (placeholder : String) (kind : ValueKind)
  deriving DecidableEq, Repr

structure Parameter where
  name : String
  form : Form
  deriving DecidableEq, Repr

/-- Why arguments are refused, or what help they ask for. -/
inductive Refusal where
  | help (about : String)
  | nothingGiven (about : String)
  | unexpectedArgument (argument : String)
  | unknownCommand (argument : String)
  | noCommand (program : String)
  | missingArguments
  | repeated (parameter : String)
  | missingValue (parameter : String)
  | badValue (value parameter reason : String)
  | unneededValue (value parameter : String)
  deriving DecidableEq, Repr

def Refusal.message : Refusal → String
  | help about | nothingGiven about => about
  | unexpectedArgument a => "error: unexpected argument '" ++ a ++ "' found"
  | unknownCommand a => "error: unrecognized subcommand '" ++ a ++ "'"
  | noCommand p => "error: '" ++ p ++ "' requires a subcommand but one was not provided"
  | missingArguments => "error: the following required arguments were not provided:"
  | repeated p => "error: the argument '" ++ p ++ "' cannot be used multiple times"
  | missingValue p => "error: a value is required for '" ++ p ++ "' but none was supplied"
  | badValue v p reason => "error: invalid value '" ++ v ++ "' for '" ++ p ++ "': " ++ reason
  | unneededValue v p =>
    "error: unexpected value '" ++ v ++ "' for '" ++ p ++ "' found; no more were expected"

namespace Parameter

def shown (p : Parameter) : String :=
  match p.form with
  | .switch => "--" ++ p.name
  | .option placeholder _ => "--" ++ p.name ++ " <" ++ placeholder ++ ">"
  | .operand placeholder _ => "<" ++ placeholder ++ ">"

def kind? (p : Parameter) : Option ValueKind :=
  match p.form with
  | .switch => none
  | .option _ kind | .operand _ kind => some kind

def readValue (p : Parameter) (s : String) : Except Refusal Value :=
  match p.kind? with
  | none => .ok .on
  | some .text => .ok (.text s)
  | some .path => if s.isEmpty then .error (.missingValue p.shown) else .ok (.text s)
  | some .amount =>
    match Decimal.ofText s with
    | .ok d => .ok (.amount d)
    | .error e => .error (.badValue s p.shown e.message)
  | some .count =>
    match Text.readNatural 10 (twoTo 64) s.toList with
    | .ok n => .ok (.count n)
    | .error e => .error (.badValue s p.shown e.message)

end Parameter

end Bookkeeping.Command
