import Bookkeeping.Command.Parameter
/-!
Arguments of one command, taken in one pass. The value of an option may follow in the next
argument, and is looked at only when the option is settled: before the next parameter, or at the
end.
-/
namespace Bookkeeping.Command

/-- What a command accepts: its parameters, at most one of them given by its place, those that must
be given, and the names of its own commands. -/
structure Grammar where
  about : String
  parameters : List Parameter
  operand : Option Parameter := none
  required : List String := []
  commands : List String := []

/-- The parameters that were given, and one that may still need its value. -/
structure Matches where
  given : List (String × Value) := []
  pending : Option (Parameter × Option String) := none

namespace Matches

def has (m : Matches) (name : String) : Bool := (m.given.lookup name).isSome

def record (m : Matches) (p : Parameter) (s : String) : Except Refusal Matches := do
  if m.has p.name then .error (.repeated p.shown)
  else return { m with given := m.given ++ [(p.name, ← p.readValue s)] }

def settle (m : Matches) : Except Refusal Matches :=
  match m.pending with
  | none => .ok m
  | some (p, none) => .error (.missingValue p.shown)
  | some (p, some s) => { m with pending := none }.record p s

def awaited (m : Matches) : Option Parameter :=
  match m.pending with
  | some (p, none) => some p
  | _ => none

end Matches

def longOption (cs : List Char) : Option (List Char × Option (List Char)) :=
  match cs with
  | '-' :: '-' :: rest =>
    match rest.dropWhile (· != '=') with
    | [] => if rest.isEmpty then none else some (rest, none)
    | _ :: value => some (rest.takeWhile (· != '='), some value)
  | _ => none

def shortOptions (cs : List Char) : Option (Char × List Char) :=
  match cs with
  | '-' :: c :: rest => if c = '-' then none else some (c, rest)
  | _ => none

/-- Digits with at most one point before at most one exponent mark, neither of them first, and
with something after the mark. -/
def looksNumeric (cs : List Char) : Bool :=
  let isMark (c : Char) : Bool := c = 'e' || c = 'E'
  let plain := cs.takeWhile (!isMark ·)
  let isPlain := plain.all (fun c => Text.isDigit c || c = '.') && plain.count '.' ≤ 1 &&
    plain.head? != some '.'
  match cs.dropWhile (!isMark ·) with
  | [] => isPlain
  | _ :: exponent =>
    isPlain && !plain.isEmpty && !exponent.isEmpty && exponent.all (Text.isDigit ·)

/-- What a pass over the arguments finds: the parameters, and the command that was named with the
arguments after it. -/
structure Scan where
  found : Matches
  command : Option (String × List String) := none

namespace Grammar

def find? (g : Grammar) (name : String) : Option Parameter :=
  g.parameters.find? (·.name == name)

def place (g : Grammar) (free : Bool) (m : Matches) (a : String) (escaped : Bool) :
    Except Refusal Matches :=
  match g.operand with
  | some p => if free then do return { ← m.settle with pending := some (p, some a) }
    else .error (.unexpectedArgument a)
  | none =>
    if g.commands.isEmpty || (escaped && g.commands.contains a) then .error (.unexpectedArgument a)
    else .error (.unknownCommand a)

def long (g : Grammar) (m : Matches) (name : String) (attached : Option String) :
    Except Refusal Matches :=
  if name = "help" then
    match attached with
    | some value => .error (.unneededValue value "--help")
    | none => do
      let _ ← m.settle
      .error (.help g.about)
  else
    match g.find? name with
    | none => .error (.unexpectedArgument ("--" ++ name))
    | some p =>
      match p.form, attached with
      | .switch, some value => .error (.unneededValue value p.shown)
      | .switch, none => do (← m.settle).record p ""
      | _, some value => do (← m.settle).record p value
      | _, none => do return { ← m.settle with pending := some (p, none) }

def short (g : Grammar) (m : Matches) (c : Char) : Except Refusal Matches := do
  if c = 'h' then
    let _ ← m.settle
    .error (.help g.about)
  else .error (.unexpectedArgument (String.ofList ['-', c]))

/-- Takes the arguments one after the other; `free` tells that the operand has not been given. -/
def scan (g : Grammar) (free : Bool) (m : Matches) : List String → Except Refusal Scan
  | [] => .ok { found := m }
  | a :: rest =>
    if m.awaited.isNone && g.commands.contains a then .ok { found := m, command := some (a, rest) }
    else if a = "--" then scanEscaped g free m rest
    else
      match longOption a.toList with
      | some (name, attached) => do
        scan g free (← g.long m (.ofList name) (attached.map .ofList)) rest
      | none =>
        match shortOptions a.toList, m.awaited with
        | some (c, more), some p =>
          if p.kind? = some .amount && looksNumeric (c :: more) then
            scan g free { m with pending := some (p, some a) } rest
          else do scan g free (← g.short m c) rest
        | some (c, _), none => do scan g free (← g.short m c) rest
        | none, some p => scan g free { m with pending := some (p, some a) } rest
        | none, none => do scan g false (← g.place free m a false) rest
where
  /-- Takes all further arguments by their place. -/
  scanEscaped (g : Grammar) (free : Bool) (m : Matches) : List String → Except Refusal Scan
    | [] => .ok { found := m }
    | a :: rest => do scanEscaped g false (← g.place free m a true) rest

end Grammar

end Bookkeeping.Command
