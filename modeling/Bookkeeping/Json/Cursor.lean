import Bookkeeping.Json.Fault
import Bookkeeping.Text.Utf8
/-! Reading a JSON text from left to right while keeping count of lines and bytes. -/
namespace Bookkeeping.Json

namespace Position

def past (p : Position) (c : Char) : Position :=
  if c = '\n' then ⟨p.line + 1, 0⟩ else ⟨p.line, p.column + Text.byteWidth c⟩

/-- The place after so many bytes of a text that starts here. -/
def afterBytes (p : Position) : Nat → List Char → Position
  | 0, _ => p
  | _, [] => p
  | n + 1, c :: rest =>
    if Text.byteWidth c ≤ n + 1 then afterBytes (p.past c) (n + 1 - Text.byteWidth c) rest
    else ⟨p.line, p.column + n + 1⟩

def pastAll (p : Position) (cs : List Char) : Position := cs.foldl past p

end Position

/-- The text that is left and the place where it starts. -/
structure Cursor where
  rest : List Char
  position : Position := {}
  deriving DecidableEq, Repr

abbrev Reader := StateT Cursor (Except Fault)

def isSpace (c : Char) : Bool := c = ' ' || c = '\n' || c = '\r' || c = '\t'

def Cursor.pastWhile (p : Char → Bool) (c : Cursor) : Cursor :=
  ⟨c.rest.dropWhile p, c.position.pastAll (c.rest.takeWhile p)⟩

def fail {α : Type} (cause : Cause) : Reader α := fun c => .error ⟨cause, c.position⟩

/-- Refuses the text one byte further on, if there is one. -/
def failNext {α : Type} (cause : Cause) : Reader α :=
  fun c => .error ⟨cause, c.position.afterBytes 1 c.rest⟩

def peek : Reader (Option Char) := fun c => .ok (c.rest.head?, c)

/-- The next character that is no white space; only the white space is read. -/
def peekValue : Reader (Option Char) := fun c =>
  let c := c.pastWhile isSpace
  .ok (c.rest.head?, c)

def advance : Reader Unit := fun c =>
  match c.rest with
  | [] => .ok ((), c)
  | x :: rest => .ok ((), ⟨rest, c.position.past x⟩)

def digits : Reader (List Char) := fun c =>
  .ok (c.rest.takeWhile Text.isDigit, c.pastWhile Text.isDigit)

def word : List Char → Reader Unit
  | [] => pure ()
  | x :: xs => do
    match ← peek with
    | none => fail .endInValue
    | some c => if c = x then do advance; word xs else failNext .wordExpected

end Bookkeeping.Json
