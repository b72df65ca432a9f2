import Bookkeeping.Text.Utf8
import Bookkeeping.Uuid.Basic
/-!
Identifiers read from text: 32 hexadecimal digits, or five hyphenated groups, which may stand in
braces or after `urn:uuid:`. Digits and prefix may be in either case.

A text that spells none is told by the first thing that is wrong with it.
-/
namespace Bookkeeping.Uuid

inductive ReadError where
  | character (c : Char) (index : Nat)
  | length (found : Nat)
  | groupCount (found : Nat)
  | groupLength (group expected found : Nat)
  deriving DecidableEq, Repr

def ReadError.message : ReadError → String
  | character c i => "invalid character: found \x60" ++ c.toString ++ "\x60 at " ++ Text.natText i
  | length n => "invalid length: found " ++ Text.natText n
  | groupCount n => "invalid group count: expected 5, found " ++ Text.natText n
  | groupLength g e n =>
    "invalid group length in group " ++ Text.natText g ++ ": expected " ++ Text.natText e ++
      ", found " ++ Text.natText n

def longest : Nat := 45

/-- A text without the braces or the prefix around it, and how many bytes stood before it. -/
def unwrapped (cs : List Char) : List Char × Nat :=
  if cs.head? = some '{' ∧ 2 ≤ cs.length ∧ cs.getLast? = some '}' then (cs.tail.dropLast, 1)
  else if (cs.take 9).map Char.toLower = "urn:uuid:".toList then (cs.drop 9, 9)
  else (cs, 0)

structure View where
  /-- The part that is to hold digits and hyphens. -/
  body : List Char
  /-- The index that the first byte of the body has. -/
  start : Nat
  /-- Digits without hyphens will not do. -/
  grouped : Bool
  /-- The index after the last byte; the last group reaches that far. -/
  stop : Nat
  deriving DecidableEq, Repr

/-- A text with the 36 bytes of five hyphenated groups is looked at on its own, whether it stands
in something or not; any other is looked at in the place where it stands. -/
def view (cs : List Char) : View :=
  let (body, offset) := unwrapped cs
  if Text.byteLength cs = 36 then ⟨cs, 0, true, 36⟩
  else if Text.byteLength body = 36 then ⟨body, 0, true, 36⟩
  else ⟨body, offset, offset ≠ 0, Text.byteLength cs⟩

def strayCharacter (i : Nat) : List Char → Option (Char × Nat)
  | [] => none
  | c :: rest =>
    if Text.isHexDigit c || c = '-' then strayCharacter (i + Text.byteWidth c) rest else some (c, i)

def hyphenated : List Char → List (List Char)
  | [] => [[]]
  | c :: rest =>
    if c = '-' then [] :: hyphenated rest
    else match hyphenated rest with
      | [] => [[c]]
      | g :: gs => (c :: g) :: gs

def groupLengths : List Nat := [8, 4, 4, 4, 12]

def lastGroupStart : Nat := 24

/-- The first group whose length is not the expected one. The last group counts up to the index
`stop`. -/
def badGroup (stop i : Nat) : List Nat → List (List Char) → Option ReadError
  | n :: ns, g :: gs =>
    let found := if gs.isEmpty then stop - lastGroupStart else g.length
    if found = n then badGroup stop (i + 1) ns gs else some (.groupLength i n found)
  | _, _ => none

def ofChars (cs : List Char) : Except ReadError Uuid :=
  if longest < Text.byteLength cs then .error (.length (Text.byteLength cs))
  else
    let v := view cs
    match strayCharacter v.start v.body with
    | some (c, i) => .error (.character c i)
    | none =>
      let gs := hyphenated v.body
      if gs.length = 1 ∧ !v.grouped then
        if v.body.length = 32 then .ok (ofNat (Text.hexDigitsValue v.body))
        else .error (.length cs.length)
      else if gs.length ≠ 5 then .error (.groupCount gs.length)
      else match badGroup v.stop 0 groupLengths gs with
        | some e => .error e
        | none => .ok (ofNat (Text.hexDigitsValue gs.flatten))

end Bookkeeping.Uuid
