import Bookkeeping.Json.Cursor
import Bookkeeping.Power
/-!
JSON numbers. A whole number that fits 64 bits is kept as it is. Any other becomes a binary64
number: the digits that fit 64 bits, rounded, then multiplied or divided by a power of ten and
rounded again.
-/
namespace Bookkeeping.Json

/-- A whole number of at most 64 bits, and how many further digits it has no room for. -/
def wordDigits (word : Nat) : List Char → Nat × Nat
  | [] => (word, 0)
  | c :: rest =>
    let next := 10 * word + Text.digitValue c
    if next < twoTo 64 then wordDigits next rest else (word, rest.length + 1)

def overPower (k : Nat) (x : Binary64) : Option Binary64 := (Binary64.powerOfTen? k).bind x.div?

def overGreatest : Nat → Binary64 → Option Binary64
  | 0, x => some x
  | n + 1, x => if x.isZero then some x else (overPower 308 x).bind (overGreatest n)

/-- A number divided by a power of ten, in steps of at most 308. -/
def shrunk (x : Binary64) (k : Nat) : Option Binary64 :=
  let steps := (k - 1) / 308
  (overGreatest steps x).bind (overPower (k - 308 * steps))

def grown (x : Binary64) (k : Nat) : Option Binary64 :=
  if x.isZero then some x
  else if 308 < k then none
  else (Binary64.powerOfTen? k).bind x.mul?

def realOfParts (word : Nat) (exponent : Int) : Option Binary64 :=
  (Binary64.ofNat? word).bind fun x =>
    if 0 ≤ exponent then grown x exponent.toNat else shrunk x exponent.natAbs

def realNumber (negative : Bool) (word : Nat) (exponent : Int) : Reader Number :=
  match realOfParts word exponent with
  | some x => pure (.real negative x)
  | none => fail .numberOutOfRange

/-- An exponent's digits, unless it needs more than 31 bits: then, how many of them are read. -/
def exponentDigits (exponent read : Nat) : List Char → Except Nat Nat
  | [] => .ok exponent
  | c :: rest =>
    let next := 10 * exponent + Text.digitValue c
    if next < twoTo 31 then exponentDigits next (read + 1) rest else .error (read + 1)

def exponentPart (negative : Bool) (word : Nat) (exponent : Int) : Reader Number := do
  advance
  let down := (← peek) = some '-'
  if down || (← peek) = some '+' then advance
  match ← peek with
  | none => fail .endInValue
  | some c =>
    if !Text.isDigit c then failNext .badNumber
    else
      let start ← get
      let ds ← digits
      match exponentDigits 0 0 ds with
      | .ok n => realNumber negative word (if down then exponent - n else exponent + n)
      | .error read =>
        if word != 0 && !down then do
          set (⟨start.rest.drop read, start.position.pastAll (ds.take read)⟩ : Cursor)
          fail .numberOutOfRange
        else pure (.real negative .zero)

/-- Reads the rest of a number whose whole part is read; `surplus` of its digits had no room. -/
def numberTail (negative : Bool) (word surplus : Nat) : Reader Number := do
  match ← peek with
  | some '.' => do
    advance
    let ds ← digits
    let (word', left) := wordDigits word ds
    if ds.isEmpty then
      match ← peek with
      | none => fail .endInValue
      | some _ => failNext .badNumber
    else
      let exponent : Int := surplus - (ds.length - left : Nat)
      match ← peek with
      | some 'e' | some 'E' => exponentPart negative word' exponent
      | _ => realNumber negative word' exponent
  | some 'e' | some 'E' => exponentPart negative word surplus
  | _ =>
    if surplus ≠ 0 then realNumber negative word surplus
    else if !negative then pure (.natural (UInt64.ofNat word))
    else if word ≠ 0 ∧ word ≤ twoTo 63 then pure (.negative (UInt64.ofNat word))
    else realNumber true word 0

def numberValue (negative : Bool) : Reader Number := do
  match ← peek with
  | none => fail .endInValue
  | some c =>
    if !Text.isDigit c then failNext .badNumber
    else if c = '0' then do
      advance
      match ← peek with
      | some d => if Text.isDigit d then failNext .badNumber else numberTail negative 0 0
      | none => numberTail negative 0 0
    else do
      let ds ← digits
      let (word, surplus) := wordDigits 0 ds
      numberTail negative word surplus

def skipNumber : Reader Unit := do
  let exponent : Reader Unit := do
    advance
    match ← peek with
    | some '+' | some '-' => advance
    | _ => pure ()
    match ← peek with
    | some c => if Text.isDigit c then discard digits else failNext .badNumber
    | none => fail .badNumber
  let tail : Reader Unit := do
    match ← peek with
    | some '.' => do
      advance
      let ds ← digits
      if ds.isEmpty then failNext .badNumber
      else match ← peek with
        | some 'e' | some 'E' => exponent
        | _ => pure ()
    | some 'e' | some 'E' => exponent
    | _ => pure ()
  match ← peek with
  | none => fail .badNumber
  | some c =>
    if !Text.isDigit c then failNext .badNumber
    else if c = '0' then do
      advance
      match ← peek with
      | some d => if Text.isDigit d then failNext .badNumber else tail
      | none => tail
    else do
      discard digits
      tail

end Bookkeeping.Json
