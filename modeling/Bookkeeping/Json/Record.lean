import Bookkeeping.Json.Value
/-!
Records: objects with known fields in any order, or lists of the same fields in their declared
order. Unknown fields are passed over; a field given twice and one left out are refused.
-/
namespace Bookkeeping.Json

structure Field (δ : Type) where
  name : String
  given : δ → Bool
  read : δ → Reader δ

/-- How a record is read: what it is called, the draft to start from, its fields, and the record
of a full draft or the name of the first field that is missing. -/
structure Schema (δ α : Type) where
  title : String
  start : δ
  fields : List (Field δ)
  finish : δ → Except String α

/-- Closes an object if its end is next, to refuse it at the place where it ends. -/
def closeObject : Reader Unit := do
  if (← peekValue) = some '}' then advance

def closeList : Reader Unit := do
  if (← peekValue) = some ']' then advance

def colon : Reader Unit := do
  match ← peekValue with
  | none => failNext .endInObject
  | some ':' => advance
  | some _ => failNext .colonExpected

/-- Whether a further member starts here; if so, its key is next. -/
def nextKey (first : Bool) : Reader Bool := do
  match ← peekValue with
  | none => failNext .endInObject
  | some '}' => return false
  | some c =>
    if first then
      if c = '"' then return true else failNext .keyExpected
    else if c = ',' then do
      advance
      match ← peekValue with
      | none => failNext .endInValue
      | some '"' => return true
      | some '}' => failNext .trailingComma
      | some _ => failNext .keyExpected
    else failNext .objectEndExpected

def nextElement (first : Bool) : Reader Bool := do
  match ← peekValue with
  | none => failNext .endInList
  | some ']' => return false
  | some c =>
    if first then return true
    else if c = ',' then do
      advance
      match ← peekValue with
      | none => failNext .endInValue
      | some ']' => failNext .trailingComma
      | some _ => return true
    else failNext .listEndExpected

namespace Schema

variable {δ α : Type}

/-- Reads the members of an object; each reads at least one character. -/
def members (s : Schema δ α) : Nat → Bool → δ → Reader δ
  | 0, _, _ => fail .endInObject
  | n + 1, first, draft => do
    if ← nextKey first then
      let key ← textValue
      match s.fields.find? (·.name = key) with
      | none => do colon; skipValue; members s n false draft
      | some f =>
        if f.given draft then do closeObject; fail (.duplicateField key)
        else do colon; members s n false (← f.read draft)
    else return draft

def elements (s : Schema δ α) (index : Nat) : List (Field δ) → δ → Reader δ
  | [], draft => return draft
  | f :: fs, draft => do
    if ← nextElement (index = 0) then elements s (index + 1) fs (← f.read draft)
    else
      closeList
      fail (.invalidLength index
        (s.title ++ " with " ++ Text.natText s.fields.length ++ " elements"))

def closed (s : Schema δ α) (draft : δ) : Reader α := do
  match s.finish draft with
  | .error name => do closeObject; fail (.missingField name)
  | .ok a => do
    match ← peekValue with
    | none => failNext .endInObject
    | some '}' => do advance; return a
    | some ',' => failNext .trailingComma
    | some _ => failNext .trailingCharacters

def closedList (s : Schema δ α) (draft : δ) : Reader α := do
  match s.finish draft with
  | .error name => do closeList; fail (.missingField name)
  | .ok a => do
    match ← peekValue with
    | none => failNext .endInList
    | some ']' => do advance; return a
    | some ',' => do
      advance
      if (← peekValue) = some ']' then failNext .trailingComma else failNext .trailingCharacters
    | some _ => failNext .trailingCharacters

def read (s : Schema δ α) : Reader α := do
  match ← peekValue with
  | none => failNext .endInValue
  | some '{' => do
    advance
    let draft ← s.members ((← get).rest.length + 1) true s.start
    s.closed draft
  | some '[' => do
    advance
    let draft ← s.elements 0 s.fields s.start
    s.closedList draft
  | some c => wrongKind c s.title

end Schema

def ofChars {α : Type} (read : Reader α) (cs : List Char) : Except Fault α := do
  let whole : Reader α := do
    let a ← read
    match ← peekValue with
    | none => return a
    | some _ => failNext .trailingCharacters
  (·.1) <$> whole ⟨cs, {}⟩

end Bookkeeping.Json
