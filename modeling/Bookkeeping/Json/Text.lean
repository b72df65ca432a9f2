import Bookkeeping.Json.Cursor
import Bookkeeping.Text.Hex
/-! JSON strings: written with the shortest escapes, read with any, and passed over. -/
namespace Bookkeeping.Json

def escaped (c : Char) : List Char :=
  if c = '"' || c = '\\' then ['\\', c]
  else if c = '\x08' then ['\\', 'b']
  else if c = '\x0c' then ['\\', 'f']
  else if c = '\n' then ['\\', 'n']
  else if c = '\r' then ['\\', 'r']
  else if c = '\t' then ['\\', 't']
  else if c.toNat < 0x20 then '\\' :: 'u' :: Text.fixedHex 4 c.toNat
  else [c]

def writeText (s : String) : List Char := '"' :: s.toList.flatMap escaped ++ ['"']

/-- The text after a part that was read, no longer than the one before. -/
abbrev Remaining (cs : List Char) := { rest : List Char // rest.length ≤ cs.length }

def hexUnit (p : Position) (cs : List Char) : Except Fault (Nat × Remaining cs × Position) :=
  match cs with
  | a :: b :: c :: d :: rest =>
    if [a, b, c, d].all Text.isHexDigit then
      .ok (Text.hexDigitsValue [a, b, c, d], ⟨rest, by simp; omega⟩, ⟨p.line, p.column + 4⟩)
    else .error ⟨.badEscape, p.afterBytes 4 cs⟩
  | _ =>
    if 4 ≤ Text.byteLength cs then .error ⟨.badEscape, p.afterBytes 4 cs⟩
    else .error ⟨.endInString, p.pastAll cs⟩

def isLeadingSurrogate (n : Nat) : Bool := 0xD800 ≤ n && n ≤ 0xDBFF

def isTrailingSurrogate (n : Nat) : Bool := 0xDC00 ≤ n && n ≤ 0xDFFF

/-- The character of a code unit, which a second one must complete if it is a leading surrogate. -/
def unitChar (p : Position) (n : Nat) (cs : List Char) :
    Except Fault (Char × Remaining cs × Position) :=
  if isTrailingSurrogate n then .error ⟨.loneSurrogate, p⟩
  else if isLeadingSurrogate n then
    match cs with
    | '\\' :: 'u' :: rest =>
      match hexUnit ⟨p.line, p.column + 2⟩ rest with
      | .error e => .error e
      | .ok (n', ⟨rest', h⟩, p') =>
        if isTrailingSurrogate n' then
          .ok (Char.ofNat (0x10000 + (n - 0xD800) * 1024 + (n' - 0xDC00)),
            ⟨rest', by simp; omega⟩, p')
        else .error ⟨.loneSurrogate, p'⟩
    | '\\' :: [] => .error ⟨.endInString, ⟨p.line, p.column + 1⟩⟩
    | '\\' :: rest => .error ⟨.unpairedSurrogate, p.afterBytes 2 ('\\' :: rest)⟩
    | [] => .error ⟨.endInString, p⟩
    | cs => .error ⟨.unpairedSurrogate, p.afterBytes 1 cs⟩
  else .ok (Char.ofNat n, ⟨cs, Nat.le_refl _⟩, p)

def escape (p : Position) (cs : List Char) : Except Fault (Char × Remaining cs × Position) :=
  match cs with
  | [] => .error ⟨.endInString, p⟩
  | 'u' :: rest =>
    match hexUnit (p.past 'u') rest with
    | .error e => .error e
    | .ok (n, ⟨rest', h⟩, p') =>
      match unitChar p' n rest' with
      | .error e => .error e
      | .ok (c, ⟨rest'', h'⟩, p'') => .ok (c, ⟨rest'', by simp; omega⟩, p'')
  | x :: rest =>
    let simple (c : Char) : Except Fault (Char × Remaining (x :: rest) × Position) :=
      .ok (c, ⟨rest, by simp⟩, p.past x)
    match x with
    | '"' | '\\' | '/' => simple x
    | 'b' => simple '\x08'
    | 'f' => simple '\x0c'
    | 'n' => simple '\n'
    | 'r' => simple '\r'
    | 't' => simple '\t'
    | _ => .error ⟨.badEscape, p.afterBytes 1 (x :: rest)⟩

def textBody (p : Position) (cs : List Char) :
    Except Fault (List Char × List Char × Position) :=
  match cs with
  | [] => .error ⟨.endInString, p⟩
  | '"' :: rest => .ok ([], rest, p.past '"')
  | '\\' :: rest =>
    match escape (p.past '\\') rest with
    | .error e => .error e
    | .ok (c, ⟨rest', _⟩, p') => do
      let (s, tail, p'') ← textBody p' rest'
      .ok (c :: s, tail, p'')
  | c :: rest =>
    if c.toNat < 0x20 then .error ⟨.controlCharacter, p.past c⟩
    else do
      let (s, tail, p') ← textBody (p.past c) rest
      .ok (c :: s, tail, p')
termination_by cs.length

/-- What follows a string after its opening quote. Its escapes need not stand for characters. -/
def skipBody (p : Position) (cs : List Char) : Except Fault (List Char × Position) :=
  match cs with
  | [] => .error ⟨.endInString, p⟩
  | '"' :: rest => .ok (rest, p.past '"')
  | '\\' :: 'u' :: rest =>
    match hexUnit ((p.past '\\').past 'u') rest with
    | .error e => .error e
    | .ok (_, ⟨rest', _⟩, p') => skipBody p' rest'
  | '\\' :: [] => .error ⟨.endInString, p.past '\\'⟩
  | '\\' :: x :: rest =>
    if "\"\\/bfnrt".toList.contains x then skipBody ((p.past '\\').past x) rest
    else .error ⟨.badEscape, (p.past '\\').afterBytes 1 (x :: rest)⟩
  | c :: rest =>
    if c.toNat < 0x20 then .error ⟨.controlCharacter, p⟩ else skipBody (p.past c) rest
termination_by cs.length

def textValue : Reader String := fun c => do
  let (s, rest, p) ← textBody (c.position.past '"') c.rest.tail
  .ok (String.ofList s, ⟨rest, p⟩)

def skipText : Reader Unit := fun c => do
  let (rest, p) ← skipBody (c.position.past '"') c.rest.tail
  .ok ((), ⟨rest, p⟩)

end Bookkeeping.Json
