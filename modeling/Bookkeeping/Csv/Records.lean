/-!
Comma-separated records cut out of bytes. A field may be quoted, with a quote inside written
twice; a quote elsewhere is an ordinary byte, and so is anything after a closing quote. A record
ends with a line feed, a carriage return or both, and empty lines are passed over.
-/
namespace Bookkeeping.Csv

/-- The fields of a record, its number, and the line and the byte at which the previous one
ended. -/
structure RawRecord where
  fields : List (List UInt8)
  index : Nat
  line : Nat
  byte : Nat
  deriving DecidableEq, Repr

inductive Phase where
  | recordStart
  | afterReturn
  | fieldStart
  | plain
  | quoted
  | quoteInQuoted
  deriving DecidableEq, Repr

/-- The record that is being read: its fields so far and the bytes of the last one, both last
first. -/
structure Scan where
  phase : Phase := .recordStart
  field : List UInt8 := []
  fields : List (List UInt8) := []
  index : Nat := 0
  startLine : Nat := 1
  startByte : Nat := 0
  line : Nat := 1
  byte : Nat := 0
  deriving DecidableEq, Repr

def comma : UInt8 := 0x2C

def quote : UInt8 := 0x22

def lineFeed : UInt8 := 0x0A

def carriageReturn : UInt8 := 0x0D

def isTerminator (b : UInt8) : Bool := b == lineFeed || b == carriageReturn

namespace Scan

def endField (s : Scan) : Scan :=
  { s with phase := .fieldStart, field := [], fields := s.field.reverse :: s.fields }

def copy (s : Scan) (phase : Phase) (b : UInt8) : Scan :=
  { s with phase, field := b :: s.field }

def record (s : Scan) : RawRecord :=
  ⟨s.endField.fields.reverse, s.index, s.startLine, s.startByte⟩

def nextRecord (s : Scan) (phase : Phase) : Scan :=
  { phase, index := s.index + 1, startLine := s.line, startByte := s.byte,
    line := s.line, byte := s.byte }

def finish (s : Scan) (b : UInt8) : Option RawRecord × Scan :=
  (some s.record, s.nextRecord (if b == carriageReturn then .afterReturn else .recordStart))

def unquoted (s : Scan) (b : UInt8) : Option RawRecord × Scan :=
  if b == comma then (none, s.endField)
  else if isTerminator b then s.finish b
  else (none, s.copy .plain b)

def opening (s : Scan) (b : UInt8) : Option RawRecord × Scan :=
  if b == quote then (none, { s with phase := .quoted }) else s.unquoted b

def step (s : Scan) (b : UInt8) : Option RawRecord × Scan :=
  let s := { s with byte := s.byte + 1, line := if b == lineFeed then s.line + 1 else s.line }
  match s.phase with
  | .afterReturn =>
    if b == lineFeed then (none, { s with phase := .recordStart })
    else if b == carriageReturn then (none, { s with phase := .recordStart })
    else s.opening b
  | .recordStart =>
    if isTerminator b then (none, s) else s.opening b
  | .fieldStart => s.opening b
  | .plain => s.unquoted b
  | .quoted =>
    if b == quote then (none, { s with phase := .quoteInQuoted }) else (none, s.copy .quoted b)
  | .quoteInQuoted =>
    if b == quote then (none, s.copy .quoted b) else s.unquoted b

def isOpen (s : Scan) : Bool := s.phase != .recordStart && s.phase != .afterReturn

def records (s : Scan) : List UInt8 → List RawRecord
  | [] => if s.isOpen then [s.record] else []
  | b :: rest =>
    match s.step b with
    | (some r, s) => r :: s.records rest
    | (none, s) => s.records rest

end Scan

/-- The records of a text, after a byte order mark at its start. -/
def records : List UInt8 → List RawRecord
  | 0xEF :: 0xBB :: 0xBF :: rest => ({ byte := 3 } : Scan).records rest
  | bytes => ({} : Scan).records bytes

end Bookkeeping.Csv
