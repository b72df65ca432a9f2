import Bookkeeping.Csv.Records
import Bookkeeping.Decimal.Reading
import Bookkeeping.Posting.Basic
import Bookkeeping.Text.Utf8
/-!
Rows of postings: the fields of a record matched with the header's column names, or taken in
order where there is no readable header, and turned into requests.
-/
namespace Bookkeeping.Csv

structure PostingRow where
  fromAccount : String := ""
  toAccount : String := ""
  amount : Option String := none
  key : String := ""
  deriving DecidableEq, Repr

inductive CellError where
  | endOfRow (cell : Option Nat)
  | duplicateColumn (name : String)
  | tooFewCells (found : Nat)
  deriving DecidableEq, Repr

def CellError.message : CellError → String
  | endOfRow cell =>
    (cell.map fun n => "field " ++ Text.natText n ++ ": ").getD "" ++
      "expected field, but got end of row"
  | duplicateColumn name => "duplicate field \x60" ++ name ++ "\x60"
  | tooFewCells n =>
    "invalid length " ++ Text.natText n ++ ", expected struct CsvPosting with 4 elements"

inductive RowFault where
  | notText (record : RawRecord) (field index : Nat)
  | cells (record : RawRecord) (error : CellError)
  | badAmount (amount key : String)
  | noAmount (key : String)
  | unreadable (reason : String)
  deriving DecidableEq, Repr

namespace RowFault

def line : RowFault → Option Nat
  | notText r _ _ | cells r _ => some r.line
  | _ => none

def reason : RowFault → String
  | notText r field index =>
    "CSV parse error: record " ++ Text.natText r.index ++ " (line " ++ Text.natText r.line ++
      ", field: " ++ Text.natText field ++ ", byte: " ++ Text.natText r.byte ++
      "): invalid utf-8: invalid UTF-8 in field " ++ Text.natText field ++
      " near byte index " ++ Text.natText index
  | cells r e =>
    "CSV deserialize error: record " ++ Text.natText r.index ++ " (line " ++
      Text.natText r.line ++ ", byte: " ++ Text.natText r.byte ++ "): " ++ e.message
  | badAmount amount key => "Invalid amount '" ++ amount ++ "' for key '" ++ key ++ "'"
  | noAmount key => "Posting with key '" ++ key ++ "' requires an amount"
  | unreadable reason => reason

def toError (f : RowFault) : Error := .badRow f.line f.reason

end RowFault

def isAsciiBlank (b : UInt8) : Bool :=
  b == 0x20 || b == 0x09 || b == 0x0A || b == 0x0C || b == 0x0D

def trimBytes (bytes : List UInt8) : List UInt8 :=
  ((bytes.dropWhile isAsciiBlank).reverse.dropWhile isAsciiBlank).reverse

/-- The trimmed texts of fields, or the number of the first that is no text and the index of the
byte that spoils it. -/
def trimmedTexts (field : Nat) : List (List UInt8) → Except (Nat × Nat) (List String)
  | [] => .ok []
  | bytes :: rest =>
    match Text.decodeChars bytes with
    | .error e => .error (field, e.index)
    | .ok cs => (String.ofList (Text.trim cs) :: ·) <$> trimmedTexts (field + 1) rest

namespace RawRecord

def textsOf (r : RawRecord) (fields : List (List UInt8)) : Except RowFault (List String) :=
  match trimmedTexts 1 fields with
  | .ok texts => .ok texts
  | .error (field, index) => .error (.notText r field index)

/-- The cells of a row. Its fields are trimmed before they are taken for text. -/
def cells (r : RawRecord) : Except RowFault (List String) := r.textsOf (r.fields.map trimBytes)

/-- The column names of a header. Its fields are trimmed once they are text. -/
def names (r : RawRecord) : Except RowFault (List String) := r.textsOf r.fields

end RawRecord

/-- A row whose columns are matched one by one: which of them are given, and how many cells are
used up. -/
structure Matching where
  fromAccount : Option String := none
  toAccount : Option String := none
  amount : Option (Option String) := none
  key : Option String := none
  used : Nat := 0

namespace Matching

def row (m : Matching) : PostingRow :=
  ⟨m.fromAccount.getD "", m.toAccount.getD "", m.amount.getD none, m.key.getD ""⟩

def textColumn (m : Matching) (name : String) (given : Option String)
    (put : Matching → String → Matching) (cells : List String) :
    Except CellError (Matching × List String) :=
  if given.isSome then .error (.duplicateColumn name)
  else
    match cells with
    | [] => .error (.endOfRow (some m.used))
    | c :: rest => .ok ({ put m c with used := m.used + 1 }, rest)

def amountColumn (m : Matching) (cells : List String) : Except CellError (Matching × List String) :=
  if m.amount.isSome then .error (.duplicateColumn "amount")
  else
    match cells with
    | [] => .ok ({ m with amount := some none }, [])
    | c :: rest =>
      .ok ({ m with amount := some (if c.isEmpty then none else some c), used := m.used + 1 }, rest)

def column (m : Matching) (name : String) (cells : List String) :
    Except CellError (Matching × List String) :=
  match name with
  | "from_account" =>
    m.textColumn name m.fromAccount (fun m c => { m with fromAccount := some c }) cells
  | "to_account" => m.textColumn name m.toAccount (fun m c => { m with toAccount := some c }) cells
  | "amount" => m.amountColumn cells
  | "idempotency_key" => m.textColumn name m.key (fun m c => { m with key := some c }) cells
  | _ =>
    match cells with
    | [] => .error (.endOfRow none)
    | _ :: rest => .ok ({ m with used := m.used + 1 }, rest)

def columns (m : Matching) : List String → List String → Except CellError Matching
  | [], _ => .ok m
  | name :: names, cells => do
    let (m, cells) ← m.column name cells
    m.columns names cells

end Matching

def rowUnder (header cells : List String) : Except CellError PostingRow :=
  (·.row) <$> ({} : Matching).columns header cells

/-- The row of cells in the order from, to, amount, key. -/
def rowInOrder (cells : List String) : Except CellError PostingRow :=
  match cells[2]? with
  | none => .error (.tooFewCells 2)
  | some amount =>
    .ok ⟨cells.getD 0 "", cells.getD 1 "", if amount.isEmpty then none else some amount,
      cells.getD 3 ""⟩

def PostingRow.toRequest (row : PostingRow) : Except RowFault PostingRequest :=
  match row.amount with
  | none => .error (.noAmount row.key)
  | some amount =>
    let cs := Text.trim amount.toList
    if cs.isEmpty then .error (.noAmount row.key)
    else
      match Decimal.ofChars cs with
      | .ok d => .ok ⟨row.fromAccount, row.toAccount, d, row.key⟩
      | .error _ => .error (.badAmount amount row.key)

def RawRecord.toRequest (header : Option (List String)) (r : RawRecord) :
    Except RowFault PostingRequest := do
  let cells ← r.cells
  let row := match header with
    | some names => rowUnder names cells
    | none => rowInOrder cells
  match row with
  | .ok row => row.toRequest
  | .error e => .error (.cells r e)

end Bookkeeping.Csv
