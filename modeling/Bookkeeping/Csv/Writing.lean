import Bookkeeping.Posting.Basic
import Bookkeeping.Time.Writing
/-!
Reports as comma-separated lines. A field is quoted only if it has a comma, a quote or a line
break in it, and a quote inside is written twice.
-/
namespace Bookkeeping.Csv

def needsQuotes (cs : List Char) : Bool :=
  cs.any fun c => c = ',' || c = '"' || c = '\n' || c = '\r'

def doubled (cs : List Char) : List Char :=
  cs.flatMap fun c => if c = '"' then ['"', '"'] else [c]

theorem doubled_cons (c : Char) (cs : List Char) :
    doubled (c :: cs) = (if c = '"' then ['"', '"'] else [c]) ++ doubled cs := rfl

def writeField (s : String) : List Char :=
  if needsQuotes s.toList then '"' :: doubled s.toList ++ ['"'] else s.toList

def writeRecord (fields : List String) : List Char :=
  List.intercalate [','] (fields.map writeField) ++ ['\n']

theorem writeRecord_singleton (text : String) :
    writeRecord [text] = writeField text ++ ['\n'] := by
  simp [writeRecord, List.intercalate]

theorem writeRecord_cons (text next : String) (texts : List String) :
    writeRecord (text :: next :: texts) = writeField text ++ ',' :: writeRecord (next :: texts) := by
  simp [writeRecord, List.intercalate]

def writeRecords (records : List (List String)) : String :=
  String.ofList (records.flatMap writeRecord)

def balancesReport (balances : List (String × Decimal)) : String :=
  writeRecords (["account", "balance"] :: balances.map fun b => [b.1, b.2.text])

/-- One line for each entry, with the texts that stand for its identifier and its time. -/
def entriesReportWith (id time : Entry → String) (entries : List Entry) : String :=
  writeRecords (["id", "account_id", "amount", "created_at"] ::
    entries.map fun e => [id e, e.account, e.amount.text, time e])

def entriesReport (entries : List Entry) : String :=
  entriesReportWith (·.id.text) (·.createdAt.offsetText) entries

end Bookkeeping.Csv
