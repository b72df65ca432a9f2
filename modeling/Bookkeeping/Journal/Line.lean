import Bookkeeping.Book
import Bookkeeping.Digest.Crc32
import Bookkeeping.Posting.Schema
import Bookkeeping.Power
import Bookkeeping.Text.Integer
/-!
The lines of a journal: the checksum of a record in eight hexadecimal digits, a space, the record
as a JSON object, and a line feed.
-/
namespace Bookkeeping

namespace Posting

structure Draft where
  transaction : Option Transaction := none
  debit : Option Entry := none
  credit : Option Entry := none

def schema : Json.Schema Draft Posting where
  title := "struct Record"
  start := {}
  fields :=
    [Json.fieldOf "transaction" Draft.transaction Transaction.schema.read
        fun x d => { d with transaction := some x },
      Json.fieldOf "debit" Draft.debit Entry.schema.read fun x d => { d with debit := some x },
      Json.fieldOf "credit" Draft.credit Entry.schema.read fun x d => { d with credit := some x }]
  finish d := do
    return {
      transaction := ← Json.required "transaction" d.transaction
      debit := ← Json.required "debit" d.debit
      credit := ← Json.required "credit" d.credit }

def write (p : Posting) : List Char :=
  Json.writeObject
    [("transaction", p.transaction.write), ("debit", p.debit.write), ("credit", p.credit.write)]

end Posting

namespace Journal

def newline : UInt8 := 0x0A

def lineBody (p : Posting) : List UInt8 :=
  let json := Text.encodeChars p.write
  Text.encodeChars (Text.fixedHex 8 (Digest.crc32 json).toNat ++ [' ']) ++ json

def encodeLine (p : Posting) : List UInt8 := lineBody p ++ [newline]

inductive LineFault where
  | notText (e : Text.BadSequence)
  | noChecksum
  | badChecksum (e : Text.IntegerError)
  | mismatch
  | badRecord (f : Json.Fault)
  deriving DecidableEq, Repr

def LineFault.message : LineFault → String
  | notText e => "invalid utf-8: " ++ e.message
  | noChecksum => "missing checksum"
  | badChecksum e => "invalid checksum: " ++ e.message
  | mismatch => "checksum mismatch"
  | badRecord f => "invalid record: " ++ f.message

def splitAtSpace : List Char → Option (List Char × List Char)
  | [] => none
  | c :: rest =>
    if c = ' ' then some ([], rest) else (splitAtSpace rest).map fun r => (c :: r.1, r.2)

def decodeLine (bytes : List UInt8) : Except LineFault Posting := do
  let cs ← match Text.decodeChars bytes with
    | .ok cs => .ok cs
    | .error e => .error (LineFault.notText e)
  let (checksum, json) ← match splitAtSpace cs with
    | some parts => .ok parts
    | none => .error .noChecksum
  let expected ← match Text.readNatural 16 (twoTo 32) checksum with
    | .ok n => .ok n
    | .error e => .error (.badChecksum e)
  if (Digest.crc32 (Text.encodeChars json)).toNat ≠ expected then .error .mismatch
  else
    match Json.ofChars Posting.schema.read json with
    | .ok p => .ok p
    | .error f => .error (.badRecord f)

end Journal

end Bookkeeping
