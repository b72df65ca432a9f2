import Bookkeeping.Binary64.Shortest
import Bookkeeping.Text.Quoted
/-! Why a JSON text is refused, and where in it. -/
namespace Bookkeeping.Json

/-- A number: whole and below 2 ^ 64 in size, or anything else a binary64 number can stand for. -/
inductive Number where
  | natural (n : UInt64)
  | negative (n : UInt64)
  | real (negative : Bool) (size : Binary64)
  deriving DecidableEq, Repr

inductive Found where
  | null
  | boolean (b : Bool)
  | number (n : Number)
  | text (s : String)
  | list
  | object
  deriving DecidableEq, Repr

def Found.message : Found → String
  | null => "null"
  | boolean b => "boolean \x60" ++ (if b then "true" else "false") ++ "\x60"
  | number (.natural n) => "integer \x60" ++ Text.natText n.toNat ++ "\x60"
  | number (.negative n) => "integer \x60-" ++ Text.natText n.toNat ++ "\x60"
  | number (.real negative size) =>
    "floating point \x60" ++ (if negative then "-" else "") ++
      String.ofList (size.shortest .toEven).scientific ++ "\x60"
  | text s => "string " ++ Text.quoted s
  | list => "sequence"
  | object => "map"

inductive Cause where
  | endInValue
  | endInString
  | endInList
  | endInObject
  | colonExpected
  | listEndExpected
  | objectEndExpected
  | wordExpected
  | valueExpected
  | keyExpected
  | badEscape
  | badNumber
  | numberOutOfRange
  | loneSurrogate
  | unpairedSurrogate
  | controlCharacter
  | trailingComma
  | trailingCharacters
  | invalidType (found : Found) (expected : String)
  | invalidValue (found : Found) (expected : String)
  | invalidLength (found : Nat) (expected : String)
  | missingField (name : String)
  | duplicateField (name : String)
  | unreadable (reason : String)
  deriving DecidableEq, Repr

def Cause.message : Cause → String
  | endInValue => "EOF while parsing a value"
  | endInString => "EOF while parsing a string"
  | endInList => "EOF while parsing a list"
  | endInObject => "EOF while parsing an object"
  | colonExpected => "expected \x60:\x60"
  | listEndExpected => "expected \x60,\x60 or \x60]\x60"
  | objectEndExpected => "expected \x60,\x60 or \x60\x7d\x60"
  | wordExpected => "expected ident"
  | valueExpected => "expected value"
  | keyExpected => "key must be a string"
  | badEscape => "invalid escape"
  | badNumber => "invalid number"
  | numberOutOfRange => "number out of range"
  | loneSurrogate => "lone leading surrogate in hex escape"
  | unpairedSurrogate => "unexpected end of hex escape"
  | controlCharacter => "control character (\\u0000-\\u001F) found while parsing a string"
  | trailingComma => "trailing comma"
  | trailingCharacters => "trailing characters"
  | invalidType found expected => "invalid type: " ++ found.message ++ ", expected " ++ expected
  | invalidValue found expected => "invalid value: " ++ found.message ++ ", expected " ++ expected
  | invalidLength n expected =>
    "invalid length " ++ Text.natText n ++ ", expected " ++ expected
  | missingField name => "missing field \x60" ++ name ++ "\x60"
  | duplicateField name => "duplicate field \x60" ++ name ++ "\x60"
  | unreadable reason => reason

/-- A place in a text: the line, from 1, and how many bytes of it lie before. -/
structure Position where
  line : Nat := 1
  column : Nat := 0
  deriving DecidableEq, Repr

structure Fault where
  cause : Cause
  position : Position
  deriving DecidableEq, Repr

def Fault.message (f : Fault) : String :=
  f.cause.message ++ " at line " ++ Text.natText f.position.line ++ " column " ++
    Text.natText f.position.column

end Bookkeeping.Json
