import Bookkeeping.Journal.Store
/-! What the path of a journal leads to, and how the device behind it answers. -/
namespace Bookkeeping.Journal

inductive Target where
  | regularFile
  | nullDevice
  /-- What cannot be opened as a journal, for a reason. -/
  | unusable (reason : String)
  deriving DecidableEq, Repr

namespace Target

def directory : Target := unusable "Is a directory (os error 21)"

def missing : Target := unusable "No such file or directory (os error 2)"

def notDirectory : Target := unusable "Not a directory (os error 20)"

def nameTooLong : Target := unusable "File name too long (os error 36)"

end Target

/-- A device that cannot sync what it is given, and has no length to set. -/
def Device.null : Device where
  write _ _ _ := .failed 0 "Invalid argument (os error 22)"
  setLength _ _ := .failed false "Invalid argument (os error 22)"

def Device.limited (limit : Nat) : Device where
  write _ place bytes :=
    if place + bytes.length ≤ limit then .done
    else .failed (limit - place) "File too large (os error 27)"
  setLength file length :=
    if length ≤ max limit file.length then .done
    else .failed false "File too large (os error 27)"

namespace Target

def device (t : Target) (limit : Option Nat) : Device :=
  match t, limit with
  | .nullDevice, _ => .null
  | _, none => .sound
  | _, some n => .limited n

/-- Opens the journal at a path, where a regular file has the given bytes; also tells what the file
becomes. -/
def openJournal (t : Target) (bytes : List UInt8) : Except Error Opened × List UInt8 :=
  match t with
  | .regularFile => openBytes .sound bytes
  | .nullDevice => openBytes .null []
  | .unusable reason => (.error (.storage reason), bytes)

end Target

end Bookkeeping.Journal
