import Bookkeeping.Journal.Recovery
/-!
A book kept in a journal file. A posting is committed by appending its line and waiting until the
device has it; an append that fails is undone by cutting the file back to what was committed, and
if that fails too the journal takes no further postings.
-/
namespace Bookkeeping.Journal

/-- What becomes of bytes that are written: all of them are stored and synced, or the first few
are stored and then something fails. -/
inductive WriteOutcome where
  | done
  | failed (stored : Nat) (reason : String)
  deriving DecidableEq, Repr

/-- What becomes of a file's length that is set: it is changed for good, or something fails before
or after the change. -/
inductive LengthOutcome where
  | done
  | failed (changed : Bool) (reason : String)
  deriving DecidableEq, Repr

/-- How a device answers to writes at a place in a file and to a file's length being set. -/
structure Device where
  write : (file : List UInt8) → (place : Nat) → (bytes : List UInt8) → WriteOutcome
  setLength : (file : List UInt8) → (length : Nat) → LengthOutcome

def Device.sound : Device := ⟨fun _ _ _ => .done, fun _ _ => .done⟩

def resized (file : List UInt8) (length : Nat) : List UInt8 :=
  file.take length ++ List.replicate (length - file.length) 0

def overwritten (file : List UInt8) (place : Nat) (bytes : List UInt8) : List UInt8 :=
  if bytes.isEmpty then file
  else resized file place ++ bytes ++ file.drop (place + bytes.length)

def LengthOutcome.apply (o : LengthOutcome) (file : List UInt8) (length : Nat) : List UInt8 :=
  match o with
  | .done | .failed true _ => resized file length
  | .failed false _ => file

/-- An open journal: the book, the length of the file that is committed, the place of the next
write, and whether a failed append could not be undone. -/
structure Store where
  book : Book := {}
  length : Nat := 0
  cursor : Nat := 0
  broken : Bool := false
  deriving DecidableEq, Repr

structure Committed where
  result : Except Error SaveOutcome
  store : Store
  file : List UInt8
  appendFailure : Option String := none

namespace Store

def rollback (s : Store) (device : Device) (file : List UInt8) (reason : String) : Committed :=
  let outcome := device.setLength file s.length
  let file := outcome.apply file s.length
  match outcome with
  | .done => ⟨.error (.storage reason), { s with cursor := s.length }, file, some reason⟩
  | .failed _ reason' =>
    ⟨.error (.storage (reason ++ "; rollback failed: " ++ reason')), { s with broken := true },
      file, some reason⟩

/-- Saves a posting unless its key is taken. -/
def commit (s : Store) (device : Device) (file : List UInt8) (p : Posting) : Committed :=
  if s.broken then
    ⟨.error (.storage "journal is unusable after a failed rollback"), s, file, none⟩
  else
    match s.book.insert p with
    | (.duplicateKey, _) => ⟨.ok .duplicateKey, s, file, none⟩
    | (.saved, book) =>
      let line := encodeLine p
      match device.write file s.cursor line with
      | .done =>
        ⟨.ok .saved, { s with
            book, length := s.length + line.length, cursor := s.cursor + line.length },
          overwritten file s.cursor line, none⟩
      | .failed stored reason =>
        let s := { s with cursor := s.cursor + stored }
        s.rollback device (overwritten file (s.cursor - stored) (line.take stored)) reason

end Store

structure Opened where
  store : Store
  discarded : Nat
  deriving DecidableEq, Repr

/-- Opens the journal with the given bytes and cuts off what is not committed; also tells what the
file becomes. -/
def openBytes (device : Device) (bytes : List UInt8) : Except Error Opened × List UInt8 :=
  match recover bytes with
  | .error c => (.error c.toError, bytes)
  | .ok r =>
    let opened : Opened :=
      ⟨{ book := r.book, length := r.length, cursor := r.length }, bytes.length - r.length⟩
    if r.length < bytes.length then
      let outcome := device.setLength bytes r.length
      let file := outcome.apply bytes r.length
      match outcome with
      | .done => (.ok opened, file)
      | .failed _ reason => (.error (.storage reason), file)
    else (.ok opened, bytes)

end Bookkeeping.Journal
