import Bookkeeping.Journal.Line
/-!
Recovery of a book from the bytes of its journal. A last line that was cut short, or that is no
record, is a write that never finished and is left out; anything else that is no record, and any
key that comes twice, means that the journal is corrupted.
-/
namespace Bookkeeping.Journal

/-- Why a journal cannot be recovered, and in which line, counted from 1. -/
inductive Corruption where
  | badLine (line : Nat) (fault : LineFault)
  | duplicateKey (line : Nat) (key : String)
  deriving DecidableEq, Repr

def Corruption.toError : Corruption → Error
  | badLine line fault => .journalCorrupted line fault.message
  | duplicateKey line key =>
    .journalCorrupted line ("duplicate idempotency key '" ++ key ++ "'")

/-- The book recovered so far, and how many bytes it takes up. -/
structure Recovered where
  book : Book := {}
  length : Nat := 0
  deriving DecidableEq, Repr

def firstLine : List UInt8 → Option (List UInt8 × List UInt8)
  | [] => none
  | b :: rest =>
    if b == newline then some ([], rest) else (firstLine rest).map fun r => (b :: r.1, r.2)

theorem length_of_firstLine {bytes line rest : List UInt8}
    (h : firstLine bytes = some (line, rest)) : bytes.length = line.length + rest.length + 1 := by
  induction bytes generalizing line with
  | nil => simp [firstLine] at h
  | cons b bs ih =>
    unfold firstLine at h
    split at h
    · simp only [Option.some.injEq, Prod.mk.injEq] at h
      obtain ⟨rfl, rfl⟩ := h
      simp
    · obtain ⟨r, hr, he⟩ := Option.map_eq_some_iff.1 h
      simp only [Prod.mk.injEq] at he
      obtain ⟨rfl, rfl⟩ := he
      have := ih hr
      simp
      omega

/-- Recovers the lines of `bytes`, the first of which is line number `line`. -/
def recoverFrom (line : Nat) (r : Recovered) (bytes : List UInt8) : Except Corruption Recovered :=
  match _h : firstLine bytes with
  | none => .ok r
  | some (body, rest) =>
    match decodeLine body with
    | .error fault => if rest.isEmpty then .ok r else .error (.badLine line fault)
    | .ok p =>
      match r.book.insert p with
      | (.duplicateKey, _) => .error (.duplicateKey line p.key)
      | (.saved, book) => recoverFrom (line + 1) ⟨book, r.length + body.length + 1⟩ rest
termination_by bytes.length
decreasing_by
  have := length_of_firstLine _h
  omega

def recover (bytes : List UInt8) : Except Corruption Recovered := recoverFrom 1 {} bytes

end Bookkeeping.Journal
