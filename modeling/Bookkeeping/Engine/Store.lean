import Bookkeeping.Journal.Store
/-! Where an engine keeps its book: in memory only, or in a journal with its file. -/
namespace Bookkeeping

inductive Store where
  | memory (book : Book)
  | journal (store : Journal.Store) (file : List UInt8)
  deriving DecidableEq, Repr

namespace Store

def book : Store → Book
  | memory book => book
  | journal store _ => store.book

def file : Store → List UInt8
  | memory _ => []
  | journal _ file => file

def isJournal : Store → Bool
  | memory _ => false
  | journal _ _ => true

/-- What a save answers, the store it leaves, and why a journal's append failed if it did. -/
structure Saved where
  result : Except Error SaveOutcome
  store : Store
  appendFailure : Option String := none

def save (device : Journal.Device) (p : Posting) : Store → Saved
  | memory book =>
    let (outcome, book) := book.insert p
    ⟨.ok outcome, memory book, none⟩
  | journal store file =>
    let c := store.commit device file p
    ⟨c.result, journal c.store c.file, c.appendFailure⟩

end Store

end Bookkeeping
