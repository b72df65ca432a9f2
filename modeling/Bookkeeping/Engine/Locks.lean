/-!
Locks of accounts. An account's lock is registered when it is first asked for and stays
registered; it has at most one holder, and those who wait for it are served in turn.
-/
namespace Bookkeeping

/-- The lock of an account: who holds it, and who waits for it, the first in front. -/
structure AccountLock (ω : Type) where
  account : String
  holder : Option ω := none
  waiting : List ω := []
  deriving Repr

structure Locks (ω : Type) where
  registered : List (AccountLock ω) := []
  deriving Repr

namespace AccountLock

variable {ω : Type} [BEq ω]

/-- The lock with `w` as its holder if it is free, and behind all who wait otherwise. -/
def requestedBy (l : AccountLock ω) (w : ω) : AccountLock ω :=
  if l.holder.isNone then { l with holder := some w } else { l with waiting := l.waiting ++ [w] }

/-- The lock without `w`: if `w` held it, it passes to the first who waits. -/
def leftBy (l : AccountLock ω) (w : ω) : AccountLock ω :=
  if l.holder == some w then
    match l.waiting with
    | [] => { l with holder := none }
    | next :: rest => { l with holder := some next, waiting := rest }
  else { l with waiting := l.waiting.filter (· != w) }

end AccountLock

namespace Locks

variable {ω : Type} [BEq ω]

def count (ls : Locks ω) : Nat := ls.registered.length

def find? (ls : Locks ω) (account : String) : Option (AccountLock ω) :=
  ls.registered.find? (·.account == account)

def holder (ls : Locks ω) (account : String) : Option ω := (ls.find? account).bind (·.holder)

def isHeldBy (ls : Locks ω) (account : String) (w : ω) : Bool := ls.holder account == some w

def request (ls : Locks ω) (account : String) (w : ω) : Locks ω :=
  if (ls.find? account).isSome then
    ⟨ls.registered.map fun l => if l.account == account then l.requestedBy w else l⟩
  else ⟨ls.registered ++ [{ account, holder := some w }]⟩

def leave (ls : Locks ω) (account : String) (w : ω) : Locks ω :=
  ⟨ls.registered.map fun l => if l.account == account then l.leftBy w else l⟩

/-- Who holds the account's lock after `w` has left it and did not before. -/
def successor? (ls : Locks ω) (account : String) (w : ω) : Option ω :=
  if ls.isHeldBy account w then (ls.leave account w).holder account else none

end Locks

/-- The accounts of a pair in the order in which their locks are taken: the lesser first, and one
alone if they are the same. -/
def lockOrder (a b : String) : List String :=
  if a = b then [a] else if a < b then [a, b] else [b, a]

end Bookkeeping
