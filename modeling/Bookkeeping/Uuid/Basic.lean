import Bookkeeping.Power
import Bookkeeping.Text.Hex
/-! Universally unique identifiers: 128-bit numbers, written in five groups of hexadecimal
digits. -/
namespace Bookkeeping

structure Uuid where
  value : Nat
  value_lt : value < twoTo 128
  deriving DecidableEq, Repr

namespace Uuid

def ofNat (n : Nat) : Uuid := ⟨n % twoTo 128, Nat.mod_lt _ (by decide)⟩

instance : Inhabited Uuid := ⟨ofNat 0⟩

def groups (u : Uuid) : List (List Char) :=
  [Text.fixedHex 8 (u.value / twoTo 96), Text.fixedHex 4 (u.value / twoTo 80),
    Text.fixedHex 4 (u.value / twoTo 64), Text.fixedHex 4 (u.value / twoTo 48),
    Text.fixedHex 12 u.value]

def chars (u : Uuid) : List Char := List.intercalate ['-'] u.groups

def text (u : Uuid) : String := String.ofList u.chars

end Uuid

end Bookkeeping
