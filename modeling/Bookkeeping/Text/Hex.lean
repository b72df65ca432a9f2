import Bookkeeping.Text.Digits
/-! Numbers in hexadecimal digits, written in lower case and read in either. -/
namespace Bookkeeping.Text

def isHexDigit (c : Char) : Bool :=
  isDigit c || ('a' ≤ c && c ≤ 'f') || ('A' ≤ c && c ≤ 'F')

def hexValue (c : Char) : Nat :=
  if isDigit c then c.toNat - 48
  else if 'a' ≤ c && c ≤ 'f' then c.toNat - 87
  else if 'A' ≤ c && c ≤ 'F' then c.toNat - 55
  else 0

def fixedHex : Nat → Nat → List Char
  | 0, _ => []
  | width + 1, n => fixedHex width (n / 16) ++ [Nat.digitChar (n % 16)]

def hexDigitsValue (cs : List Char) : Nat := cs.foldl (fun n c => 16 * n + hexValue c) 0

theorem fixedHex_length (width n : Nat) : (fixedHex width n).length = width := by
  induction width generalizing n with
  | zero => rfl
  | succ w ih => simp [fixedHex, ih]

end Bookkeeping.Text
