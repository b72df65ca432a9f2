/-! Numbers in decimal digits: written shortest or to a fixed width, and read back. -/
namespace Bookkeeping.Text

def isDigit (c : Char) : Bool := '0' ≤ c && c ≤ '9'

def digitValue (c : Char) : Nat := if isDigit c then c.toNat - 48 else 0

def digits (n : Nat) : List Char := Nat.toDigits 10 n

/-- The last digits of a number, exactly as many as asked for. -/
def fixedDigits : Nat → Nat → List Char
  | 0, _ => []
  | width + 1, n => fixedDigits width (n / 10) ++ [Nat.digitChar (n % 10)]

def digitsValue (cs : List Char) : Nat := cs.foldl (fun n c => 10 * n + digitValue c) 0

def natText (n : Nat) : String := String.ofList (digits n)

theorem fixedDigits_length (width n : Nat) : (fixedDigits width n).length = width := by
  induction width generalizing n with
  | zero => rfl
  | succ w ih => simp [fixedDigits, ih]

end Bookkeeping.Text
