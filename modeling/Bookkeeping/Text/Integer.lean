import Bookkeeping.Text.Hex
/-! Whole numbers read from text up to a limit, with the first thing that is wrong with them. -/
namespace Bookkeeping.Text

inductive IntegerError where
  | empty
  | invalidDigit
  | tooLarge
  deriving DecidableEq, Repr

def IntegerError.message : IntegerError → String
  | empty => "cannot parse integer from empty string"
  | invalidDigit => "invalid digit found in string"
  | tooLarge => "number too large to fit in target type"

/-- Digits of a base up to 16, read onto a number that stays below a limit. -/
def readDigits (base limit n : Nat) : List Char → Except IntegerError Nat
  | [] => .ok n
  | c :: rest =>
    if isHexDigit c && hexValue c < base then
      if base * n + hexValue c < limit then readDigits base limit (base * n + hexValue c) rest
      else .error .tooLarge
    else .error .invalidDigit

def readNatural (base limit : Nat) : List Char → Except IntegerError Nat
  | [] => .error .empty
  | ['+'] => .error .invalidDigit
  | '+' :: rest => readDigits base limit 0 rest
  | cs => readDigits base limit 0 cs

end Bookkeeping.Text
