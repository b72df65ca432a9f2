import Bookkeeping.Text.Digits

/-! Texts as UTF-8 bytes, and bytes read back with the place of the first sequence that is no
character. -/
namespace Bookkeeping.Text

def encodeChar (c : Char) : List UInt8 :=
  let n := c.toNat
  if n < 0x80 then [UInt8.ofNat n]
  else if n < 0x800 then [UInt8.ofNat (0xC0 + n / 64), UInt8.ofNat (0x80 + n % 64)]
  else if n < 0x10000 then
    [UInt8.ofNat (0xE0 + n / 4096), UInt8.ofNat (0x80 + n / 64 % 64), UInt8.ofNat (0x80 + n % 64)]
  else
    [UInt8.ofNat (0xF0 + n / 262144), UInt8.ofNat (0x80 + n / 4096 % 64),
      UInt8.ofNat (0x80 + n / 64 % 64), UInt8.ofNat (0x80 + n % 64)]

def encodeChars (cs : List Char) : List UInt8 := cs.flatMap encodeChar

def encode (s : String) : List UInt8 := encodeChars s.toList

def byteWidth (c : Char) : Nat :=
  if c.toNat < 0x80 then 1 else if c.toNat < 0x800 then 2 else if c.toNat < 0x10000 then 3 else 4

def byteLength (cs : List Char) : Nat := cs.foldl (fun n c => n + byteWidth c) 0

/-- Where bytes stop being UTF-8: the index of the first byte of the offending sequence, and how
many bytes it takes, unless the input ends inside it. -/
structure BadSequence where
  index : Nat
  length : Option Nat
  deriving DecidableEq, Repr

def BadSequence.message (e : BadSequence) : String :=
  match e.length with
  | some k => "invalid utf-8 sequence of " ++ natText k ++ " bytes from index " ++ natText e.index
  | none => "incomplete utf-8 byte sequence from index " ++ natText e.index

def isTail (b : UInt8) : Bool := 0x80 ≤ b && b ≤ 0xBF

/-- The bounds of the second byte of a three-byte sequence, by its first byte. -/
def secondOfThree (a b : UInt8) : Bool :=
  if a == 0xE0 then 0xA0 ≤ b && b ≤ 0xBF
  else if a == 0xED then 0x80 ≤ b && b ≤ 0x9F
  else isTail b

def secondOfFour (a b : UInt8) : Bool :=
  if a == 0xF0 then 0x90 ≤ b && b ≤ 0xBF
  else if a == 0xF4 then 0x80 ≤ b && b ≤ 0x8F
  else isTail b

def twoByteChar (a b : UInt8) : Char := Char.ofNat ((a.toNat - 0xC0) * 64 + (b.toNat - 0x80))

def threeByteChar (a b c : UInt8) : Char :=
  Char.ofNat ((a.toNat - 0xE0) * 4096 + (b.toNat - 0x80) * 64 + (c.toNat - 0x80))

def fourByteChar (a b c d : UInt8) : Char :=
  Char.ofNat ((a.toNat - 0xF0) * 262144 + (b.toNat - 0x80) * 4096 + (c.toNat - 0x80) * 64 +
    (d.toNat - 0x80))

def decodeFrom (i : Nat) : List UInt8 → Except BadSequence (List Char)
  | [] => .ok []
  | a :: rest =>
    if a < 0x80 then (Char.ofNat a.toNat :: ·) <$> decodeFrom (i + 1) rest
    else if 0xC2 ≤ a && a ≤ 0xDF then
      match rest with
      | [] => .error ⟨i, none⟩
      | b :: rest =>
        if isTail b then (twoByteChar a b :: ·) <$> decodeFrom (i + 2) rest
        else .error ⟨i, some 1⟩
    else if 0xE0 ≤ a && a ≤ 0xEF then
      match rest with
      | [] => .error ⟨i, none⟩
      | [b] => .error ⟨i, if secondOfThree a b then none else some 1⟩
      | b :: c :: rest =>
        if !secondOfThree a b then .error ⟨i, some 1⟩
        else if !isTail c then .error ⟨i, some 2⟩
        else (threeByteChar a b c :: ·) <$> decodeFrom (i + 3) rest
    else if 0xF0 ≤ a && a ≤ 0xF4 then
      match rest with
      | [] => .error ⟨i, none⟩
      | [b] => .error ⟨i, if secondOfFour a b then none else some 1⟩
      | [b, c] =>
        .error ⟨i, if !secondOfFour a b then some 1 else if !isTail c then some 2 else none⟩
      | b :: c :: d :: rest =>
        if !secondOfFour a b then .error ⟨i, some 1⟩
        else if !isTail c then .error ⟨i, some 2⟩
        else if !isTail d then .error ⟨i, some 3⟩
        else (fourByteChar a b c d :: ·) <$> decodeFrom (i + 4) rest
    else .error ⟨i, some 1⟩

def decodeChars (bytes : List UInt8) : Except BadSequence (List Char) := decodeFrom 0 bytes

def decode (bytes : List UInt8) : Except BadSequence String := String.ofList <$> decodeChars bytes

end Bookkeeping.Text
