/-! The CRC-32 checksum with the reflected polynomial of IEEE 802.3. -/
namespace Bookkeeping.Digest

def crcShift (c : UInt32) : UInt32 :=
  if c &&& 1 = 1 then (c >>> 1) ^^^ 0xEDB88320 else c >>> 1

def crcShifts : Nat → UInt32 → UInt32
  | 0, c => c
  | n + 1, c => crcShifts n (crcShift c)

def crcByte (c : UInt32) (b : UInt8) : UInt32 := crcShifts 8 (c ^^^ b.toUInt32)

/-- The register after a message, before the final complement. -/
def crcRegister (c : UInt32) (message : List UInt8) : UInt32 := message.foldl crcByte c

def crc32 (message : List UInt8) : UInt32 := crcRegister 0xFFFFFFFF message ^^^ 0xFFFFFFFF

theorem crcRegister_append (c : UInt32) (a b : List UInt8) :
    crcRegister c (a ++ b) = crcRegister (crcRegister c a) b := by
  simp [crcRegister]

end Bookkeeping.Digest
