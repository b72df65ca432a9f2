import Bookkeeping.Digest.Sha1
import Bookkeeping.Text.Utf8
import Bookkeeping.Uuid.Basic
/-! Identifiers of version 5, which a namespace identifier and a name determine. -/
namespace Bookkeeping.Uuid

def bytes (u : Uuid) : List UInt8 := Digest.Sha1.bytesOf 16 u.value

def ofBytes (bs : List UInt8) : Uuid := ofNat (bs.foldl (fun n b => 256 * n + b.toNat) 0)

/-- The sixteen bytes with the four version bits and the two variant bits of RFC 9562 set. -/
def stamped (version : UInt8) (bs : List UInt8) : List UInt8 :=
  let stamp (i : Nat) (b : UInt8) : UInt8 :=
    if i = 6 then b % 16 + 16 * version else if i = 8 then b % 64 + 128 else b
  bs.mapIdx stamp

def named (space : Uuid) (name : String) : Uuid :=
  ofBytes (stamped 5 ((Digest.sha1 (space.bytes ++ Text.encode name)).take 16))

def random (bs : List UInt8) : Uuid := ofBytes (stamped 4 (bs.take 16))

end Bookkeeping.Uuid
