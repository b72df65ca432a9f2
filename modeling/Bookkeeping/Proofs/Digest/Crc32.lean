import Mathlib.Algebra.Group.Nat.Defs
import Mathlib.Logic.Function.Basic
import Bookkeeping.Digest.Crc32

/-! Two messages that differ in one byte have different checksums: the register can be run backwards
through the bytes after it, and the byte itself can be told from the registers around it. -/
namespace Bookkeeping.Digest

open Function (Injective)

/-- The highest bit tells whether the polynomial was added. -/
theorem xor_polynomial_ne {a b : UInt32} (ha : a.toNat < 2 ^ 31) (hb : b.toNat < 2 ^ 31) :
    a ^^^ 0xEDB88320 ≠ b := by
  intro h
  have hpolynomial : (0xEDB88320 : UInt32) = a ^^^ b := by
    rw [← h, ← UInt32.xor_assoc, UInt32.xor_self, UInt32.zero_xor]
  have hlt : (0xEDB88320 : UInt32).toNat < 2 ^ 31 := by
    rw [hpolynomial, UInt32.toNat_xor]
    exact Nat.xor_lt_two_pow ha hb
  exact absurd hlt (by decide)

theorem toNat_shiftRight_one (c : UInt32) : (c >>> 1).toNat = c.toNat / 2 := by
  rw [UInt32.toNat_shiftRight]
  exact Nat.shiftRight_eq_div_pow c.toNat 1

theorem and_one_eq_one (c : UInt32) : c &&& 1 = 1 ↔ c.toNat % 2 = 1 := by
  rw [← UInt32.toNat_inj, UInt32.toNat_and]
  exact iff_of_eq (congrArg (· = 1) (Nat.and_one_is_mod c.toNat))

theorem crcShift_injective : Injective crcShift := by
  intro a b h
  have hhalf (c : UInt32) : (c >>> 1).toNat < 2 ^ 31 := by
    have := c.toNat_lt
    rw [toNat_shiftRight_one]
    omega
  have hback (hlast : a.toNat % 2 = b.toNat % 2) (hrest : a >>> 1 = b >>> 1) : a = b := by
    have hrest' := congrArg UInt32.toNat hrest
    rw [toNat_shiftRight_one, toNat_shiftRight_one] at hrest'
    exact UInt32.toNat_inj.1 (by omega)
  unfold crcShift at h
  simp only [and_one_eq_one] at h
  split at h
  · next ha =>
    split at h
    · next hb => exact hback (by omega) ((UInt32.xor_left_inj _).1 h)
    · exact absurd h (xor_polynomial_ne (hhalf a) (hhalf b))
  · next ha =>
    split at h
    · exact absurd h.symm (xor_polynomial_ne (hhalf b) (hhalf a))
    · next hb => exact hback (by omega) h

theorem crcShifts_injective (n : Nat) : Injective (crcShifts n) := by
  induction n with
  | zero => exact fun _ _ h => h
  | succ n ih => exact ih.comp crcShift_injective

theorem crcByte_left_injective (b : UInt8) : Injective (crcByte · b) := by
  intro c d h
  exact (UInt32.xor_left_inj _).1 (crcShifts_injective 8 h)

theorem crcByte_right_injective (c : UInt32) : Injective (crcByte c) := by
  intro a b h
  have hword : a.toUInt32 = b.toUInt32 := (UInt32.xor_right_inj _).1 (crcShifts_injective 8 h)
  have hnat := congrArg UInt32.toNat hword
  rw [UInt8.toNat_toUInt32, UInt8.toNat_toUInt32] at hnat
  exact UInt8.toNat_inj.1 hnat

theorem crcRegister_injective (message : List UInt8) : Injective (crcRegister · message) := by
  induction message with
  | nil => exact fun _ _ h => h
  | cons b message ih => exact ih.comp (crcByte_left_injective b)

/-- A checksum tells the bytes apart that may stand at one place of a message. -/
theorem crc32_place_injective (first rest : List UInt8) :
    Injective fun b => crc32 (first ++ b :: rest) := by
  intro a b h
  have hregister := (UInt32.xor_left_inj _).1 h
  rw [crcRegister_append, crcRegister_append] at hregister
  exact crcByte_right_injective _ (crcRegister_injective rest hregister)

end Bookkeeping.Digest
