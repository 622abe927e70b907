import CompactInt.Coding
import CompactInt.Varint.Decoder
import CompactInt.Varint.Groups
import Mathlib.Data.Nat.Bitwise
import Mathlib.Tactic.Ring

/-! The word operations of the coders as arithmetic on natural numbers. -/

set_option autoImplicit false

namespace CompactInt.Varint

/-- Bits below a place and bits moved to that place do not meet. -/
theorem or_mul_two_pow {low : Nat} {place : Nat} (small : low < 2 ^ place) (high : Nat) :
    low ||| high * 2 ^ place = low + high * 2 ^ place := by
  rw [Nat.or_comm, Nat.mul_comm, ← Nat.two_pow_add_eq_or_of_lt small, Nat.add_comm]

theorem shiftLeft_toNat {place : Nat} (inside : place < 32) (high : UInt32) :
    (high <<< UInt32.ofNat place).toNat = high.toNat % 2 ^ (32 - place) * 2 ^ place := by
  have width : 2 ^ 32 = 2 ^ (32 - place) * 2 ^ place := by
    rw [← Nat.pow_add, Nat.sub_add_cancel (Nat.le_of_lt inside)]
  have kept : place % 2 ^ 32 = place := Nat.mod_eq_of_lt (Nat.lt_trans inside (by decide))
  rw [UInt32.toNat_shiftLeft, UInt32.toNat_ofNat', kept, Nat.mod_eq_of_lt inside, Nat.shiftLeft_eq,
    width, Nat.mul_mod_mul_right]

theorem or_shiftLeft_toNat {low : UInt32} {place : Nat} (inside : place < 32)
    (small : low.toNat < 2 ^ place) (high : UInt32) :
    (low ||| (high <<< UInt32.ofNat place)).toNat =
      (low.toNat + high.toNat * 2 ^ place) % 2 ^ 32 := by
  have width : 2 ^ 32 = 2 ^ (32 - place) * 2 ^ place := by
    rw [← Nat.pow_add, Nat.sub_add_cancel (Nat.le_of_lt inside)]
  -- The part of the product that does not fit into the word is a multiple of 2^32.
  have carried : low.toNat + high.toNat * 2 ^ place =
      low.toNat + high.toNat % 2 ^ (32 - place) * 2 ^ place +
        2 ^ 32 * (high.toNat / 2 ^ (32 - place)) := by
    conv_lhs => rw [← Nat.mod_add_div high.toNat (2 ^ (32 - place))]
    rw [width]
    ring
  have bounded : low.toNat + high.toNat % 2 ^ (32 - place) * 2 ^ place < 2 ^ 32 := by
    calc low.toNat + high.toNat % 2 ^ (32 - place) * 2 ^ place
        < (high.toNat % 2 ^ (32 - place) + 1) * 2 ^ place := by rw [Nat.succ_mul]; omega
      _ ≤ 2 ^ (32 - place) * 2 ^ place :=
        Nat.mul_le_mul_right _ (Nat.mod_lt _ (Nat.two_pow_pos _))
      _ = 2 ^ 32 := width.symm
  rw [UInt32.toNat_or, shiftLeft_toNat inside, or_mul_two_pow small, carried,
    Nat.add_mul_mod_self_left, Nat.mod_eq_of_lt bounded]

theorem payload_toNat (byte : UInt8) : (byte &&& payloadMask).toNat = byte.toNat % 128 := by
  rw [UInt8.toNat_and]
  exact Nat.and_two_pow_sub_one_eq_mod byte.toNat 7

theorem continues_iff {byte : UInt8} : Continues byte ↔ 128 ≤ byte.toNat := UInt8.le_iff_toNat_le

theorem and_continuationBit_eq_zero_iff {byte : UInt8} :
    byte &&& continuationBit = 0 ↔ ¬ Continues byte := by
  have bits : (byte &&& continuationBit).toNat = (byte.toNat.testBit 7).toNat * 2 ^ 7 := by
    rw [UInt8.toNat_and]
    exact Nat.and_two_pow byte.toNat 7
  have bounded := byte.toNat_lt
  rw [← UInt8.toNat_inj, bits, continues_iff, Nat.testBit_eq_decide_div_mod_eq]
  by_cases top : byte.toNat / 2 ^ 7 % 2 = 1
  · simp only [top, decide_true, Bool.toNat_true, UInt8.toNat_zero]
    omega
  · simp only [top, decide_false, Bool.toNat_false, UInt8.toNat_zero]
    omega

theorem and_continuationBit_ne_zero {byte : UInt8} (continues : Continues byte) :
    byte &&& continuationBit ≠ 0 := fun zero => and_continuationBit_eq_zero_iff.1 zero continues

theorem shiftRight_seven_toNat (value : UInt32) : (value >>> 7).toNat = value.toNat / 128 := by
  rw [UInt32.toNat_shiftRight]
  exact Nat.shiftRight_eq_div_pow _ _

theorem continued_toNat (value : UInt32) : (continued value).toNat = value.toNat % 128 + 128 := by
  -- The mask leaves the place of the continuation bit free.
  have small : (value.toUInt8 &&& payloadMask).toNat < 2 ^ 7 := by
    rw [payload_toNat]; exact Nat.mod_lt _ (by decide)
  have marked : (value.toUInt8 &&& payloadMask).toNat ||| 128 =
      (value.toUInt8 &&& payloadMask).toNat + 128 := or_mul_two_pow small 1
  rw [continued, UInt8.toNat_or]
  refine marked.trans ?_
  rw [payload_toNat, UInt32.toNat_toUInt8, Nat.mod_mod_of_dvd _ (by decide : 128 ∣ 256)]

end CompactInt.Varint
