import CompactInt.Proofs.Varint.GroupSum
import CompactInt.Proofs.Varint.Words
import Mathlib.Data.Nat.Log

/-! The bytes of a number: their base-128 sum, their shape and their count. -/

set_option autoImplicit false

namespace CompactInt.Varint

theorem lt_128_iff {value : UInt32} : value < 128 ↔ value.toNat < 128 := UInt32.lt_iff_toNat_lt

theorem groupSum_encode (value : UInt32) : groupSum (encode value) = value.toNat := by
  fun_induction encode value with
  | case1 value small =>
    rw [lt_128_iff] at small
    rw [groupSum_singleton, UInt32.toNat_toUInt8]
    omega
  | case2 value large ih =>
    rw [groupSum, ih, continued_toNat, shiftRight_seven_toNat]
    omega

theorem denoted_encode (value : UInt32) : denoted (encode value) = value := by
  rw [denoted, groupSum_encode, UInt32.ofNat_toNat]

theorem encode_eq_append (value : UInt32) :
    ∃ lead last, encode value = lead ++ [last] ∧ (∀ byte ∈ lead, Continues byte) ∧
      ¬ Continues last := by
  fun_induction encode value with
  | case1 value small =>
    refine ⟨[], value.toUInt8, rfl, nofun, ?_⟩
    rw [lt_128_iff] at small
    rw [continues_iff, UInt32.toNat_toUInt8]
    omega
  | case2 value large ih =>
    obtain ⟨lead, last, shape, continues, ends⟩ := ih
    refine ⟨continued value :: lead, last, by rw [shape, List.cons_append], ?_, ends⟩
    intro byte member
    rcases List.mem_cons.1 member with rfl | later
    · rw [continues_iff, continued_toNat]; exact Nat.le_add_left _ _
    · exact continues byte later

theorem toNat_ne_zero {value : UInt32} (nonzero : value ≠ 0) : value.toNat ≠ 0 :=
  fun zero => nonzero (UInt32.toNat_inj.1 zero)

theorem shiftRight_seven_ne_zero {value : UInt32} (large : ¬ value < 128) : value >>> 7 ≠ 0 := by
  rw [lt_128_iff] at large
  rw [ne_eq, ← UInt32.toNat_inj, shiftRight_seven_toNat, UInt32.toNat_zero]
  omega

theorem bitLength_shiftRight {value : UInt32} (large : ¬ value < 128) :
    bitLength value = bitLength (value >>> 7) + 7 := by
  have nonzero : value ≠ 0 := by rintro rfl; exact large (by decide)
  have seven : 7 ≤ value.toNat.log2 := by
    rw [lt_128_iff, Nat.not_lt] at large
    exact (Nat.le_log2 (toNat_ne_zero nonzero)).2 large
  have fewer : (value.toNat / 128).log2 = value.toNat.log2 - 7 := by
    rw [Nat.log2_eq_log_two, Nat.log2_eq_log_two]
    exact Nat.log_div_base_pow 2 value.toNat 7
  rw [bitLength, bitLength, if_neg nonzero, if_neg (shiftRight_seven_ne_zero large),
    shiftRight_seven_toNat, fewer]
  omega

theorem bitLength_le_of_lt {value : UInt32} (bits : Nat) (small : value.toNat < 2 ^ bits) :
    bitLength value ≤ bits := by
  unfold bitLength
  split
  · exact Nat.zero_le bits
  · next nonzero => exact (Nat.log2_lt (toNat_ne_zero nonzero)).2 small

theorem bitLength_pos {value : UInt32} (nonzero : value ≠ 0) : 0 < bitLength value := by
  rw [bitLength, if_neg nonzero]
  exact Nat.succ_pos _

theorem length_encode (value : UInt32) : (encode value).length = encodedLength value := by
  fun_induction encode value with
  | case1 value small =>
    have bits := bitLength_le_of_lt 7 (lt_128_iff.1 small)
    rw [List.length_singleton, encodedLength]
    omega
  | case2 value large ih =>
    -- The bits above a continued group are not all zero, so another group is due.
    have more := bitLength_pos (shiftRight_seven_ne_zero large)
    rw [List.length_cons, ih, encodedLength, encodedLength, bitLength_shiftRight large]
    omega

theorem length_encode_le (value : UInt32) : (encode value).length ≤ 5 := by
  have bits := bitLength_le_of_lt 32 value.toNat_lt
  rw [length_encode, encodedLength]
  omega

theorem isValue_encode (value : UInt32) : IsValue (encode value) := by
  obtain ⟨lead, last, shape, continues, ends⟩ := encode_eq_append value
  refine ⟨lead, last, shape, ?_, continues, ends⟩
  have short := length_encode_le value
  rw [shape, List.length_append, List.length_singleton] at short
  exact Nat.lt_of_lt_of_le short (by decide)

end CompactInt.Varint
