import CompactInt.Proofs.Varint.Words

/-! The two bytes of a packed number as the digits of its value. -/

set_option autoImplicit false

namespace CompactInt.PackedShort

theorem word_toNat (high low : UInt8) :
    ((high.toUInt16 <<< 8) ||| low.toUInt16).toNat = low.toNat + high.toNat * 2 ^ 8 := by
  have fits : high.toNat * 2 ^ 8 < 2 ^ 16 := by have := high.toNat_lt; omega
  have moved : (high.toUInt16 <<< 8).toNat = high.toNat * 2 ^ 8 := by
    rw [UInt16.toNat_shiftLeft, UInt8.toNat_toUInt16]
    exact (congrArg (· % 2 ^ 16) (Nat.shiftLeft_eq _ _)).trans (Nat.mod_eq_of_lt fits)
  rw [UInt16.toNat_or, moved, UInt8.toNat_toUInt16, Nat.or_comm,
    Varint.or_mul_two_pow low.toNat_lt]

theorem and_signBit_eq_zero_iff {value : UInt16} : value &&& signBit = 0 ↔ value ≤ maxValue := by
  have bits : (value &&& signBit).toNat = (value.toNat.testBit 15).toNat * 2 ^ 15 := by
    rw [UInt16.toNat_and]
    exact Nat.and_two_pow value.toNat 15
  have bounded := value.toNat_lt
  have limit : value ≤ maxValue ↔ value.toNat ≤ 32767 := UInt16.le_iff_toNat_le
  rw [← UInt16.toNat_inj, bits, limit, Nat.testBit_eq_decide_div_mod_eq]
  by_cases top : value.toNat / 2 ^ 15 % 2 = 1
  · simp only [top, decide_true, Bool.toNat_true, UInt16.toNat_zero]
    omega
  · simp only [top, decide_false, Bool.toNat_false, UInt16.toNat_zero]
    omega

theorem pack_of_le {value : UInt16} (small : value ≤ maxValue) :
    pack value = .ok [(value >>> 8).toUInt8, value.toUInt8] := if_neg (UInt16.not_lt.2 small)

theorem unpack_halves {value : UInt16} (small : value ≤ maxValue) :
    unpack (value >>> 8).toUInt8 value.toUInt8 = .ok value := by
  have whole : ((value >>> 8).toUInt8.toUInt16 <<< 8) ||| value.toUInt8.toUInt16 = value := by
    have high : (value >>> 8).toNat = value.toNat / 2 ^ 8 := by
      rw [UInt16.toNat_shiftRight]
      exact Nat.shiftRight_eq_div_pow _ _
    have bounded := value.toNat_lt
    rw [← UInt16.toNat_inj, word_toNat, UInt16.toNat_toUInt8, UInt16.toNat_toUInt8, high]
    omega
  rw [unpack, whole]
  exact if_pos (and_signBit_eq_zero_iff.2 small)

theorem unpack_cases (high low : UInt8) :
    (high.toNat < 128 ∧ ∃ value, unpack high low = .ok value ∧
        value.toNat = 256 * high.toNat + low.toNat) ∨
      (128 ≤ high.toNat ∧ unpack high low = .error (.invalidArgument (.signBit high low))) := by
  have word := word_toNat high low
  have bounded := low.toNat_lt
  have clear : ((high.toUInt16 <<< 8) ||| low.toUInt16) &&& signBit = 0 ↔ high.toNat < 128 := by
    rw [and_signBit_eq_zero_iff, UInt16.le_iff_toNat_le, word]
    show low.toNat + high.toNat * 2 ^ 8 ≤ 32767 ↔ high.toNat < 128
    omega
  by_cases small : high.toNat < 128
  · exact .inl ⟨small, _, if_pos (clear.2 small), by omega⟩
  · exact .inr ⟨Nat.le_of_not_lt small, if_neg (mt clear.1 small)⟩

theorem pack_cases (value : UInt16) :
    (value.toNat ≤ 32767 ∧ ∃ high low, pack value = .ok [high, low] ∧ high.toNat < 128 ∧
        value.toNat = 256 * high.toNat + low.toNat) ∨
      (32767 < value.toNat ∧ pack value = .error (.invalidArgument (.shortRange value.toNat))) := by
  by_cases small : value ≤ maxValue
  · refine .inl ⟨UInt16.le_iff_toNat_le.1 small, _, _, pack_of_le small, ?_⟩
    rcases unpack_cases (value >>> 8).toUInt8 value.toUInt8 with
      ⟨clear, again, unpacked, whole⟩ | ⟨-, refused⟩
    · rw [unpack_halves small] at unpacked
      cases unpacked
      exact ⟨clear, whole⟩
    · rw [unpack_halves small] at refused
      cases refused
  · have large := UInt16.not_le.1 small
    exact .inr ⟨UInt16.lt_iff_toNat_lt.1 large, if_pos large⟩

/-- A number has two bytes if they can say it, and then no other two. -/
theorem pack_eq_ok_iff {value : UInt16} {bytes : List UInt8} :
    pack value = .ok bytes ↔ value.toNat ≤ 32767 ∧ ∃ high low, bytes = [high, low] ∧
      value.toNat = 256 * high.toNat + low.toNat := by
  rcases pack_cases value with ⟨small, high, low, packed, -, whole⟩ | ⟨large, refused⟩
  · rw [packed]
    constructor
    · intro same
      cases same
      exact ⟨small, high, low, rfl, whole⟩
    · rintro ⟨-, high', low', rfl, whole'⟩
      have bounded := low.toNat_lt
      have bounded' := low'.toNat_lt
      have sameHigh : high = high' := UInt8.toNat_inj.1 (by omega)
      have sameLow : low = low' := UInt8.toNat_inj.1 (by omega)
      rw [sameHigh, sameLow]
  · rw [refused]
    exact ⟨nofun, fun ⟨small, _⟩ => absurd small (Nat.not_le.2 large)⟩

end CompactInt.PackedShort
