import CompactInt.Proofs.Varint.Natural

/-! The form the encoder gives to a number. -/

set_option autoImplicit false

namespace CompactInt.Varint

theorem isCanonical_append_singleton {lead : List UInt8} {last : UInt8} :
    IsCanonical (lead ++ [last]) ↔
      lead.length ≤ 4 ∧ (lead = [] ∨ last ≠ 0) ∧ (lead.length = 4 → last ≤ 0x0f) := by
  have few : lead.length < 5 ↔ lead.length ≤ 4 := Nat.lt_succ_iff
  simp [IsCanonical, maxGroups, few]

/-! ## What is written is canonical -/

theorem getLast?_encode_ne_zero {value : UInt32} (nonzero : value ≠ 0) :
    (encode value).getLast? ≠ some 0 := by
  fun_induction encode value with
  | case1 value small =>
    rw [lt_128_iff] at small
    have someBits := toNat_ne_zero nonzero
    rw [List.getLast?_singleton, ne_eq, Option.some.injEq, ← UInt8.toNat_inj, UInt32.toNat_toUInt8,
      UInt8.toNat_zero]
    omega
  | case2 value large ih =>
    obtain ⟨lead, last, shape, -⟩ := encode_eq_append (value >>> 7)
    rw [shape] at ih ⊢
    rw [← List.cons_append, List.getLast?_concat]
    rw [List.getLast?_concat] at ih
    exact ih (shiftRight_seven_ne_zero large)

theorem isCanonical_encode (value : UInt32) : IsCanonical (encode value) := by
  obtain ⟨lead, last, shape, -, ends⟩ := encode_eq_append value
  have few := length_encode_le value
  have total := groupSum_encode value
  have bounded := value.toNat_lt
  rw [continues_iff] at ends
  rw [shape, List.length_append, List.length_singleton] at few
  rw [shape, groupSum_append, groupSum_singleton] at total
  rw [shape, isCanonical_append_singleton]
  refine ⟨Nat.le_of_succ_le_succ few, ?_, ?_⟩
  · -- Only the number zero has a last group of zeros, and that group is its only one.
    refine or_iff_not_imp_left.2 fun someLead zero => ?_
    have nonzero : value ≠ 0 := by
      rintro rfl
      have lengths := congrArg List.length shape
      have alone : (encode 0).length = 1 := by cbv
      rw [alone, List.length_append, List.length_singleton] at lengths
      exact someLead (List.length_eq_zero_iff.1 (Nat.succ.inj lengths).symm)
    have lastNonzero := getLast?_encode_ne_zero nonzero
    rw [shape, List.getLast?_concat, zero] at lastNonzero
    exact lastNonzero rfl
  · -- The fifth group starts at bit twenty-eight, so it has four bits.
    intro four
    rw [four] at total
    rw [UInt8.le_iff_toNat_le]
    show last.toNat ≤ 15
    omega

/-! ## What is canonical is written -/

theorem groupSum_lt_of_isCanonical {bytes : List UInt8} (isValue : IsValue bytes)
    (canonical : IsCanonical bytes) : groupSum bytes < 2 ^ 32 := by
  obtain ⟨lead, last, rfl, -, -, ends⟩ := isValue
  obtain ⟨few, -, fifth⟩ := isCanonical_append_singleton.1 canonical
  rcases Nat.lt_or_eq_of_le few with short | four
  · have groups : (lead ++ [last]).length ≤ 4 := by
      rw [List.length_append, List.length_singleton]
      exact short
    calc groupSum (lead ++ [last]) < 128 ^ (lead ++ [last]).length := groupSum_lt _
      _ ≤ 128 ^ 4 := Nat.pow_le_pow_right (by decide) groups
      _ < 2 ^ 32 := by decide
  · have lower := groupSum_lt lead
    have upper : last.toNat ≤ 15 := UInt8.le_iff_toNat_le.1 (fifth four)
    rw [four] at lower
    rw [groupSum_append, groupSum_singleton, four]
    omega

/-- The encoder gives back the byte string a number was read from exactly if that is
canonical. -/
theorem encode_denoted_iff {bytes : List UInt8} (isValue : IsValue bytes) :
    encode (denoted bytes) = bytes ↔ IsCanonical bytes := by
  constructor
  · intro same
    rw [← same]
    exact isCanonical_encode (denoted bytes)
  · intro canonical
    have bounded := groupSum_lt_of_isCanonical isValue canonical
    obtain ⟨lead, last, rfl, -, continues, ends⟩ := isValue
    rw [denoted, ← encodeNat_toNat, UInt32.toNat_ofNat', Nat.mod_eq_of_lt bounded]
    exact (eq_encodeNat_of_last continues ends (isCanonical_append_singleton.1 canonical).2.1).symm

theorem length_encode_denoted_le {bytes : List UInt8} (isValue : IsValue bytes) :
    (encode (denoted bytes)).length ≤ bytes.length := by
  rw [← encodeNat_toNat, length_encodeNat_le_iff (isValue_iff.1 isValue).1.length_pos]
  calc (denoted bytes).toNat ≤ groupSum bytes := by
        rw [denoted, UInt32.toNat_ofNat']
        exact Nat.mod_le _ _
    _ < 128 ^ bytes.length := groupSum_lt bytes

end CompactInt.Varint
