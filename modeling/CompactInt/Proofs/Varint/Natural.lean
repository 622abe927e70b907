import CompactInt.Proofs.Varint.Encoding

/-! Encodings of natural numbers of any size. Zeros can be added behind the last group of any; the
shortest one is minimal, and there is no other of its length. -/

set_option autoImplicit false

namespace CompactInt.Varint

/-- The last byte, and no other, announces no further one. -/
inductive Grouped : List UInt8 → Prop where
  | last {byte : UInt8} : ¬ Continues byte → Grouped [byte]
  | cons {byte : UInt8} {rest : List UInt8} :
      Continues byte → Grouped rest → Grouped (byte :: rest)

/-- The shortest encoding of a number, and the only one of its length. -/
structure IsMinimal (value : Nat) (bytes : List UInt8) : Prop where
  grouped : Grouped bytes
  groupSum_eq : groupSum bytes = value
  shortest : ∀ other, Grouped other → groupSum other = value → other ≠ bytes →
    bytes.length < other.length

theorem IsMinimal.unique {value : Nat} {first second : List UInt8}
    (one : IsMinimal value first) (other : IsMinimal value second) : first = second := by
  by_contra different
  have shorter := one.shortest second other.grouped other.groupSum_eq (Ne.symm different)
  have longer := other.shortest first one.grouped one.groupSum_eq different
  omega

namespace Grouped

variable {bytes : List UInt8}

theorem length_pos (grouped : Grouped bytes) : 0 < bytes.length := by
  cases grouped <;> simp

theorem append_singleton {lead : List UInt8} {last : UInt8}
    (continues : ∀ byte ∈ lead, Continues byte) (ends : ¬ Continues last) :
    Grouped (lead ++ [last]) := by
  induction lead with
  | nil => exact .last ends
  | cons byte lead ih =>
    obtain ⟨first, others⟩ := List.forall_mem_cons.1 continues
    exact .cons first (ih others)

theorem exists_append (grouped : Grouped bytes) :
    ∃ lead last, bytes = lead ++ [last] ∧ (∀ byte ∈ lead, Continues byte) ∧
      ¬ Continues last := by
  induction grouped with
  | last ends => exact ⟨[], _, rfl, nofun, ends⟩
  | cons continues _ ih =>
    obtain ⟨lead, last, rfl, others, ends⟩ := ih
    exact ⟨_ :: lead, last, rfl, List.forall_mem_cons.2 ⟨continues, others⟩, ends⟩

end Grouped

theorem isValue_iff {bytes : List UInt8} :
    IsValue bytes ↔ Grouped bytes ∧ bytes.length ≤ maxGroups + discardWindow := by
  constructor
  · rintro ⟨lead, last, rfl, few, continues, ends⟩
    refine ⟨.append_singleton continues ends, ?_⟩
    rw [List.length_append, List.length_singleton]
    exact few
  · rintro ⟨grouped, few⟩
    obtain ⟨lead, last, rfl, continues, ends⟩ := grouped.exists_append
    rw [List.length_append, List.length_singleton] at few
    exact ⟨lead, last, rfl, few, continues, ends⟩

theorem grouped_encode (value : UInt32) : Grouped (encode value) :=
  (isValue_iff.1 (isValue_encode value)).1

/-! ## The minimal encoding -/

theorem encodeNat_of_lt {value : Nat} (small : value < 128) :
    encodeNat value = [UInt8.ofNat value] := by
  rw [encodeNat, if_pos small]

theorem encodeNat_of_le {value : Nat} (large : 128 ≤ value) :
    encodeNat value = UInt8.ofNat (value % 128 + 128) :: encodeNat (value / 128) := by
  rw [encodeNat, if_neg (Nat.not_lt.2 large)]

theorem groupSum_encodeNat (value : Nat) : groupSum (encodeNat value) = value := by
  fun_induction encodeNat value with
  | case1 value small => simp; omega
  | case2 value large ih => simp [groupSum, ih]; omega

theorem grouped_encodeNat (value : Nat) : Grouped (encodeNat value) := by
  fun_induction encodeNat value with
  | case1 value small => exact .last (by rw [continues_iff]; simp; omega)
  | case2 value large ih => exact .cons (by rw [continues_iff]; simp; omega) ih

theorem length_encodeNat_le_iff {value count : Nat} (positive : 0 < count) :
    (encodeNat value).length ≤ count ↔ value < 128 ^ count := by
  constructor
  · intro short
    calc value = groupSum (encodeNat value) := (groupSum_encodeNat value).symm
      _ < 128 ^ (encodeNat value).length := groupSum_lt _
      _ ≤ 128 ^ count := Nat.pow_le_pow_right (by decide) short
  · intro small
    induction count generalizing value with
    | zero => cases positive
    | succ count ih =>
      rcases Nat.lt_or_ge value 128 with single | several
      · simp [encodeNat_of_lt single]
      · rw [Nat.pow_succ] at small
        have fewer : value / 128 < 128 ^ count := Nat.div_lt_of_lt_mul (by omega)
        have positive : 0 < count := Nat.pos_of_ne_zero (by rintro rfl; omega)
        simpa [encodeNat_of_le several] using ih positive fewer

/-- Groups that begin alike and end no later are the same. -/
theorem eq_encodeNat_of_length_le {bytes : List UInt8} (grouped : Grouped bytes)
    (short : bytes.length ≤ (encodeNat (groupSum bytes)).length) :
    bytes = encodeNat (groupSum bytes) := by
  induction grouped with
  | @last byte ends =>
    rw [continues_iff] at ends
    rw [groupSum_singleton, encodeNat_of_lt (Nat.mod_lt _ (by decide)),
      Nat.mod_eq_of_lt (Nat.not_le.1 ends), UInt8.ofNat_toNat]
  | @cons byte rest continues grouped ih =>
    have someRest := grouped.length_pos
    have several : 128 ≤ groupSum (byte :: rest) := by
      by_contra single
      rw [encodeNat_of_lt (Nat.not_le.1 single), List.length_cons, List.length_singleton] at short
      omega
    -- The byte is the lowest group of the sum, and the rest has the groups above it.
    have behind : groupSum (byte :: rest) / 128 = groupSum rest := by
      rw [groupSum]
      omega
    have front : UInt8.ofNat (groupSum (byte :: rest) % 128 + 128) = byte := by
      have small := byte.toNat_lt
      rw [continues_iff] at continues
      rw [← UInt8.toNat_inj, groupSum, UInt8.toNat_ofNat']
      omega
    rw [encodeNat_of_le several, behind] at short ⊢
    rw [front, ← ih (Nat.le_of_succ_le_succ short)]

theorem pow_le_groupSum (lead : List UInt8) {last : UInt8} (ends : ¬ Continues last)
    (nonzero : last ≠ 0) : 128 ^ lead.length ≤ groupSum (lead ++ [last]) := by
  have someLast : last.toNat ≠ 0 := fun zero => nonzero (UInt8.toNat_inj.1 zero)
  rw [continues_iff] at ends
  have group : 0 < last.toNat % 128 := by omega
  rw [groupSum_append, groupSum_singleton]
  exact Nat.le_add_left_of_le (Nat.le_mul_of_pos_right _ group)

theorem eq_encodeNat_of_last {lead : List UInt8} {last : UInt8}
    (continues : ∀ byte ∈ lead, Continues byte) (ends : ¬ Continues last)
    (needed : lead = [] ∨ last ≠ 0) :
    lead ++ [last] = encodeNat (groupSum (lead ++ [last])) := by
  apply eq_encodeNat_of_length_le (.append_singleton continues ends)
  rw [List.length_append, List.length_singleton]
  cases lead with
  | nil => exact (grouped_encodeNat _).length_pos
  | cons byte front =>
    have nonzero := needed.resolve_left (List.cons_ne_nil _ _)
    by_contra short
    have small := (length_encodeNat_le_iff (List.length_pos_of_mem List.mem_cons_self)).1
      (Nat.lt_succ_iff.1 (Nat.not_le.1 short))
    exact absurd (pow_le_groupSum _ ends nonzero) (Nat.not_le.2 small)

theorem isMinimal_encodeNat (value : Nat) : IsMinimal value (encodeNat value) where
  grouped := grouped_encodeNat value
  groupSum_eq := groupSum_encodeNat value
  shortest := by
    rintro other grouped rfl different
    by_contra short
    exact different (eq_encodeNat_of_length_le grouped (Nat.not_lt.1 short))

theorem encodeNat_toNat (value : UInt32) : encodeNat value.toNat = encode value := by
  fun_induction encode value with
  | case1 value small =>
    rw [encodeNat_of_lt (lt_128_iff.1 small)]
    rfl
  | case2 value large ih =>
    rw [lt_128_iff, Nat.not_lt] at large
    have front : UInt8.ofNat (value.toNat % 128 + 128) = continued value := by
      rw [← UInt8.toNat_inj, continued_toNat, UInt8.toNat_ofNat']
      omega
    rw [encodeNat_of_le large, front, ← ih, shiftRight_seven_toNat]

theorem isMinimal_encode (value : UInt32) : IsMinimal value.toNat (encode value) := by
  rw [← encodeNat_toNat]
  exact isMinimal_encodeNat value.toNat

end CompactInt.Varint
