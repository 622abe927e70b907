import CompactInt.Proofs.Varint.Canonical
import CompactInt.Proofs.Varint.Natural
import Mathlib.Algebra.Order.Floor.Div
import Mathlib.Data.Nat.Size

/-! The bytes of a number in an array. Every group of a word finds a slot, and the slots behind
those in use stay as they are. -/

set_option autoImplicit false

namespace CompactInt.Varint

section

variable {slots : Vector UInt8 maxGroups} {front rest : List UInt8}

theorem toList_set {used : Nat} {old : UInt8} (holds : slots.toList = front ++ old :: rest)
    (place : front.length = used) (room : used < maxGroups) (byte : UInt8) :
    (slots.set used byte).toList = front ++ byte :: rest := by
  subst place
  rw [Vector.toList_set, holds]
  simp

/-- Behind the slots in use every group finds a slot, and the other slots keep their bytes. -/
theorem exists_storeGroups {value : UInt32} {used : Nat} (holds : slots.toList = front ++ rest)
    (place : front.length = used) (fits : (encode value).length ≤ rest.length) :
    ∃ stored, storeGroups value slots used = some (stored, used + (encode value).length) ∧
      stored.toList = front ++ encode value ++ rest.drop (encode value).length := by
  have whole := congrArg List.length holds
  rw [Vector.length_toList, List.length_append] at whole
  fun_induction storeGroups value slots used generalizing front rest with
  | case1 value slots used room small =>
    rw [encode, if_pos small] at fits ⊢
    obtain ⟨old, rest, rfl⟩ := List.exists_cons_of_length_pos fits
    exact ⟨_, rfl, by simp [toList_set holds place room]⟩
  | case2 value slots used room large ih =>
    rw [encode, if_neg large, List.length_cons] at fits ⊢
    obtain ⟨old, rest, rfl⟩ :=
      List.exists_cons_of_length_pos (Nat.lt_of_lt_of_le (Nat.succ_pos _) fits)
    -- The slot of the group is in use from now on.
    have grown : (slots.set used (continued value)).toList =
        (front ++ [continued value]) ++ rest := by
      simp [toList_set holds place room]
    have stillWhole : maxGroups = (front ++ [continued value]).length + rest.length := by
      rw [whole, List.length_append, List.length_cons, List.length_singleton]
      omega
    obtain ⟨stored, course, bytes⟩ :=
      ih grown (by simp [place]) (Nat.le_of_succ_le_succ fits) stillWhole
    refine ⟨stored, ?_, ?_⟩
    · rw [course, Nat.add_right_comm, Nat.add_assoc]
    · simp [bytes]
  | case3 value slots used full =>
    have someBytes := (grouped_encode value).length_pos
    omega

end

theorem exists_encodeSlots (value : UInt32) :
    ∃ slots, encodeSlots? value = some (slots, (encode value).length) ∧
      slots.toList = encode value ++ List.replicate (maxGroups - (encode value).length) 0 := by
  have fits : (encode value).length ≤ (List.replicate maxGroups (0 : UInt8)).length := by
    rw [List.length_replicate]
    exact length_encode_le value
  have unused : (Vector.replicate maxGroups (0 : UInt8)).toList =
      [] ++ List.replicate maxGroups 0 := Vector.toList_replicate
  obtain ⟨slots, course, bytes⟩ := exists_storeGroups unused List.length_nil fits
  refine ⟨slots, ?_, ?_⟩
  · rw [encodeSlots?, course, Nat.zero_add]
  · rw [bytes, List.nil_append, List.drop_replicate]

/-! ## The format -/

theorem bitLength_eq_size (value : UInt32) : bitLength value = value.toNat.size := by
  apply Nat.le_antisymm
  · exact bitLength_le_of_lt _ (Nat.lt_size_self _)
  · rw [Nat.size_le, bitLength]
    split
    · next zero => simp [zero]
    · exact Nat.lt_log2_self

theorem encodedLength_eq_ceilDiv (value : UInt32) :
    encodedLength value = max 1 (value.toNat.size ⌈/⌉ 7) := by
  rw [encodedLength, bitLength_eq_size, Nat.ceilDiv_eq_add_pred_div]
  rfl

structure WireFormat (value : UInt32) (slots : Vector UInt8 maxGroups) (used : Nat) : Prop where
  used_eq : used = encodedLength value
  used_eq_ceilDiv : used = max 1 (value.toNat.size ⌈/⌉ 7)
  used_le : used ≤ maxGroups
  continues (i : Fin maxGroups) : i + 1 < used → Continues slots[i]
  ends (i : Fin maxGroups) : i + 1 = used → ¬ Continues slots[i]
  sum_eq : ∑ i ∈ Finset.range used, (slots.toList.getD i 0).toNat % 128 * 128 ^ i = value.toNat
  last_ne_zero (i : Fin maxGroups) : 1 < used → i + 1 = used → slots[i] ≠ 0
  unused (i : Fin maxGroups) : used ≤ i → slots[i] = 0

theorem wireFormat_of_toList {value : UInt32} {slots : Vector UInt8 maxGroups}
    (bytes : slots.toList =
      encode value ++ List.replicate (maxGroups - (encode value).length) 0) :
    WireFormat value slots (encode value).length := by
  obtain ⟨lead, last, shape, continues, ends⟩ := encode_eq_append value
  have used : (encode value).length = lead.length + 1 := by simp [shape]
  have atSlot (i : Fin maxGroups) : slots.toList[i.val]? = some slots[i] := by simp
  have lastSlot (i : Fin maxGroups) (final : i.val + 1 = (encode value).length) :
      slots[i] = last := by
    have place : i.val - lead.length = 0 := by omega
    have found := atSlot i
    rw [bytes, shape, List.append_assoc, List.getElem?_append_right (by omega), place] at found
    exact (Option.some.inj found).symm
  constructor
  case used_eq => exact length_encode value
  case used_eq_ceilDiv => rw [length_encode, encodedLength_eq_ceilDiv]
  case used_le => exact length_encode_le value
  case continues =>
    intro i inside
    have found := atSlot i
    rw [bytes, shape, List.append_assoc, List.getElem?_append_left (by omega)] at found
    exact continues _ (List.mem_of_getElem? found)
  case ends =>
    intro i final
    rw [lastSlot i final]
    exact ends
  case sum_eq =>
    have sum := groupSum_take_eq_sum slots.toList (encode value).length
    have within : min maxGroups (encode value).length = (encode value).length :=
      Nat.min_eq_right (length_encode_le value)
    have inUse : slots.toList.take (encode value).length = encode value := by
      rw [bytes, List.take_left]
    rw [Vector.length_toList, within, inUse, groupSum_encode] at sum
    simp only [sum, Nat.pow_mul, Nat.reducePow]
  case last_ne_zero =>
    intro i several final
    rw [lastSlot i final]
    have canonical := isCanonical_encode value
    rw [shape, isCanonical_append_singleton] at canonical
    refine canonical.2.1.resolve_left fun alone => ?_
    rw [used, alone, List.length_nil] at several
    omega
  case unused =>
    intro i behind
    have found := atSlot i
    rw [bytes, List.getElem?_append_right behind] at found
    exact List.eq_of_mem_replicate (List.mem_of_getElem? found)

end CompactInt.Varint
