import CompactInt.Varint.Groups
import Mathlib.Algebra.BigOperators.Ring.Finset
import Mathlib.Data.Nat.Digits.Lemmas
import Mathlib.Tactic.Ring

/-! The base-128 sum of a byte string, as digits of a number and as a sum of powers. -/

set_option autoImplicit false

namespace CompactInt.Varint

@[simp] theorem groupSum_singleton (byte : UInt8) : groupSum [byte] = byte.toNat % 128 := by
  rw [groupSum, groupSum, Nat.mul_zero, Nat.add_zero]

theorem groupSum_eq_ofDigits (bytes : List UInt8) :
    groupSum bytes = Nat.ofDigits 128 (bytes.map fun byte => byte.toNat % 128) := by
  induction bytes with
  | nil => rfl
  | cons byte rest ih => rw [groupSum, ih, List.map_cons, Nat.ofDigits_cons]

theorem groupSum_append (first second : List UInt8) :
    groupSum (first ++ second) = groupSum first + 128 ^ first.length * groupSum second := by
  simp only [groupSum_eq_ofDigits, List.map_append, Nat.ofDigits_append, List.length_map]

theorem groupSum_lt (bytes : List UInt8) : groupSum bytes < 128 ^ bytes.length := by
  rw [groupSum_eq_ofDigits, ← List.length_map (fun byte : UInt8 => byte.toNat % 128)]
  apply Nat.ofDigits_lt_base_pow_length (by decide)
  intro digit member
  obtain ⟨byte, _, rfl⟩ := List.mem_map.1 member
  exact Nat.mod_lt _ (by decide)

theorem groupSum_lt_two_pow (bytes : List UInt8) : groupSum bytes < 2 ^ (7 * bytes.length) := by
  rw [Nat.pow_mul]
  exact groupSum_lt bytes

theorem denoted_take (bytes : List UInt8) :
    UInt32.ofNat (groupSum (bytes.take 5)) = denoted bytes := by
  rcases Nat.lt_or_ge 5 bytes.length with long | short
  · have five : (bytes.take 5).length = 5 := by
      rw [List.length_take, Nat.min_eq_left (Nat.le_of_lt long)]
    have carried : groupSum bytes =
        groupSum (bytes.take 5) + 2 ^ 32 * (8 * groupSum (bytes.drop 5)) := by
      conv_lhs => rw [← List.take_append_drop 5 bytes]
      rw [groupSum_append, five]
      ring
    rw [denoted, carried, ← UInt32.toNat_inj, UInt32.toNat_ofNat', UInt32.toNat_ofNat',
      Nat.add_mul_mod_self_left]
  · rw [List.take_of_length_le short, denoted]

theorem groupSum_take_eq_sum (bytes : List UInt8) (count : Nat) :
    groupSum (bytes.take count) =
      ∑ i ∈ Finset.range (min bytes.length count),
        (bytes.getD i 0).toNat % 128 * 2 ^ (7 * i) := by
  induction bytes generalizing count with
  | nil => simp [groupSum]
  | cons byte rest ih =>
    cases count with
    | zero => simp [groupSum]
    | succ count =>
      rw [List.take_succ_cons, groupSum, ih, List.length_cons, Nat.succ_min_succ,
        Finset.sum_range_succ', Finset.mul_sum, Nat.add_comm]
      congr 1
      · apply Finset.sum_congr rfl
        intro i _
        simp only [List.getD_cons_succ, Nat.mul_add, Nat.pow_add]
        ring
      · simp

end CompactInt.Varint
