import CompactInt.Proofs.Varint.GroupSum
import CompactInt.Proofs.Varint.Words

/-! What a decoder holds after a number of bytes, also beyond the byte that ended a number: their
count, and the base-128 sum of the first five modulo 2^32. -/

set_option autoImplicit false

namespace CompactInt.Varint.Decoder

/-- The decoder has taken exactly these bytes since it was new. -/
structure Collected (decoder : Decoder) (bytes : List UInt8) : Prop where
  read_eq : decoder.read = bytes.length
  result_eq : decoder.result.toNat = groupSum (bytes.take maxGroups) % 2 ^ 32

theorem collected_nil : Collected {} [] := ⟨rfl, rfl⟩

/-- As long as there is a place for another group, no bit has been cut off. -/
theorem Collected.result_of_lt {decoder : Decoder} {bytes : List UInt8}
    (collected : decoder.Collected bytes) (free : bytes.length < maxGroups) :
    decoder.result.toNat = groupSum bytes := by
  have within : 7 * bytes.length ≤ 32 := by unfold maxGroups at free; omega
  have bounded : groupSum bytes < 2 ^ 32 :=
    Nat.lt_of_lt_of_le (groupSum_lt_two_pow bytes) (Nat.pow_le_pow_right (by decide) within)
  rw [collected.result_eq, List.take_of_length_le (Nat.le_of_lt free), Nat.mod_eq_of_lt bounded]

/-- The next group has a place at most at bit twenty-eight, and the bits from there on are free. -/
theorem Collected.free_of_shift {decoder : Decoder} {bytes : List UInt8}
    (collected : decoder.Collected bytes) {shift : Nat} (place : decoder.shift? = some shift) :
    shift ≤ 28 ∧ decoder.result.toNat < 2 ^ shift := by
  unfold shift? at place
  split at place
  · next free =>
    cases place
    rw [collected.read_eq] at free ⊢
    rw [collected.result_of_lt free]
    exact ⟨by unfold maxGroups at free; omega, groupSum_lt_two_pow bytes⟩
  · cases place

theorem Collected.result_absorb_of_lt {decoder : Decoder} {bytes : List UInt8}
    (collected : decoder.Collected bytes) (free : bytes.length < maxGroups) (byte : UInt8) :
    (decoder.absorb byte).result.toNat = groupSum (bytes ++ [byte]) % 2 ^ 32 := by
  have place : decoder.shift? = some (7 * decoder.read) := by
    rw [shift?, if_pos (collected.read_eq ▸ free)]
  obtain ⟨small, bounded⟩ := collected.free_of_shift place
  have weight : 128 ^ bytes.length = 2 ^ (7 * decoder.read) := by
    rw [collected.read_eq, Nat.pow_mul]
  rw [absorb, place]
  refine (or_shiftLeft_toNat (Nat.lt_of_le_of_lt small (by decide)) bounded _).trans ?_
  rw [collected.result_of_lt free, UInt8.toNat_toUInt32, payload_toNat, groupSum_append, weight,
    groupSum_singleton, Nat.mul_comm (byte.toNat % 128)]

theorem result_absorb_of_le {decoder : Decoder} (full : maxGroups ≤ decoder.read) (byte : UInt8) :
    (decoder.absorb byte).result = decoder.result := by
  have closed : decoder.shift? = none := by rw [shift?, if_neg (Nat.not_lt.2 full)]
  simp only [absorb, closed]

theorem Collected.absorb {decoder : Decoder} {bytes : List UInt8}
    (collected : decoder.Collected bytes) (byte : UInt8) :
    (decoder.absorb byte).Collected (bytes ++ [byte]) where
  read_eq := by rw [read_absorb, collected.read_eq, List.length_append, List.length_singleton]
  result_eq := by
    by_cases free : bytes.length < maxGroups
    · rw [collected.result_absorb_of_lt free, List.take_of_length_le]
      rw [List.length_append, List.length_singleton]
      exact free
    · -- The sum takes no more bytes either.
      have full : maxGroups ≤ bytes.length := Nat.le_of_not_lt free
      rw [result_absorb_of_le (collected.read_eq ▸ full), collected.result_eq,
        List.take_append_of_le_length full]

theorem Collected.foldl {decoder : Decoder} {bytes : List UInt8}
    (collected : decoder.Collected bytes) (more : List UInt8) :
    (more.foldl Decoder.absorb decoder).Collected (bytes ++ more) := by
  induction more generalizing decoder bytes with
  | nil => rwa [List.append_nil]
  | cons byte rest ih =>
    rw [← List.singleton_append, ← List.append_assoc]
    exact ih (collected.absorb byte)

theorem Collected.endFailure_eq {decoder : Decoder} {bytes : List UInt8}
    (collected : decoder.Collected bytes) :
    decoder.endFailure =
      if bytes.length ≤ 4 then .unexpectedEnd bytes.length else .malformed bytes.length := by
  rw [endFailure, collected.read_eq, maxGroups]
  by_cases short : bytes.length ≤ 4
  · rw [if_pos short, if_neg (by omega)]
  · rw [if_neg short, if_pos (by omega)]

theorem push_last (decoder : Decoder) {byte : UInt8} (last : ¬ Continues byte) :
    (decoder.push byte).1 = .ok (some (decoder.absorb byte).result) := by
  rw [push, if_pos (and_continuationBit_eq_zero_iff.2 last)]

theorem push_continues (decoder : Decoder) {byte : UInt8} (continues : Continues byte)
    (room : decoder.read + 1 < maxGroups + discardWindow) : (decoder.push byte).1 = .ok none := by
  rw [push, if_neg (and_continuationBit_ne_zero continues), read_absorb,
    if_neg (Nat.not_le.2 room)]

theorem push_exhausted (decoder : Decoder) {byte : UInt8} (continues : Continues byte)
    (full : maxGroups + discardWindow ≤ decoder.read + 1) :
    (decoder.push byte).1 = .error (.malformed (decoder.read + 1)) := by
  rw [push, if_neg (and_continuationBit_ne_zero continues), read_absorb, if_pos full]

end CompactInt.Varint.Decoder
