import CompactInt.Proofs.Source.Division
import CompactInt.Proofs.Varint.Canonical
import CompactInt.Proofs.Varint.Natural

/-! The shortest byte strings that are read as a number. What the encoder writes is told from the
others by length and last byte. -/

set_option autoImplicit false

namespace CompactInt

open Varint ItemSource

variable {σ : Type} [ByteSource σ] [ItemSource σ] {source after : σ} {value : UInt32}
  {bytes : List UInt8}

theorem isValue_of_readVarint (holds : items source = bytes.map .byte)
    (read : ByteSource.readVarint source = (.ok value, after)) (whole : items after = []) :
    IsValue bytes ∧ value = denoted bytes := by
  obtain ⟨number, isValue, same, taken⟩ :=
    Item.exists_isValue_of_readVarint (ByteSource.readVarint_of_items read)
  rw [holds, whole, List.append_nil] at taken
  obtain rfl := Item.eq_of_map_byte taken
  exact ⟨isValue, same⟩

/-- A byte string that is read as a number, and nothing left of it, has at least the encoded
length of the number. It is what the encoder writes for the number, or for any number, exactly
if it is canonical; and with all bits of the number and no others what the encoder writes is
shorter than every other encoding. -/
theorem shortest_of_readVarint (holds : items source = bytes.map .byte)
    (read : ByteSource.readVarint source = (.ok value, after)) (whole : items after = []) :
    encodedLength value ≤ bytes.length ∧ (bytes = encode value ↔ IsCanonical bytes) ∧
      ((∃ other, bytes = encode other) ↔ IsCanonical bytes) ∧
      IsMinimal value.toNat (encode value) := by
  obtain ⟨isValue, rfl⟩ := isValue_of_readVarint holds read whole
  have written : bytes = encode (denoted bytes) ↔ IsCanonical bytes :=
    eq_comm.trans (encode_denoted_iff isValue)
  refine ⟨?_, written, ?_, isMinimal_encode _⟩
  · rw [← length_encode]
    exact length_encode_denoted_le isValue
  · constructor
    · rintro ⟨other, rfl⟩
      exact isCanonical_encode other
    · exact fun canonical => ⟨_, written.2 canonical⟩

/-- Five bytes with a bit too many are read as the largest word, although they are not what the
encoder writes for it; three bytes for the number one hundred and twenty-eight are one too many. -/
theorem shortest_of_readVarint_padded :
    let spilled : List UInt8 := [0xff, 0xff, 0xff, 0xff, 0x1f]
    let padded : List UInt8 := [0x80, 0x81, 0x00]
    ByteSource.readVarint (ReadBuffer.plain spilled) = (.ok 0xffffffff, .plain []) ∧
      encodedLength 0xffffffff ≤ spilled.length ∧ spilled ≠ encode 0xffffffff ∧
      ByteSource.readVarint (ReadBuffer.plain padded) = (.ok 128, .plain []) ∧
      (∀ other, padded ≠ encode other) ∧ (encode 128).length < padded.length := by
  intro spilled padded
  have spilledRead : ByteSource.readVarint (ReadBuffer.plain spilled) =
      (.ok 0xffffffff, .plain []) := by decide +kernel
  have paddedRead : ByteSource.readVarint (ReadBuffer.plain padded) = (.ok 128, .plain []) := by
    decide +kernel
  obtain ⟨bound, spilledIff, -, -⟩ := shortest_of_readVarint rfl spilledRead rfl
  obtain ⟨-, paddedIff, anyIff, minimal⟩ := shortest_of_readVarint rfl paddedRead rfl
  have grouped : Grouped padded := .cons (by decide) (.cons (by decide) (.last (by decide)))
  have excess : ¬ IsCanonical spilled := by decide
  have superfluous : ¬ IsCanonical padded := by decide
  refine ⟨spilledRead, bound, ?_, paddedRead, ?_, ?_⟩
  · exact fun same => excess (spilledIff.1 same)
  · exact fun other same => superfluous (anyIff.1 ⟨other, same⟩)
  · exact minimal.shortest padded grouped (by decide) fun same => superfluous (paddedIff.1 same)

end CompactInt
