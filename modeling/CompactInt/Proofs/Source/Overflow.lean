import CompactInt.Proofs.Source.Division
import CompactInt.Proofs.Varint.Natural

/-! Numbers that do not fit into a word. Ten groups are seventy bits; a number with more of them is
given up after ten bytes, and of any other the low thirty-two bits are read. -/

set_option autoImplicit false

namespace CompactInt

namespace Varint

theorem isValue_encodeNat_iff {value : Nat} : IsValue (encodeNat value) ↔ value < 2 ^ 70 := by
  have seventy : (128 : Nat) ^ (maxGroups + discardWindow) = 2 ^ 70 := by decide
  rw [isValue_iff, length_encodeNat_le_iff (by decide), seventy]
  exact and_iff_right (grouped_encodeNat value)

theorem denoted_encodeNat (value : Nat) : denoted (encodeNat value) = UInt32.ofNat value := by
  rw [denoted, groupSum_encodeNat]

theorem ten_le_lead_encodeNat {value : Nat} (large : 2 ^ 70 ≤ value) (rest : List Item) :
    10 ≤ (Item.lead ((encodeNat value).map .byte ++ rest)).length := by
  have long : ¬ (encodeNat value).length ≤ 10 := by
    rw [length_encodeNat_le_iff (by decide)]
    exact Nat.not_lt.2 (Nat.le_trans (by decide) large)
  obtain ⟨lead, last, shape, continues, -⟩ := (grouped_encodeNat value).exists_append
  rw [shape, List.length_append, List.length_singleton] at long
  rw [shape, List.map_append, List.append_assoc, Item.lead_map_byte_append continues,
    List.length_append]
  omega

end Varint

open Varint

namespace ByteSource

variable {σ : Type} [ByteSource σ] [ItemSource σ]

open ItemSource

/-- What comes of a number of any size in front of the given items: a word with its low bits
and these items, or nothing and what follows ten bytes. -/
structure ReadsModulo (value : Nat) (source : σ) (rest : List Item) : Prop where
  complete : value < 2 ^ 70 → ∃ word after, readVarint source = (.ok word, after) ∧
    word.toNat = value % 2 ^ 32 ∧ items after = rest
  exhausted : 2 ^ 70 ≤ value → ∃ after, readVarint source = (.error (.malformed 10), after) ∧
    items after = (items source).drop 10

theorem readsModulo_of_items {value : Nat} {source : σ} {rest : List Item}
    (holds : items source = (encodeNat value).map .byte ++ rest) :
    ReadsModulo value source rest where
  complete small := by
    have read := readVarint_isValue (isValue_encodeNat_iff.2 small) rest
    rw [← holds, denoted_encodeNat] at read
    obtain ⟨after, read, left⟩ := exists_readVarint_of_items read
    exact ⟨_, after, read, UInt32.toNat_ofNat', left⟩
  exhausted large := by
    apply exists_readVarint_of_items
    rw [holds]
    exact Item.readVarint_of_exhausted (ten_le_lead_encodeNat large rest)

end ByteSource

/-- The minimal encoding of a natural number is read modulo 2^32 as long as it has no more than
ten groups, from a buffer and from a script however it is delivered, and leaves what follows it;
a longer one is refused after ten bytes. -/
theorem readsModulo_encodeNat (value : Nat) :
    IsMinimal value (encodeNat value) ∧
      (∀ (buffer : ReadBuffer) (tail : List UInt8), buffer.contents = encodeNat value ++ tail →
        ByteSource.ReadsModulo value buffer (tail.map .byte)) ∧
      (∀ (script : Script) (rest : List Item),
        script.items = (encodeNat value).map .byte ++ rest →
        ByteSource.ReadsModulo value (Blocking.mk script) rest) ∧
      (∀ (script : Script) (rest : List Item),
        script.items = (encodeNat value).map .byte ++ rest →
        ByteSource.ReadsModulo value (Polled.mk script) rest) := by
  refine ⟨isMinimal_encodeNat value, ?_, ?_, ?_⟩
  · intro buffer tail contents
    apply ByteSource.readsModulo_of_items
    rw [← List.map_append, ← contents]
    rfl
  · exact fun script rest holds => ByteSource.readsModulo_of_items holds
  · exact fun script rest holds => ByteSource.readsModulo_of_items holds

theorem readsModulo_encodeNat_wide :
    let nines : List UInt8 := List.replicate 9 0xff
    let script : Script := [.chunk (nines.take 3), .notReady, .chunk (nines.drop 3 ++ [0x01, 0x2a])]
    let buffer : ReadBuffer := .plain (List.replicate 10 0x80 ++ [0x01])
    script.items = (encodeNat (2 ^ 64 - 1)).map .byte ++ [.byte 0x2a] ∧
      (∃ after, ByteSource.readVarint (Polled.mk script) = (.ok 0xffffffff, after) ∧
        after.script.items = [.byte 0x2a]) ∧
      buffer.contents = encodeNat (2 ^ 70) ++ [] ∧
      ∃ after, ByteSource.readVarint buffer = (.error (.malformed 10), after) ∧
        after.contents = [0x01] := by
  intro nines script buffer
  have delivered : script.items = (encodeNat (2 ^ 64 - 1)).map .byte ++ [.byte 0x2a] := by
    decide +kernel
  have contents : buffer.contents = encodeNat (2 ^ 70) ++ [] := by decide +kernel
  obtain ⟨-, -, -, polled⟩ := readsModulo_encodeNat (2 ^ 64 - 1)
  obtain ⟨word, after, read, low, left⟩ := (polled script _ delivered).complete (by decide)
  obtain rfl : word = 0xffffffff := UInt32.toNat_inj.1 low
  obtain ⟨-, buffered, -, -⟩ := readsModulo_encodeNat (2 ^ 70)
  obtain ⟨refused, failed, behind⟩ := (buffered buffer [] contents).exhausted (Nat.le_refl _)
  refine ⟨delivered, ⟨after, read, left⟩, contents, refused, failed, ?_⟩
  exact Item.eq_of_map_byte behind

end CompactInt
