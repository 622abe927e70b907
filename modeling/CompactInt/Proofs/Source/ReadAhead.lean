import CompactInt.Proofs.Source.Delivery
import CompactInt.Source.ReadAhead

/-! Reading ahead is not visible to the reader: the bytes that are held stand in front of the items
still to be delivered. -/

set_option autoImplicit false

namespace CompactInt

namespace ReadAhead

variable {ρ : Type} [Reader ρ] [ItemReader ρ]

def items (reader : ReadAhead ρ) : List Item :=
  reader.held.map .byte ++ ItemReader.items reader.inner

theorem takes_request {limit : Nat} (positive : 0 < limit) (reader : ReadAhead ρ) :
    (request limit reader).1.Takes reader.items (request limit reader).2.items := by
  unfold request
  split
  · next someHeld =>
    have whole : Delivery.Takes (.data reader.held) reader.items (ItemReader.items reader.inner) :=
      .bytes someHeld
    exact whole.cut positive
  · next noneHeld =>
    have front : reader.items = ItemReader.items reader.inner := by
      rw [items, Decidable.not_not.1 noneHeld]
      rfl
    split
    · rw [front, items, Decidable.not_not.1 noneHeld]
      exact ItemReader.takes_request positive reader.inner
    · next ahead =>
      have someCapacity : 0 < reader.capacity := Nat.lt_trans positive (Nat.not_le.1 ahead)
      rw [front]
      split
      · next bytes inner given => exact (Reader.takes_of_request someCapacity given).cut positive
      · next delivery inner _ given =>
        rw [items, Decidable.not_not.1 noneHeld]
        exact Reader.takes_of_request someCapacity given

theorem size_request_le (limit : Nat) (reader : ReadAhead ρ) :
    (request limit reader).1.size ≤ limit := by
  unfold request
  split
  · exact List.length_take_le limit _
  · split
    · exact ItemReader.size_request_le limit reader.inner
    · split
      · exact List.length_take_le limit _
      · next delivery inner noData given =>
        cases delivery with
        | data bytes => exact absurd rfl (noData bytes)
        | fault | notReady => exact Nat.zero_le limit

theorem left_eq (reader : ReadAhead ρ) : left reader = Item.byteCount reader.items := by
  rw [left, items, Item.byteCount_append, Item.byteCount_map_byte, ItemReader.left_eq]

end ReadAhead

instance {ρ : Type} [Reader ρ] [ItemReader ρ] : ItemReader (ReadAhead ρ) where
  items := ReadAhead.items
  takes_request := ReadAhead.takes_request
  size_request_le := ReadAhead.size_request_le
  left_eq := ReadAhead.left_eq

end CompactInt
