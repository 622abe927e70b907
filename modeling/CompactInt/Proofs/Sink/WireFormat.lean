import CompactInt.Proofs.Records
import CompactInt.Proofs.Varint.Slots

/-! What a sink is given of numbers: the slots in use, in one piece for each number. -/

set_option autoImplicit false

namespace CompactInt

open Varint

theorem WriteBuffer.content_write (bytes : List UInt8) (buffer : WriteBuffer) : ∃ count,
    (buffer.write bytes).2.content = buffer.content ++ bytes.take count ∧
      ((buffer.write bytes).1 = .ok () ↔ bytes.length ≤ count) := by
  rcases fits_or_short bytes.length buffer with fits | ⟨room, bound, short⟩
  · rw [write_of_fits fits]
    exact ⟨bytes.length, by simp, by simp⟩
  · rw [write_of_short bound short]
    exact ⟨0, by simp, nofun, fun nothing => by omega⟩

instance : PrefixSink WriteBuffer where
  written := WriteBuffer.content
  writeByte_eq _ _ := rfl
  written_writeBytes := WriteBuffer.content_write

variable {κ : Type} [ByteSink κ] [PrefixSink κ]

theorem Record.bytesOf_varints (values : List UInt32) :
    bytesOf (values.map .varint) = values.flatMap encode := by
  rw [bytesOf, List.flatMap_map]
  rfl

theorem WriteCall.written_varints (values : List UInt32) {sink : κ}
    (success : ∀ step ∈ runAll sink (values.map .varint), step.1 = .ok ()) :
    PrefixSink.written (Calls.final sink (runAll sink (values.map .varint))) =
      PrefixSink.written sink ++ values.flatMap encode := by
  have calls : (values.map Record.varint).map Record.writeCall = values.map .varint := by
    rw [List.map_map]
    rfl
  rw [← calls] at success ⊢
  rw [← Record.bytesOf_varints]
  exact Record.written_runAll_of_success _ sink success

theorem length_flatMap_encode (values : List UInt32) :
    (values.flatMap encode).length = (values.map encodedLength).sum := by
  simp [List.length_flatMap, length_encode]

/-- Every number finds its slots, with the wire format in them; every sink is given the slots in
use, a sink that does not fail appends them, and numbers one after the other take the sum of
their encoded lengths. -/
theorem wireFormat_written :
    (∀ value : UInt32, ∃ slots used, encodeSlots? value = some (slots, used) ∧
      WireFormat value slots used ∧
      (∀ {κ : Type} [ByteSink κ] (sink : κ), ByteSink.writeVarint value sink =
        ByteSink.writeBytes (slots.toList.take used) sink) ∧
      (∀ {κ : Type} [ByteSink κ] [PrefixSink κ] (sink : κ),
        (ByteSink.writeVarint value sink).1 = .ok () →
        PrefixSink.written (ByteSink.writeVarint value sink).2 =
          PrefixSink.written sink ++ slots.toList.take used)) ∧
    (∀ {κ : Type} [ByteSink κ] [PrefixSink κ] (sink : κ) (values : List UInt32),
      (∀ step ∈ WriteCall.runAll sink (values.map .varint), step.1 = .ok ()) →
      (PrefixSink.written
          (Calls.final sink (WriteCall.runAll sink (values.map .varint)))).length =
        (PrefixSink.written sink).length + (values.map encodedLength).sum) := by
  constructor
  · intro value
    obtain ⟨slots, stored, bytes⟩ := exists_encodeSlots value
    have inUse : slots.toList.take (encode value).length = encode value := by
      rw [bytes, List.take_left]
    refine ⟨slots, _, stored, wireFormat_of_toList bytes, ?_, ?_⟩
    · intro κ _ sink
      rw [inUse]
      rfl
    · intro κ _ _ sink success
      rw [inUse]
      exact PrefixSink.written_of_success success
  · intro κ _ _ sink values success
    rw [WriteCall.written_varints values success, List.length_append, length_flatMap_encode]

theorem wireFormat_written_parts :
    let values : List UInt32 := [300, 0, 0xffffffff]
    let writer : Writer := ⟨[.accept 1, .fault (.ofKind .interrupted), .accept 3], [0x2a]⟩
    let steps := WriteCall.runAll writer (values.map .varint)
    (∀ step ∈ steps, step.1 = .ok ()) ∧ (Calls.final writer steps).written.length = 1 + 8 ∧
      ∃ slots, encodeSlots? 300 = some (slots, 2) ∧ WireFormat 300 slots 2 ∧
        (ByteSink.writeVarint 300 (WriteBuffer.growing [0x2a])).1 = .ok () ∧
        (ByteSink.writeVarint 300 (WriteBuffer.growing [0x2a])).2.content =
          [0x2a] ++ slots.toList.take 2 := by
  intro values writer steps
  obtain ⟨single, total⟩ := wireFormat_written
  have success : ∀ step ∈ steps, step.1 = .ok () := by decide +kernel
  have added : (values.map encodedLength).sum = 8 := by decide +kernel
  have grown := total writer values success
  rw [added] at grown
  obtain ⟨slots, used, stored, format, -, appended⟩ := single 300
  obtain rfl : used = 2 := format.used_eq.trans (by decide +kernel)
  have taken : (ByteSink.writeVarint 300 (WriteBuffer.growing [0x2a])).1 = .ok () := by
    decide +kernel
  exact ⟨success, grown, slots, stored, format, taken, appended (WriteBuffer.growing [0x2a]) taken⟩

end CompactInt
