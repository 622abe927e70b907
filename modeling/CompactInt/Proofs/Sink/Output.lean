import CompactInt.Proofs.PackedShort
import CompactInt.Proofs.Varint.Natural
import CompactInt.Sink.Call

/-! A write as the delivery of its output. The argument alone decides what a call is to write, or
that it writes nothing. -/

set_option autoImplicit false

namespace CompactInt.WriteCall

open Varint (IsMinimal encode isMinimal_encode)

def Invalid : WriteCall → Prop
  | signed value => value < 0
  | short value => 32767 < value
  | _ => False

/-- The bytes that stand for the argument of a call. -/
inductive Emits : WriteCall → List UInt8 → Prop where
  | varint {value : UInt32} {text : List UInt8} :
      IsMinimal value.toNat text → Emits (.varint value) text
  | signed {value : Int32} {number : Nat} {text : List UInt8} :
      value.toInt = number → IsMinimal number text → Emits (.signed value) text
  | short {value : UInt16} {high low : UInt8} : value.toNat ≤ 32767 →
      value.toNat = 256 * high.toNat + low.toNat → Emits (.short value) [high, low]
  | byte (value : UInt8) : Emits (.byte value) [value]
  | bytes (values : List UInt8) : Emits (.bytes values) values

theorem output_of_invalid {call : WriteCall} (invalid : call.Invalid) :
    ∃ fault, call.output = .error (.invalidArgument fault) := by
  cases call with
  | signed value => exact ⟨.negative value.toInt, if_pos invalid⟩
  | short value => exact ⟨.shortRange value.toNat, if_pos invalid⟩
  | varint | byte | bytes => exact invalid.elim

theorem output_of_valid {call : WriteCall} (valid : ¬ call.Invalid) :
    ∃ text, call.output = .ok text := by
  cases call with
  | signed value => exact ⟨_, if_neg valid⟩
  | short value => exact ⟨_, if_neg valid⟩
  | varint value => exact ⟨_, rfl⟩
  | byte value => exact ⟨_, rfl⟩
  | bytes values => exact ⟨_, rfl⟩

theorem encodeSigned_eq_ok_iff {value : Int32} {text : List UInt8} :
    Varint.encodeSigned value = .ok text ↔
      ∃ number : Nat, value.toInt = number ∧ IsMinimal number text := by
  rw [Varint.encodeSigned]
  by_cases negative : value < 0
  · have below : value.toInt < 0 := Int32.lt_iff_toInt_lt.1 negative
    rw [if_pos negative]
    exact ⟨nofun, fun ⟨number, same, _⟩ => by omega⟩
  · have nonneg : 0 ≤ value := Int32.not_lt.1 negative
    -- The bits of a number that is not negative mean the same without a sign.
    have same : value.toInt = value.toUInt32.toNat := by
      rw [Int32.toNat_toUInt32_of_le nonneg]
      exact (Int.toNat_of_nonneg (Int32.le_iff_toInt_le.1 nonneg)).symm
    rw [if_neg negative, Except.ok.injEq]
    constructor
    · rintro rfl
      exact ⟨_, same, isMinimal_encode value.toUInt32⟩
    · rintro ⟨number, again, minimal⟩
      obtain rfl : number = value.toUInt32.toNat := Int.ofNat_inj.1 (again.symm.trans same)
      exact (isMinimal_encode value.toUInt32).unique minimal

theorem output_eq_ok_iff {call : WriteCall} {text : List UInt8} :
    call.output = .ok text ↔ call.Emits text := by
  cases call with
  | varint value =>
    rw [output, Except.ok.injEq]
    constructor
    · rintro rfl
      exact .varint (isMinimal_encode value)
    · rintro ⟨minimal⟩
      exact (isMinimal_encode value).unique minimal
  | signed value =>
    rw [output, encodeSigned_eq_ok_iff]
    exact ⟨fun ⟨_, same, minimal⟩ => .signed same minimal,
      fun (.signed same minimal) => ⟨_, same, minimal⟩⟩
  | short value =>
    rw [output, PackedShort.pack_eq_ok_iff]
    constructor
    · rintro ⟨small, high, low, rfl, whole⟩
      exact .short small whole
    · rintro ⟨⟩
      exact ⟨‹_›, _, _, rfl, ‹_›⟩
  | byte value =>
    rw [output, Except.ok.injEq]
    constructor
    · rintro rfl
      exact .byte value
    · rintro ⟨⟩
      rfl
  | bytes values =>
    rw [output, Except.ok.injEq]
    constructor
    · rintro rfl
      exact .bytes values
    · rintro ⟨⟩
      rfl

variable {κ : Type} [ByteSink κ]

theorem run_eq (single : ∀ byte (sink : κ), ByteSink.writeByte byte sink =
    ByteSink.writeBytes [byte] sink) (sink : κ) (call : WriteCall) :
    run sink call =
      match call.output with
      | .ok text => ByteSink.writeBytes text sink
      | .error failure => (.error failure, sink) := by
  cases call with
  | byte value => exact single value sink
  | varint | signed | short | bytes => rfl

end CompactInt.WriteCall
