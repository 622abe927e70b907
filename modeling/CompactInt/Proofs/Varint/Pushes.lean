import CompactInt.Calls
import CompactInt.Proofs.Varint.Accumulation

/-! Decoders that are pushed on and on. Bytes behind a number or a failure are counted and answered
as if nothing had been answered before. -/

set_option autoImplicit false

namespace CompactInt.Varint.Decoder

/-- The answers to bytes pushed one after the other, also behind a number and behind a failure.
Every answer comes with the decoder as it is then. -/
def pushAll (decoder : Decoder) (bytes : List UInt8) :
    List (Except Failure (Option UInt32) × Decoder) :=
  Calls.run push decoder bytes

structure Holds (decoder : Decoder) (bytes : List UInt8) : Prop where
  read_eq : decoder.read = bytes.length
  result_eq : decoder.result.toNat =
    (∑ i ∈ Finset.range (min bytes.length 5), (bytes.getD i 0).toNat % 128 * 2 ^ (7 * i)) % 2 ^ 32
  free (shift : Nat) : decoder.shift? = some shift →
    shift ≤ 28 ∧ decoder.result.toNat < 2 ^ shift
  endFailure_eq : decoder.endFailure =
    if 5 ≤ bytes.length then .malformed bytes.length else .unexpectedEnd bytes.length

/-- What has to come of a byte pushed behind `count` others, whatever they were. -/
structure Answers (count : Nat) (byte : UInt8) (before : Decoder)
    (answer : Except Failure (Option UInt32)) (after : Decoder) : Prop where
  complete : byte < 128 → answer = .ok (some after.result)
  exhausted : 128 ≤ byte → 10 ≤ count + 1 → answer = .error (.malformed (count + 1))
  unfinished : 128 ≤ byte → count + 1 < 10 → answer = .ok none
  unchanged : 5 ≤ count → after.result = before.result

theorem pushAll_append_cons (decoder : Decoder) (earlier : List UInt8) (byte : UInt8)
    (later : List UInt8) :
    pushAll decoder (earlier ++ byte :: later) = pushAll decoder earlier ++
      (Calls.final decoder (pushAll decoder earlier)).push byte ::
        pushAll ((Calls.final decoder (pushAll decoder earlier)).push byte).2 later :=
  Calls.run_append_cons decoder earlier byte later

theorem final_pushAll (decoder : Decoder) (bytes : List UInt8) :
    Calls.final decoder (pushAll decoder bytes) = bytes.foldl Decoder.absorb decoder := by
  induction bytes generalizing decoder with
  | nil => rfl
  | cons byte rest ih =>
    have later := ih (decoder.push byte).2
    rw [push_snd] at later
    rw [pushAll, Calls.run_cons, Calls.final_cons, push_snd, List.foldl_cons]
    exact later

theorem collected_pushAll (bytes : List UInt8) :
    (Calls.final {} (pushAll {} bytes)).Collected bytes := by
  rw [final_pushAll]
  exact collected_nil.foldl bytes

namespace Collected

variable {decoder : Decoder} {bytes : List UInt8} (collected : decoder.Collected bytes)

include collected

theorem holds : decoder.Holds bytes where
  read_eq := collected.read_eq
  result_eq := by rw [collected.result_eq, groupSum_take_eq_sum, maxGroups]
  free _ place := collected.free_of_shift place
  endFailure_eq := by rw [endFailure, collected.read_eq, maxGroups]

theorem push (byte : UInt8) : (decoder.push byte).2.Collected (bytes ++ [byte]) := by
  rw [push_snd]
  exact collected.absorb byte

theorem answers (byte : UInt8) :
    Answers bytes.length byte decoder (decoder.push byte).1 (decoder.push byte).2 where
  complete small := by
    rw [push_last decoder (UInt8.not_le.2 small), push_snd]
  exhausted continues full := by
    rw [push_exhausted decoder continues (by rw [collected.read_eq]; exact full),
      collected.read_eq]
  unfinished continues room := by
    rw [push_continues decoder continues (by rw [collected.read_eq]; exact room)]
  unchanged full := by
    rw [push_snd, result_absorb_of_le (by rw [collected.read_eq]; exact full)]

end Collected

/-- Whatever bytes are pushed onto a new decoder, it holds their number and the sum of the first
five groups, and every single push is answered from its byte and from how many there were before;
neither a number nor a failure among the answers makes a difference to the later ones. -/
theorem pushAll_holds :
    (∀ bytes : List UInt8, Holds (Calls.final {} (pushAll {} bytes)) bytes) ∧
      ∀ (earlier : List UInt8) (byte : UInt8) (later : List UInt8),
        let before : Decoder := Calls.final {} (pushAll {} earlier)
        let (answer, after) := before.push byte
        pushAll {} (earlier ++ byte :: later) =
          pushAll {} earlier ++ (answer, after) :: pushAll after later ∧
        Answers earlier.length byte before answer after ∧ Holds after (earlier ++ [byte]) := by
  refine ⟨fun bytes => (collected_pushAll bytes).holds, fun earlier byte later => ?_⟩
  have collected := collected_pushAll earlier
  exact ⟨pushAll_append_cons {} earlier byte later, collected.answers byte,
    (collected.push byte).holds⟩

example : (pushAll {} [0x05, 0x85, 0x01]).map Prod.fst =
    [.ok (some 5), .ok none, .ok (some 17029)] := by decide

end CompactInt.Varint.Decoder
