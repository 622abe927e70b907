import CompactInt.Coding

/-! Rebuilding a 32-bit number from its bytes, one at a time. Longer encodings are tolerated: five
bytes beyond the fifth are passed over. -/

set_option autoImplicit false

namespace CompactInt.Varint

structure Decoder where
  result : UInt32 := 0
  read : Nat := 0
  deriving DecidableEq, Repr

namespace Decoder

/-- How far the payload of the next byte is moved; bytes beyond the fifth have no place. -/
def shift? (decoder : Decoder) : Option Nat :=
  if decoder.read < maxGroups then some (7 * decoder.read) else none

def absorb (decoder : Decoder) (byte : UInt8) : Decoder where
  result := match decoder.shift? with
    | some shift => decoder.result ||| ((byte &&& payloadMask).toUInt32 <<< UInt32.ofNat shift)
    | none => decoder.result
  read := decoder.read + 1

/-- Takes one byte. There is a number when the byte ends one, and none as long as more
bytes are needed. A decoder that has answered goes on as it stands. -/
def push (decoder : Decoder) (byte : UInt8) : Except Failure (Option UInt32) × Decoder :=
  let after := decoder.absorb byte
  if byte &&& continuationBit = 0 then (.ok (some after.result), after)
  else if maxGroups + discardWindow ≤ after.read then (.error (.malformed after.read), after)
  else (.ok none, after)

def endFailure (decoder : Decoder) : Failure :=
  if maxGroups ≤ decoder.read then .malformed decoder.read else .unexpectedEnd decoder.read

@[simp] theorem read_absorb (decoder : Decoder) (byte : UInt8) :
    (decoder.absorb byte).read = decoder.read + 1 := rfl

@[simp] theorem push_snd (decoder : Decoder) (byte : UInt8) :
    (decoder.push byte).2 = decoder.absorb byte := by
  simp only [push]
  split
  · rfl
  · split <;> rfl

theorem read_lt_of_push_none {decoder : Decoder} {byte : UInt8}
    (more : (decoder.push byte).1 = .ok none) :
    decoder.read + 1 < maxGroups + discardWindow := by
  simp only [push] at more
  split at more
  · simp at more
  · split at more
    · simp at more
    · simp only [read_absorb] at *
      omega

end Decoder

end CompactInt.Varint
