import CompactInt.Failure

/-! Numbers as bytes. A number is written as groups of seven bits, the lowest first, and every
byte but the last carries the continuation bit; a number below 2^15 may also be written as
two bytes, the high one first. -/

set_option autoImplicit false

namespace CompactInt

namespace Varint

def continuationBit : UInt8 := 0x80

def payloadMask : UInt8 := 0x7f

def maxGroups : Nat := 5

/-- How many bytes beyond the fifth a reader passes over before it gives up. -/
def discardWindow : Nat := 5

def continued (value : UInt32) : UInt8 := (value.toUInt8 &&& payloadMask) ||| continuationBit

theorem shiftRight_seven_lt {value : UInt32} (large : ¬ value < 128) :
    (value >>> 7).toNat < value.toNat := by
  have bound : 128 ≤ value.toNat := by simpa [UInt32.lt_iff_toNat_lt] using large
  simp only [UInt32.toNat_shiftRight, UInt32.reduceToNat, Nat.reduceMod, Nat.shiftRight_eq_div_pow]
  omega

def encode (value : UInt32) : List UInt8 :=
  if value < 128 then [value.toUInt8] else continued value :: encode (value >>> 7)
termination_by value.toNat
decreasing_by exact shiftRight_seven_lt ‹_›

def bitLength (value : UInt32) : Nat :=
  if value = 0 then 0 else value.toNat.log2 + 1

/-- The length of an encoded number, from its bit length alone. -/
def encodedLength (value : UInt32) : Nat := max 1 ((bitLength value + 6) / 7)

/-- Stores the groups of a number from the given slot on, and counts the slots then in use.
There is no result when a group finds no slot. -/
def storeGroups (value : UInt32) (slots : Vector UInt8 maxGroups) (used : Nat) :
    Option (Vector UInt8 maxGroups × Nat) :=
  -- Every store is behind this test, so none is out of bounds.
  if room : used < maxGroups then
    if value < 128 then some (slots.set used value.toUInt8, used + 1)
    else storeGroups (value >>> 7) (slots.set used (continued value)) (used + 1)
  else none
termination_by maxGroups - used

def encodeSlots? (value : UInt32) : Option (Vector UInt8 maxGroups × Nat) :=
  storeGroups value (Vector.replicate maxGroups 0) 0

def encodeSigned (value : Int32) : Except Failure (List UInt8) :=
  if value < 0 then .error (.invalidArgument (.negative value.toInt))
  else .ok (encode value.toUInt32)

end Varint

namespace PackedShort

def maxValue : UInt16 := 32767

def signBit : UInt16 := 0x8000

def pack (value : UInt16) : Except Failure (List UInt8) :=
  if maxValue < value then .error (.invalidArgument (.shortRange value.toNat))
  else .ok [(value >>> 8).toUInt8, value.toUInt8]

def unpack (high low : UInt8) : Except Failure UInt16 :=
  let value := (high.toUInt16 <<< 8) ||| low.toUInt16
  if value &&& signBit = 0 then .ok value
  else .error (.invalidArgument (.signBit high low))

end PackedShort

end CompactInt
