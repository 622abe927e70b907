import CompactInt.Coding

/-! Encoded numbers described without a coder, by their base-128 sum. -/

set_option autoImplicit false

namespace CompactInt.Varint

/-- The number whose base-128 digits, the lowest first, are the low seven bits of the bytes. -/
def groupSum : List UInt8 → Nat
  | [] => 0
  | byte :: rest => byte.toNat % 128 + 128 * groupSum rest

/-- The 32-bit number that a byte string stands for: its sum, without the bits beyond the
thirty-second. -/
def denoted (bytes : List UInt8) : UInt32 := UInt32.ofNat (groupSum bytes)

def encodeNat (value : Nat) : List UInt8 :=
  if value < 128 then [UInt8.ofNat value]
  else UInt8.ofNat (value % 128 + 128) :: encodeNat (value / 128)

def Continues (byte : UInt8) : Prop := 128 ≤ byte

instance (byte : UInt8) : Decidable (Continues byte) :=
  inferInstanceAs (Decidable (128 ≤ byte))

/-- One accepted number: at most nine bytes that announce another, and one that does not. -/
def IsValue (bytes : List UInt8) : Prop :=
  ∃ lead last, bytes = lead ++ [last] ∧ lead.length < maxGroups + discardWindow ∧
    (∀ byte ∈ lead, Continues byte) ∧ ¬ Continues last

/-- The form the encoder gives to a number: no more than five bytes, no superfluous last
group, and no bits beyond the thirty-second. -/
def IsCanonical (bytes : List UInt8) : Prop :=
  bytes.length ≤ maxGroups ∧
    (bytes.length = 1 ∨ bytes.getLast? ≠ some 0) ∧
    (bytes.length = maxGroups → ∀ last ∈ bytes.getLast?, last ≤ 0x0f)

instance (bytes : List UInt8) : Decidable (IsCanonical bytes) :=
  inferInstanceAs (Decidable (_ ∧ _ ∧ _))

end CompactInt.Varint
