/-! Decimal numerals: how numbers are written, and how an argument is read as one. The number is
compared with the bound of the argument only when it is a 64-bit integer. -/

set_option autoImplicit false

namespace CompactInt

inductive NumeralFault where
  | empty
  | invalidDigit
  | tooLarge
  | tooSmall
  /-- A 64-bit integer that is not between zero and the bound. -/
  | outside (value : Int) (bound : Nat)
  deriving DecidableEq, Repr

def NumeralFault.message : NumeralFault → String
  | .empty => "cannot parse integer from empty string"
  | .invalidDigit => "invalid digit found in string"
  | .tooLarge => "number too large to fit in target type"
  | .tooSmall => "number too small to fit in target type"
  | .outside value bound => s!"{value} is not in 0..={bound}"

namespace Decimal

def render (value : Nat) : List Char := Nat.toDigits 10 value

/-- Reads digits behind a number already read, which must not grow beyond `limit`. -/
def readDigits (limit : Nat) (beyond : NumeralFault) (value : Nat) :
    List Char → Except NumeralFault Nat
  | [] => .ok value
  | char :: rest =>
    if char.isDigit then
      let next := 10 * value + (char.toNat - 48)
      if next ≤ limit then readDigits limit beyond next rest else .error beyond
    else .error .invalidDigit

def readMagnitude (limit : Nat) (beyond : NumeralFault) : List Char → Except NumeralFault Nat
  | [] => .error .invalidDigit
  | digits => readDigits limit beyond 0 digits

def readInt64 : List Char → Except NumeralFault Int
  | [] => .error .empty
  | '-' :: digits =>
    (readMagnitude 0x8000000000000000 .tooSmall digits).map fun value => -(value : Int)
  | '+' :: digits => (readMagnitude 0x7fffffffffffffff .tooLarge digits).map Int.ofNat
  | digits => (readMagnitude 0x7fffffffffffffff .tooLarge digits).map Int.ofNat

def readUpTo (bound : Nat) (text : List Char) : Except NumeralFault Nat :=
  match readInt64 text with
  | .error fault => .error fault
  | .ok value =>
    if 0 ≤ value ∧ value ≤ bound then .ok value.toNat else .error (.outside value bound)

end Decimal

end CompactInt
