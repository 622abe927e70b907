/-! Hexadecimal text of byte strings, and blanks around it. Reading works on the UTF-8 bytes of
a text and takes digits of either letter case. -/

set_option autoImplicit false

namespace CompactInt

/-! ## Bytes as quoted characters -/

namespace Quoted

/-- Latin-1 characters that leave no mark of their own: controls, the no-break
space and the soft hyphen. -/
def isInvisible (byte : UInt8) : Bool :=
  byte < 0x20 || (0x7f ≤ byte && byte ≤ 0xa0) || byte == 0xad

def escape (byte : UInt8) : List Char :=
  if byte = 0 then ['\\', '0']
  else if byte = 9 then ['\\', 't']
  else if byte = 10 then ['\\', 'n']
  else if byte = 13 then ['\\', 'r']
  else if byte = 39 then ['\\', '\'']
  else if byte = 92 then ['\\', '\\']
  else if isInvisible byte then
    ['\\', 'u', '\x7b'] ++ Nat.toDigits 16 byte.toNat ++ ['\x7d']
  else [Char.ofNat byte.toNat]

def quote (byte : UInt8) : List Char := '\'' :: escape byte ++ ['\'']

end Quoted

/-! ## Blanks -/

namespace Blank

/-- The ranges of the Unicode property White_Space, first and last code point of each. -/
def ranges : List (Nat × Nat) :=
  [(0x09, 0x0d), (0x20, 0x20), (0x85, 0x85), (0xa0, 0xa0), (0x1680, 0x1680), (0x2000, 0x200a),
   (0x2028, 0x2029), (0x202f, 0x202f), (0x205f, 0x205f), (0x3000, 0x3000)]

def isBlank (char : Char) : Bool :=
  ranges.any fun (first, last) => first ≤ char.toNat && char.toNat ≤ last

def trimStart (text : List Char) : List Char := text.dropWhile isBlank

def trimEnd (text : List Char) : List Char := (text.reverse.dropWhile isBlank).reverse

def trim (text : List Char) : List Char := trimEnd (trimStart text)

end Blank

/-! ## Hexadecimal digits -/

inductive HexCase where
  | lower
  | upper
  deriving DecidableEq, Repr

inductive HexFault where
  | oddLength
  | invalidDigit (byte : UInt8) (position : Nat)
  deriving DecidableEq, Repr

def HexFault.message : HexFault → String
  | .oddLength => "Odd number of digits"
  | .invalidDigit byte position =>
    "Invalid character " ++ String.ofList (Quoted.quote byte) ++ s!" at position {position}"

namespace Hex

def digit (letters : HexCase) (value : Nat) : Char :=
  match letters with
  | .lower => Nat.digitChar value
  | .upper => (Nat.digitChar value).toUpper

def renderByte (letters : HexCase) (byte : UInt8) : List Char :=
  [digit letters (byte.toNat / 16), digit letters (byte.toNat % 16)]

def render (letters : HexCase) (bytes : List UInt8) : List Char :=
  bytes.flatMap (renderByte letters)

def digitValue? (code : UInt8) : Option UInt8 :=
  if 48 ≤ code ∧ code ≤ 57 then some (code - 48)
  else if 65 ≤ code ∧ code ≤ 70 then some (code - 55)
  else if 97 ≤ code ∧ code ≤ 102 then some (code - 87)
  else none

/-- Reads digit pairs; `position` is the place of the first byte in the whole text. -/
def readPairs (position : Nat) : List UInt8 → Except HexFault (List UInt8)
  | [] => .ok []
  | [_] => .error .oddLength
  | first :: second :: rest =>
    match digitValue? first, digitValue? second with
    | none, _ => .error (.invalidDigit first position)
    | some _, none => .error (.invalidDigit second (position + 1))
    | some high, some low =>
      (readPairs (position + 2) rest).map fun bytes => (16 * high + low) :: bytes

def readBytes (codes : List UInt8) : Except HexFault (List UInt8) :=
  if codes.length % 2 = 1 then .error .oddLength else readPairs 0 codes

def read (text : List Char) : Except HexFault (List UInt8) :=
  readBytes (text.flatMap String.utf8EncodeChar)

theorem length_render (letters : HexCase) (bytes : List UInt8) :
    (render letters bytes).length = 2 * bytes.length := by
  induction bytes with
  | nil => rfl
  | cons byte rest ih =>
    simp only [render, List.flatMap_cons, List.length_append, List.length_cons] at ih ⊢
    simp only [ih, renderByte, List.length_cons, List.length_nil]
    omega

theorem render_append (letters : HexCase) (first second : List UInt8) :
    render letters (first ++ second) = render letters first ++ render letters second :=
  List.flatMap_append

end Hex

end CompactInt
