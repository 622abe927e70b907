/-! What a terminal would show of a text. It reads the bytes of the text, and so a string can end
within a character. -/

set_option autoImplicit false

namespace CompactInt.Terminal

inductive Phase where
  | plain
  | escape
  | intermediate
  | parameters
  /-- Inside a title or the like, which a bell ends. -/
  | title
  | device
  | deviceParameters
  | deviceIntermediate
  /-- Inside a string that the string terminator ends. -/
  | string
  deriving DecidableEq, Repr

/-- Sequences that swallow all control characters. -/
def Phase.isString : Phase → Bool
  | title | device | deviceParameters | deviceIntermediate | string => true
  | plain | escape | intermediate | parameters => false

def Phase.next (char : Char) : Phase → Phase
  | plain => plain
  | escape =>
    if char < '0' then intermediate
    else if char = '[' then parameters
    else if char = ']' then title
    else if char = 'P' then device
    else if char = 'X' || char = '^' || char = '_' then string
    else plain
  | intermediate => if char < '0' then intermediate else plain
  | parameters => if char < '@' then parameters else plain
  | title => title
  | device =>
    if char < '0' then deviceIntermediate
    else if char < '@' then deviceParameters
    else string
  | deviceParameters =>
    if char < '0' then deviceIntermediate
    else if char < '<' then deviceParameters
    else string
  | deviceIntermediate => if char < '0' then deviceIntermediate else string
  | string => string

def movesCursor (char : Char) : Bool :=
  char == '\t' || char == '\n' || char == '\x0c' || char == '\r'

def isControl (char : Char) : Bool := char.toNat < 0x20 || char.toNat == 0x7f

/-- The control byte that ends a string. -/
def stringTerminator : UInt8 := 0x9c

def endsString (char : Char) : Bool := (String.utf8EncodeChar char).contains stringTerminator

/-- Reads one character: where the reader stands then, and whether the character is shown. -/
def step (phase : Phase) (char : Char) : Phase × Bool :=
  if char = '\x1b' then (.escape, false)
  else if char = '\x18' || char = '\x1a' then (.plain, false)
  else if 0x80 ≤ char.toNat then
    if phase = .plain then (.plain, true)
    -- The bytes behind a terminator inside a character begin no character and are not shown.
    else if phase = .string && endsString char then (.plain, false)
    else (phase, false)
  else if isControl char then
    if movesCursor char && !phase.isString then (.plain, true)
    else if phase = .title && char = '\x07' then (.plain, false)
    else (phase, false)
  else (phase.next char, phase = .plain)

def shownFrom (phase : Phase) : List Char → List Char
  | [] => []
  | char :: rest =>
    let (next, shown) := step phase char
    if shown then char :: shownFrom next rest else shownFrom next rest

def shown (text : List Char) : List Char := shownFrom .plain text

def firstParagraph : List Char → List Char
  | '\n' :: '\n' :: _ => []
  | [] => []
  | char :: rest => char :: firstParagraph rest

end CompactInt.Terminal
