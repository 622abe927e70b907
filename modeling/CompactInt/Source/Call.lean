import CompactInt.Calls
import CompactInt.Source.Basic

/-! Sequences of reads from one source. -/

set_option autoImplicit false

namespace CompactInt

inductive ReadCall where
  | byte
  | varint
  | short
  deriving DecidableEq, Repr

/-- What a successful call returns; a call for a byte also succeeds at an end. -/
inductive Reading where
  | byte (value : Option UInt8)
  | varint (value : UInt32)
  | short (value : UInt16)
  deriving DecidableEq, Repr

namespace ReadCall

variable {σ : Type} [ByteSource σ]

def run (source : σ) : ReadCall → Except Failure Reading × σ
  | byte => let (result, rest) := ByteSource.next source; (result.map .byte, rest)
  | varint => let (result, rest) := ByteSource.readVarint source; (result.map .varint, rest)
  | short => let (result, rest) := ByteSource.readShort source; (result.map .short, rest)

def runAll (source : σ) (calls : List ReadCall) : List (Except Failure Reading × σ) :=
  Calls.run run source calls

end ReadCall

end CompactInt
