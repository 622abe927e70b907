import CompactInt.Calls
import CompactInt.Sink.Basic

/-! Sequences of writes to one sink. -/

set_option autoImplicit false

namespace CompactInt

inductive WriteCall where
  | varint (value : UInt32)
  | signed (value : Int32)
  | short (value : UInt16)
  | byte (value : UInt8)
  | bytes (values : List UInt8)
  deriving DecidableEq, Repr

namespace WriteCall

def output : WriteCall → Except Failure (List UInt8)
  | varint value => .ok (Varint.encode value)
  | signed value => Varint.encodeSigned value
  | short value => PackedShort.pack value
  | byte value => .ok [value]
  | bytes values => .ok values

variable {κ : Type} [ByteSink κ]

def run (sink : κ) : WriteCall → Except Failure Unit × κ
  | varint value => ByteSink.writeVarint value sink
  | signed value => ByteSink.writeSigned value sink
  | short value => ByteSink.writeShort value sink
  | byte value => ByteSink.writeByte value sink
  | bytes values => ByteSink.writeBytes values sink

def runAll (sink : κ) (calls : List WriteCall) : List (Except Failure Unit × κ) :=
  Calls.run run sink calls

end WriteCall

end CompactInt
