import CompactInt.Coding

/-! Sinks of bytes, and writing numbers to them. A number is handed to its sink as a whole, and a
rejected number does not reach it. -/

set_option autoImplicit false

namespace CompactInt

def writeEach {κ : Type} (writeByte : UInt8 → κ → Except Failure Unit × κ) :
    List UInt8 → κ → Except Failure Unit × κ
  | [], sink => (.ok (), sink)
  | byte :: rest, sink =>
    match writeByte byte sink with
    | (.ok (), after) => writeEach writeByte rest after
    | (.error failure, after) => (.error failure, after)

class ByteSink (κ : Type) where
  writeByte : UInt8 → κ → Except Failure Unit × κ
  writeBytes : List UInt8 → κ → Except Failure Unit × κ := writeEach writeByte

namespace ByteSink

variable {κ : Type} [ByteSink κ]

def writeVarint (value : UInt32) (sink : κ) : Except Failure Unit × κ :=
  writeBytes (Varint.encode value) sink

def writeSigned (value : Int32) (sink : κ) : Except Failure Unit × κ :=
  match Varint.encodeSigned value with
  | .ok bytes => writeBytes bytes sink
  | .error failure => (.error failure, sink)

def writeShort (value : UInt16) (sink : κ) : Except Failure Unit × κ :=
  match PackedShort.pack value with
  | .ok bytes => writeBytes bytes sink
  | .error failure => (.error failure, sink)

end ByteSink

/-- A sink that takes single bytes until its room is used up, and then fails with its fault. -/
structure Allotment where
  room : Nat
  fault : IoError
  written : List UInt8 := []
  deriving DecidableEq, Repr

def Allotment.writeByte (byte : UInt8) (sink : Allotment) : Except Failure Unit × Allotment :=
  match sink.room with
  | 0 => (.error (.io sink.fault), sink)
  | room + 1 => (.ok (), { sink with room, written := sink.written ++ [byte] })

instance : ByteSink Allotment where
  writeByte := Allotment.writeByte

end CompactInt
