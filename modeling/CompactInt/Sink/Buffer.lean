import CompactInt.Sink.Call

/-! Buffers that are written from the front. A checked write without enough room fails, an
unchecked one overruns the buffer; in both cases nothing is written. -/

set_option autoImplicit false

namespace CompactInt

structure Storage where
  content : List UInt8 := []
  room : Nat
  deriving DecidableEq, Repr

namespace Storage

def bytes (storage : Storage) : List UInt8 := storage.content ++ List.replicate storage.room 0

def append (added : List UInt8) (storage : Storage) : Storage where
  content := storage.content ++ added
  room := storage.room - added.length

end Storage

/-- Two storages, of which the second is untouched until the first is full. -/
structure StoragePair where
  first : Storage
  second : Storage
  inOrder : 0 < first.room → second.content = []
  deriving DecidableEq, Repr

namespace StoragePair

def empty (first second : Nat) : StoragePair where
  first := { room := first }
  second := { room := second }
  inOrder _ := rfl

def append (added : List UInt8) (pair : StoragePair) : StoragePair where
  first := pair.first.append (added.take pair.first.room)
  second := pair.second.append (added.drop pair.first.room)
  inOrder := by
    simp only [Storage.append, List.length_take]
    intro left
    rw [pair.inOrder (by omega), List.drop_eq_nil_of_le (by omega)]
    rfl

end StoragePair

inductive WriteBuffer where
  | growing (content : List UInt8)
  | bounded (content : List UInt8) (limit : Nat)
  | fixed (storage : Storage)
  | chained (pair : StoragePair)
  deriving DecidableEq, Repr

namespace WriteBuffer

def room : WriteBuffer → Option Nat
  | growing _ => none
  | bounded content limit => some (min limit (Memory.maxBytes - content.length))
  | fixed storage => some storage.room
  | chained pair => some (pair.first.room + pair.second.room)

def content : WriteBuffer → List UInt8
  | growing content => content
  | bounded content _ => content
  | fixed storage => storage.content
  | chained pair => pair.first.content ++ pair.second.content

/-- All bytes that the buffer owns, written or not. -/
def bytes : WriteBuffer → List UInt8
  | growing content => content
  | bounded content _ => content
  | fixed storage => storage.bytes
  | chained pair => pair.first.bytes ++ pair.second.bytes

def append (added : List UInt8) : WriteBuffer → WriteBuffer
  | growing content => growing (content ++ added)
  | bounded content limit => bounded (content ++ added) (limit - added.length)
  | fixed storage => fixed (storage.append added)
  | chained pair => chained (pair.append added)

@[simp] theorem content_append (added : List UInt8) (buffer : WriteBuffer) :
    (buffer.append added).content = buffer.content ++ added := by
  cases buffer with
  | chained pair =>
    simp only [append, content, StoragePair.append, Storage.append]
    -- The second storage is empty as long as the first can take anything.
    rcases Nat.eq_zero_or_pos pair.first.room with full | free
    · simp only [full, List.take_zero, List.drop_zero, List.append_nil, List.append_assoc]
    · simp only [pair.inOrder free, List.nil_append, List.append_nil, List.append_assoc,
        List.take_append_drop]
  | _ => rfl

@[simp] theorem room_append (added : List UInt8) (buffer : WriteBuffer) :
    (buffer.append added).room = buffer.room.map (· - added.length) := by
  cases buffer with
  | bounded content limit =>
    simp only [append, room, List.length_append, Option.map_some, Option.some.injEq]
    omega
  | chained pair =>
    simp only [append, room, StoragePair.append, Storage.append, List.length_take,
      List.length_drop, Option.map_some, Option.some.injEq]
    omega
  | _ => rfl

def fits (count : Nat) (buffer : WriteBuffer) : Bool :=
  match buffer.room with
  | some room => count ≤ room
  | none => true

/-- Writes without asking for room first. -/
def put (added : List UInt8) (buffer : WriteBuffer) : Except Failure Unit × WriteBuffer :=
  if buffer.fits added.length then (.ok (), buffer.append added) else (.error .overrun, buffer)

def tooSmall (needed room : Nat) : IoError :=
  ⟨.writeZero, s!"buffer too small: need {needed} bytes but has {room}"⟩

def write (added : List UInt8) (buffer : WriteBuffer) : Except Failure Unit × WriteBuffer :=
  match buffer.room with
  | some room =>
    if room < added.length then (.error (.io (tooSmall added.length room)), buffer)
    else buffer.put added
  | none => buffer.put added

instance : ByteSink WriteBuffer where
  writeByte byte := write [byte]
  writeBytes := write

def putVarint (value : UInt32) (buffer : WriteBuffer) : Except Failure Unit × WriteBuffer :=
  buffer.put (Varint.encode value)

def putShort (value : UInt16) (buffer : WriteBuffer) : Except Failure Unit × WriteBuffer :=
  match PackedShort.pack value with
  | .ok bytes => buffer.put bytes
  | .error failure => (.error failure, buffer)

end WriteBuffer

inductive BufferCall where
  | checked (call : WriteCall)
  | putVarint (value : UInt32)
  | putShort (value : UInt16)
  deriving DecidableEq, Repr

namespace BufferCall

def output : BufferCall → Except Failure (List UInt8)
  | checked call => call.output
  | putVarint value => .ok (Varint.encode value)
  | putShort value => PackedShort.pack value

def run (buffer : WriteBuffer) : BufferCall → Except Failure Unit × WriteBuffer
  | checked call => call.run buffer
  | putVarint value => buffer.putVarint value
  | putShort value => buffer.putShort value

def runAll (buffer : WriteBuffer) (calls : List BufferCall) :
    List (Except Failure Unit × WriteBuffer) :=
  Calls.run run buffer calls

end BufferCall

end CompactInt
