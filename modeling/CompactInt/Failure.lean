import CompactInt.Text.Hex

/-! Causes of failure. Every text that a user sees is computed from the cause. -/

set_option autoImplicit false

namespace CompactInt

inductive IoKind where
  | notFound
  | permissionDenied
  | connectionRefused
  | connectionReset
  | hostUnreachable
  | networkUnreachable
  | connectionAborted
  | notConnected
  | addressInUse
  | addressNotAvailable
  | networkDown
  | brokenPipe
  | alreadyExists
  | wouldBlock
  | notADirectory
  | isADirectory
  | directoryNotEmpty
  | readOnlyFilesystem
  | filesystemLoop
  | staleNetworkFileHandle
  | invalidInput
  | invalidData
  | timedOut
  | writeZero
  | storageFull
  | notSeekable
  | quotaExceeded
  | fileTooLarge
  | resourceBusy
  | executableFileBusy
  | deadlock
  | crossesDevices
  | tooManyLinks
  | invalidFilename
  | argumentListTooLong
  | interrupted
  | unsupported
  | unexpectedEnd
  | outOfMemory
  | inProgress
  | other
  | uncategorized
  deriving DecidableEq, Repr

def IoKind.description : IoKind → String
  | .notFound => "entity not found"
  | .permissionDenied => "permission denied"
  | .connectionRefused => "connection refused"
  | .connectionReset => "connection reset"
  | .hostUnreachable => "host unreachable"
  | .networkUnreachable => "network unreachable"
  | .connectionAborted => "connection aborted"
  | .notConnected => "not connected"
  | .addressInUse => "address in use"
  | .addressNotAvailable => "address not available"
  | .networkDown => "network down"
  | .brokenPipe => "broken pipe"
  | .alreadyExists => "entity already exists"
  | .wouldBlock => "operation would block"
  | .notADirectory => "not a directory"
  | .isADirectory => "is a directory"
  | .directoryNotEmpty => "directory not empty"
  | .readOnlyFilesystem => "read-only filesystem or storage medium"
  | .filesystemLoop => "filesystem loop or indirection limit (e.g. symlink loop)"
  | .staleNetworkFileHandle => "stale network file handle"
  | .invalidInput => "invalid input parameter"
  | .invalidData => "invalid data"
  | .timedOut => "timed out"
  | .writeZero => "write zero"
  | .storageFull => "no storage space"
  | .notSeekable => "seek on unseekable file"
  | .quotaExceeded => "quota exceeded"
  | .fileTooLarge => "file too large"
  | .resourceBusy => "resource busy"
  | .executableFileBusy => "executable file busy"
  | .deadlock => "deadlock"
  | .crossesDevices => "cross-device link or rename"
  | .tooManyLinks => "too many links"
  | .invalidFilename => "invalid filename"
  | .argumentListTooLong => "argument list too long"
  | .interrupted => "operation interrupted"
  | .unsupported => "unsupported"
  | .unexpectedEnd => "unexpected end of file"
  | .outOfMemory => "out of memory"
  | .inProgress => "in progress"
  | .other => "other error"
  | .uncategorized => "uncategorized error"

structure IoError where
  kind : IoKind
  text : String
  deriving DecidableEq, Repr

def IoError.ofKind (kind : IoKind) : IoError := ⟨kind, kind.description⟩

/-- An interrupted call has done nothing and is made again. -/
def IoError.isInterruption (error : IoError) : Bool := error.kind == .interrupted

/-- No block of memory has more bytes than a signed 64-bit number can count. -/
def Memory.maxBytes : Nat := 0x7fffffffffffffff

inductive ArgumentFault where
  | negative (value : Int)
  | shortRange (value : Nat)
  | signBit (high low : UInt8)
  | described (text : String)
  deriving DecidableEq, Repr

def ArgumentFault.message : ArgumentFault → String
  | .negative value => s!"varint value must be non-negative, got {value}"
  | .shortRange value => s!"short value out of range [0, 32767]: {value}"
  | .signBit high low =>
    "packed short has its sign bit set: " ++ String.ofList (Hex.render .lower [high, low])
  | .described text => text

inductive Failure where
  | malformed (read : Nat)
  | invalidArgument (fault : ArgumentFault)
  | unexpectedEnd (consumed : Nat)
  | io (error : IoError)
  /-- A buffer was asked, unchecked, for more bytes than it has or can take. The program ends
  without a message. -/
  | overrun
  deriving DecidableEq, Repr

namespace Failure

def message : Failure → String
  | malformed read => s!"Malformed varint: no terminating byte after {read} bytes"
  | invalidArgument fault => "Invalid argument: " ++ fault.message
  | unexpectedEnd consumed => s!"Unexpected end of input after {consumed} bytes"
  | io error => error.text
  | overrun => ""

/-- The input ended before the first byte of a value: the regular end of a stream. -/
def isCleanEnd : Failure → Bool
  | unexpectedEnd 0 => true
  | _ => false

theorem isCleanEnd_iff {failure : Failure} : failure.isCleanEnd ↔ failure = .unexpectedEnd 0 := by
  cases failure with
  | unexpectedEnd consumed => cases consumed <;> simp [isCleanEnd]
  | _ => simp [isCleanEnd]

end Failure

end CompactInt
