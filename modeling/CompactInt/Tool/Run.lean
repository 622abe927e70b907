import CompactInt.Sink.Writer
import CompactInt.Source.Buffer
import CompactInt.Source.ReadAhead
import CompactInt.Source.Script
import CompactInt.Tool.Arguments

/-! Running a command. Results are printed line by line as they are found, so a run that fails
has printed the lines before the failure. -/

set_option autoImplicit false

namespace CompactInt

/-- How much an output still takes, and the error of every print beyond. -/
structure Quota where
  room : Nat
  fault : IoError
  deriving DecidableEq, Repr

structure Output where
  printed : String := ""
  quota : Option Quota := none
  deriving DecidableEq, Repr

namespace Output

def print (text : List Char) (output : Output) : Except IoError Unit × Output :=
  match output.quota with
  | none => (.ok (), { output with printed := output.printed ++ String.ofList text })
  | some quota =>
    let after : Output :=
      { printed := output.printed ++ String.ofList (text.take quota.room)
        quota := some { quota with room := quota.room - text.length } }
    (if text.length ≤ quota.room then .ok () else .error quota.fault, after)

def printLine (text : List Char) (output : Output) : Except IoError Unit × Output :=
  output.print (text ++ ['\n'])

end Output

inductive RunFault where
  | hex (fault : HexFault)
  | atOffset (offset : Nat) (failure : Failure)
  /-- The number with this index, counted from one, could not be decoded. -/
  | atNumber (index : Nat) (failure : Failure)
  | codec (failure : Failure)
  | notTwoBytes (count : Nat)
  /-- Standard input cannot be read ahead as far as the settings ask. The program ends without a
  message. -/
  | noReadAhead
  | output (error : IoError)
  deriving DecidableEq, Repr

namespace RunFault

def chain : RunFault → List String
  | hex fault => ["invalid hex input", fault.message]
  | atOffset offset failure =>
    [s!"failed to decode varint at byte offset {offset}", failure.message]
  | atNumber index failure => [s!"failed to decode value #{index}", failure.message]
  | codec failure => [failure.message]
  | notTwoBytes count => [s!"packed short must be exactly 2 bytes, got {count}"]
  | noReadAhead => []
  | output error => [error.text]

def message (fault : RunFault) : String := ": ".intercalate fault.chain

end RunFault

structure Outcome where
  result : Except RunFault Unit
  output : Output
  notes : List String := []

namespace Command

def readHex (text : String) : Except RunFault (List UInt8) :=
  match Hex.read (Blank.trim text.toList) with
  | .ok bytes => .ok bytes
  | .error fault => .error (.hex fault)

def printLine (text : List Char) (output : Output) : Except RunFault Unit × Output :=
  match output.printLine text with
  | (.ok (), after) => (.ok (), after)
  | (.error error, after) => (.error (.output error), after)

/-- Encodes value after value into the same scratch, which is cleared for each of them. -/
def encodeValues (letters : HexCase) (scratch : Writer) :
    List UInt32 → Output → Except RunFault Unit × Output
  | [], output => (.ok (), output)
  | value :: rest, output =>
    match ByteSink.writeVarint value scratch.clear with
    | (.error failure, _) => (.error (.codec failure), output)
    | (.ok (), encoded) =>
      match printLine (Hex.render letters encoded.written) output with
      | (.ok (), after) => encodeValues letters encoded rest after
      | (.error fault, after) => (.error fault, after)

/-- Prints the numbers in a buffer; `offset` is the number of bytes that were taken before. -/
def decodeBuffer (offset : Nat) (buffer : ReadBuffer) (output : Output) :
    Except RunFault Unit × Output :=
  if buffer.hasRemaining then
    match _result : ByteSource.readVarint buffer with
    | (.error failure, _) => (.error (.atOffset offset failure), output)
    | (.ok value, rest) =>
      match printLine (Decimal.render value.toNat) output with
      | (.ok (), after) =>
        decodeBuffer (offset + (buffer.remaining - rest.remaining)) rest after
      | (.error fault, after) => (.error fault, after)
  else (.ok (), output)
termination_by buffer.remaining
decreasing_by exact ByteSource.left_readVarint_lt ‹_›

def decodeSource {σ : Type} [ByteSource σ] (count : Nat) (source : σ) (output : Output) :
    Except RunFault Nat × Output :=
  match _result : ByteSource.readVarint source with
  | (.error failure, _) =>
    if failure.isCleanEnd then (.ok count, output)
    else (.error (.atNumber (count + 1) failure), output)
  | (.ok value, rest) =>
    match printLine (Decimal.render value.toNat) output with
    | (.ok (), after) => decodeSource (count + 1) rest after
    | (.error fault, after) => (.error fault, after)
termination_by ByteSource.left source
decreasing_by exact ByteSource.left_readVarint_lt ‹_›

def unpack (text : String) : Except RunFault UInt16 :=
  match readHex text with
  | .error fault => .error fault
  | .ok [high, low] =>
    match PackedShort.unpack high low with
    | .ok value => .ok value
    | .error failure => .error (.codec failure)
  | .ok bytes => .error (.notTwoBytes bytes.length)

def run (settings : Settings) (stdin : Script) (output : Output) : Command → Outcome
  | encode values =>
    let (result, after) := encodeValues settings.letters .blank values output
    { result, output := after }
  | decode (some text) _ =>
    match readHex text with
    | .error fault => { result := .error fault, output }
    | .ok bytes =>
      let (result, after) := decodeBuffer 0 (.plain bytes) output
      { result, output := after }
  | decode none _ =>
    match ReadAhead.ofReader? settings.readAhead (Polled.mk stdin) with
    | none => { result := .error .noReadAhead, output }
    | some source =>
      match decodeSource 0 source output with
      | (.ok count, after) =>
        { result := .ok (), output := after
          notes := [s!"[DECODE] {count} values read from stdin"] }
      | (.error fault, after) => { result := .error fault, output := after }
  | packShort value =>
    match ByteSink.writeShort value Writer.blank with
    | (.error failure, _) => { result := .error (.codec failure), output }
    | (.ok (), packed) =>
      let (result, after) := printLine (Hex.render settings.letters packed.written) output
      { result, output := after }
  | unpackShort text =>
    match unpack text with
    | .error fault => { result := .error fault, output }
    | .ok value =>
      let (result, after) := printLine (Decimal.render value.toNat) output
      { result, output := after }

end Command

structure Report where
  exitCode : Nat
  stdout : String
  stderr : String
  deriving DecidableEq, Repr

def Outcome.report (outcome : Outcome) : Report :=
  let notes := outcome.notes.map (· ++ "\n")
  match outcome.result with
  | .ok () => ⟨0, outcome.output.printed, String.join notes⟩
  | .error fault =>
    ⟨1, outcome.output.printed, String.join notes ++ "[ERROR] " ++ fault.message ++ "\n"⟩

def Invocation.report (stdin : Script) (invocation : Invocation) : Report :=
  (invocation.command.run invocation.settings stdin {}).report

end CompactInt
