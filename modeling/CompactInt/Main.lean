import CompactInt.Tool.Run

/-! The command line. -/

set_option autoImplicit false

namespace CompactInt

def readInput : IO Script := do
  let bytes ← (← IO.getStdin).readBinToEnd
  return if bytes.isEmpty then [] else [.chunk bytes.toList]

end CompactInt

open CompactInt in
def main (arguments : List String) : IO UInt32 := do
  match Invocation.ofArguments arguments with
  | .error refusal =>
    if let some message := refusal.message? then IO.eprintln message
    return UInt32.ofNat refusal.exitCode
  | .ok invocation =>
    let stdin ← if invocation.command.readsInput then readInput else pure []
    let report := invocation.report stdin
    IO.print report.stdout
    IO.eprint report.stderr
    return UInt32.ofNat report.exitCode
