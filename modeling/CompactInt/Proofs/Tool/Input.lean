import CompactInt.Proofs.Tool.Decoding

/-! Decoding standard input. How it is delivered, and how much of it is read ahead, has no part
in the outcome; only to read nothing ahead is refused. -/

set_option autoImplicit false

namespace CompactInt

open Varint

namespace Command

/-- The outcome of decoding items that begin with some numbers and go on with a rest. The end
of the input is regular where a number could begin, and everything else that keeps a number
from being read is told with the index of that number. -/
structure InputDecoded (items : List Item) (output : Output) (outcome : Outcome)
    (numbers : List (List UInt8)) (rest : List Item) : Prop where
  items_eq : items = numbers.flatten.map .byte ++ rest
  isValue : ∀ bytes ∈ numbers, IsValue bytes
  printed : outcome.output =
    { output with printed := output.printed ++ Output.joined (Decimal.lines numbers) }
  success_iff : outcome.result = .ok () ↔ rest[0]? = some .stop ∨ rest[0]? = none
  failed : outcome.result ≠ .ok () → ∃ failure behind,
    (ByteSource.readVarint rest).1 = .error failure ∧
      Item.ReadsVarint rest (.error failure) behind ∧
      outcome.result = .error (.atNumber (numbers.length + 1) failure) ∧
      (RunFault.atNumber (numbers.length + 1) failure).chain =
        ["failed to decode value #" ++ toString (numbers.length + 1), failure.message]

variable {settings : Settings} (someAhead : 0 < settings.readAhead)
  (bounded : settings.readAhead ≤ Memory.maxBytes) {output : Output}
  (unlimited : output.quota = none) (flag : Bool)

include someAhead bounded unlimited

theorem inputDecoded_of_division {stdin : Script} {numbers : List (List UInt8)}
    {rest : List Item} {failure : Failure}
    (division : Item.Division stdin.items numbers rest failure) :
    InputDecoded stdin.items output (run settings stdin output (.decode none flag)) numbers
      rest := by
  obtain ⟨result, printed⟩ := run_decode_input output someAhead bounded division flag
  rw [printLines_unlimited _ unlimited] at result printed
  have clean := Item.isCleanEnd_readVarint_iff rest
  simp only [division.stuck, Except.error.injEq, exists_eq_left'] at clean
  constructor
  case items_eq => exact division.items_eq
  case isValue => exact division.isValue
  case printed => exact printed
  case success_iff =>
    rw [result, ← clean]
    exact verdict_eq_ok_iff _ _
  case failed =>
    intro failed
    rw [result] at failed ⊢
    have unclean : ¬ failure.isCleanEnd := mt (verdict_eq_ok_iff _ _).2 failed
    have read := Item.readVarint_reads rest
    rw [division.stuck] at read
    exact ⟨failure, _, division.stuck, read, verdict_of_not_clean _ _ unclean, rfl⟩

omit unlimited in
theorem run_eq_of_items_eq {other : Settings} (otherSome : 0 < other.readAhead)
    (otherBounded : other.readAhead ≤ Memory.maxBytes) {first second : Script}
    (same : first.items = second.items) :
    (run settings first output (.decode none flag)).result =
        (run other second output (.decode none flag)).result ∧
      (run settings first output (.decode none flag)).output =
        (run other second output (.decode none flag)).output := by
  obtain ⟨numbers, rest, failure, division⟩ := Item.exists_division first.items
  obtain ⟨result, printed⟩ := run_decode_input output someAhead bounded division flag
  rw [same] at division
  obtain ⟨result', printed'⟩ := run_decode_input output otherSome otherBounded division flag
  exact ⟨result.trans result'.symm, printed.trans printed'.symm⟩

omit someAhead bounded unlimited in
theorem run_without_readAhead (stdin : Script) :
    run { readAhead := 0 } stdin output (.decode none flag) =
      { result := .error .noReadAhead, output } := by
  have closed : ReadAhead.ofReader? 0 (Polled.mk stdin) = none := if_neg (by omega)
  rw [run, closed]

end Command

/-- The items of standard input alone tell what decoding it prints and how it ends: any other
delivery of the same items, read ahead by any other capacity, has the same outcome. -/
theorem inputDecoded_run (settings : Settings) (someAhead : 0 < settings.readAhead)
    (bounded : settings.readAhead ≤ Memory.maxBytes) (stdin : Script) (output : Output)
    (flag : Bool) :
    (output.quota = none → ∃ numbers rest,
      Command.InputDecoded stdin.items output
        (Command.run settings stdin output (.decode none flag)) numbers rest) ∧
    (∀ (other : Settings) (script : Script), 0 < other.readAhead →
      other.readAhead ≤ Memory.maxBytes → script.items = stdin.items →
      (Command.run other script output (.decode none flag)).result =
          (Command.run settings stdin output (.decode none flag)).result ∧
        (Command.run other script output (.decode none flag)).output =
          (Command.run settings stdin output (.decode none flag)).output) := by
  constructor
  · intro unlimited
    obtain ⟨numbers, rest, failure, division⟩ := Item.exists_division stdin.items
    exact ⟨numbers, rest,
      Command.inputDecoded_of_division someAhead bounded unlimited flag division⟩
  · intro other script otherSome otherBounded same
    exact Command.run_eq_of_items_eq otherSome otherBounded flag someAhead bounded same

theorem inputDecoded_run_torn :
    let settings : Settings := { readAhead := 2 }
    let stdin : Script :=
      [.chunk [0x80], .notReady, .chunk [0x01, 0x05], .fault (.ofKind .interrupted),
        .fault (.ofKind .unexpectedEnd), .chunk [0x01]]
    let outcome := Command.run settings stdin {} (.decode none true)
    0 < settings.readAhead ∧ settings.readAhead ≤ Memory.maxBytes ∧
      outcome.result = .error (.atNumber 3 (.io (.ofKind .unexpectedEnd))) ∧
      outcome.output.printed = "128\n5\n" ∧
      ∃ numbers rest, Command.InputDecoded stdin.items {} outcome numbers rest := by
  intro settings stdin outcome
  have someAhead : 0 < settings.readAhead := by decide
  have bounded : settings.readAhead ≤ Memory.maxBytes := by decide
  have division : Item.Division stdin.items [[0x80, 0x01], [0x05]]
      [.fault (.ofKind .unexpectedEnd), .byte 0x01] (.io (.ofKind .unexpectedEnd)) :=
    .cons ⟨[0x80], 0x01, rfl, by decide, List.forall_mem_singleton.2 (by decide), by decide⟩
      (.cons ⟨[], 0x05, rfl, by decide, nofun, by decide⟩
        (.nil (congrArg Prod.fst (ByteSource.finishVarint_fault {} rfl))))
  obtain ⟨result, printed⟩ := Command.run_decode_input {} someAhead bounded division true
  have lines : Output.joined (Decimal.lines [[0x80, 0x01], [0x05]]) = "128\n5\n" := by cbv
  rw [Command.printLines_unlimited _ rfl, lines] at result printed
  refine ⟨someAhead, bounded, result, ?_,
    (inputDecoded_run settings someAhead bounded stdin {} true).1 rfl⟩
  exact congrArg Output.printed printed

/-- Without input there is nothing to fail at, but a capacity of no bytes ends the run with a
failure. -/
theorem not_inputDecoded_without_capacity :
    ¬ ∃ numbers rest, Command.InputDecoded (Script.items []) {}
      (Command.run { readAhead := 0 } [] {} (.decode none true)) numbers rest := by
  rintro ⟨numbers, rest, decoded⟩
  have nothing : rest = [] := (List.append_eq_nil_iff.1 decoded.items_eq.symm).2
  have success := decoded.success_iff.2 (.inr (by rw [nothing]; rfl))
  rw [Command.run_without_readAhead true []] at success
  cases success

end CompactInt
