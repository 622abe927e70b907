import CompactInt.Proofs.Text.Spelling
import CompactInt.Proofs.Tool.Input

/-! Decoding the same bytes from a text and from standard input prints the same and ends for the
same reason; an offset in the one case belongs to an index in the other. -/

set_option autoImplicit false

namespace CompactInt

open Varint

/-- An event that delivers bytes or holds up the delivery. -/
def ScriptEvent.Smooth : ScriptEvent → Prop
  | chunk bytes => bytes ≠ []
  | fault error => error.isInterruption
  | notReady => True

def ScriptEvent.data : ScriptEvent → List UInt8
  | chunk bytes => bytes
  | _ => []

namespace Script

def data (script : Script) : List UInt8 := script.flatMap ScriptEvent.data

theorem eventItems_of_smooth {event : ScriptEvent} (smooth : event.Smooth) :
    eventItems event = event.data.map .byte := by
  cases event with
  | chunk bytes => exact eventItems_chunk smooth
  | fault error => exact if_pos smooth
  | notReady => rfl

theorem items_of_smooth {script : Script} (smooth : ∀ event ∈ script, event.Smooth) :
    script.items = script.data.map .byte := by
  rw [data, List.map_flatMap]
  exact List.flatMap_congr fun event member => eventItems_of_smooth (smooth event member)

end Script

namespace Command

/-- The results of decoding the same bytes from a text and from standard input. Where a number
cannot be decoded, the bytes before the offset are those of the numbers before the index, and
these have been printed. -/
inductive SameEnding (bytes : List UInt8) (before after : Output) :
    Except RunFault Unit → Except RunFault Unit → Prop where
  | success : SameEnding bytes before after (.ok ()) (.ok ())
  | output (error : IoError) :
    SameEnding bytes before after (.error (.output error)) (.error (.output error))
  | undecoded (numbers : List (List UInt8)) (failure : Failure) :
    (∀ number ∈ numbers, IsValue number) →
    bytes.take numbers.flatten.length = numbers.flatten →
    after.printed = before.printed ++ Output.joined (Decimal.lines numbers) →
    SameEnding bytes before after (.error (.atOffset numbers.flatten.length failure))
      (.error (.atNumber (numbers.length + 1) failure))

theorem not_sameEnding_noReadAhead {bytes : List UInt8} {before after : Output}
    {result : Except RunFault Unit} :
    ¬ SameEnding bytes before after result (.error .noReadAhead) := nofun

theorem sameEnding_of_division {bytes : List UInt8} {numbers : List (List UInt8)}
    {rest : List Item} {failure : Failure}
    (division : Item.Division (bytes.map .byte) numbers rest failure) (output : Output) :
    SameEnding bytes output (printLines (Decimal.lines numbers) output).2
      (verdict (printLines (Decimal.lines numbers) output).1 failure ()
        (.atOffset numbers.flatten.length failure))
      (verdict (printLines (Decimal.lines numbers) output).1 failure ()
        (.atNumber (numbers.length + 1) failure)) := by
  cases ended : (printLines (Decimal.lines numbers) output).1 with
  | error fault =>
    obtain ⟨error, rfl⟩ := printLines_fault ended
    exact .output error
  | ok _ =>
    by_cases clean : failure.isCleanEnd
    · simp only [verdict_of_clean _ _ clean]
      exact .success
    · simp only [verdict_of_not_clean _ _ clean]
      exact .undecoded numbers failure division.isValue division.take_flatten
        (printed_of_printLines ended)

end Command

/-- Decoding a text and decoding standard input with the same bytes print the same and end for
the same reason, however the text is written and the input delivered, and for every output. -/
theorem sameEnding_run {bytes : List UInt8} {text : String} (denotes : Hex.Denotes text bytes)
    {stdin : Script} (smooth : ∀ event ∈ stdin, event.Smooth) (whole : stdin.data = bytes)
    {settings : Settings} (someAhead : 0 < settings.readAhead)
    (bounded : settings.readAhead ≤ Memory.maxBytes) (output : Output) (others : Settings)
    (unread : Script) (first second : Bool) :
    let fromText := Command.run others unread output (.decode (some text) first)
    let fromInput := Command.run settings stdin output (.decode none second)
    fromText.output = fromInput.output ∧
      Command.SameEnding bytes output fromText.output fromText.result fromInput.result := by
  intro fromText fromInput
  -- Both runs follow one division of the bytes, and each tells the place in its own terms.
  obtain ⟨numbers, rest, failure, division⟩ := Item.exists_division (bytes.map .byte)
  obtain ⟨textResult, textOutput⟩ := Command.run_decode_text output
    (Command.readHex_of_denotes denotes) division others unread first
  have delivered : stdin.items = bytes.map .byte := whole ▸ Script.items_of_smooth smooth
  obtain ⟨inputResult, inputOutput⟩ := Command.run_decode_input output someAhead bounded
    (delivered ▸ division) second
  constructor
  · exact textOutput.trans inputOutput.symm
  · simp only [fromText, fromInput, textOutput, textResult, inputResult]
    exact Command.sameEnding_of_division division output

/-- A text in both letter cases and an input in three pieces: the output has room for the first
number, and the second one is torn off. -/
theorem sameEnding_run_torn :
    let text := " 8001fF\n"
    let stdin : Script :=
      [.chunk [0x80], .notReady, .fault (.ofKind .interrupted), .chunk [0x01, 0xff]]
    let output : Output := { quota := some ⟨4, .ofKind .brokenPipe⟩ }
    let fromText := Command.run {} [] output (.decode (some text) false)
    let fromInput := Command.run { readAhead := 2 } stdin output (.decode none true)
    Hex.Denotes text [0x80, 0x01, 0xff] ∧ (∀ event ∈ stdin, event.Smooth) ∧
      stdin.data = [0x80, 0x01, 0xff] ∧
      0 < (Settings.readAhead { readAhead := 2 }) ∧
      fromText.result = .error (.atOffset 2 (.unexpectedEnd 1)) ∧
      fromText.output = fromInput.output ∧
      Command.SameEnding [0x80, 0x01, 0xff] output fromText.output fromText.result
        fromInput.result := by
  intro text stdin output fromText fromInput
  have denotes : Hex.Denotes text [0x80, 0x01, 0xff] :=
    ⟨[' '], ['8', '0', '0', '1', 'f', 'F'], ['\n'], by decide,
      List.forall_mem_singleton.2 (by decide), List.forall_mem_singleton.2 (by decide),
      .cons .lower .lower 0x80 (.cons .lower .lower 0x01 (.cons .lower .upper 0xff .nil))⟩
  have smooth : ∀ event ∈ stdin, event.Smooth := by
    simp [stdin, ScriptEvent.Smooth, IoError.isInterruption, IoError.ofKind]
  have division : Item.Division (List.map .byte [0x80, 0x01, 0xff]) [[0x80, 0x01]]
      [.byte 0xff] (.unexpectedEnd 1) :=
    .cons ⟨[0x80], 0x01, rfl, by decide, List.forall_mem_singleton.2 (by decide), by decide⟩
      (.nil (congrArg Prod.fst (Item.readVarint_of_end (by decide) (.inr rfl))))
  obtain ⟨result, -⟩ := Command.run_decode_text output (Command.readHex_of_denotes denotes)
    division {} [] false
  refine ⟨denotes, smooth, rfl, by decide, result.trans (by cbv), ?_⟩
  exact sameEnding_run denotes smooth rfl (by decide) (by decide) output {} [] false true

/-- Where nothing can be read ahead, the text is decoded and standard input is not. -/
theorem not_sameEnding_without_capacity :
    let stdin : Script := [.chunk [0x01]]
    let fromText := Command.run { readAhead := 0 } [] {} (.decode (some "01") false)
    let fromInput := Command.run { readAhead := 0 } stdin {} (.decode none true)
    Hex.Denotes "01" [0x01] ∧ (∀ event ∈ stdin, event.Smooth) ∧ stdin.data = [0x01] ∧
      ¬ Command.SameEnding [0x01] {} fromText.output fromText.result fromInput.result := by
  intro stdin fromText fromInput
  have denotes : Hex.Denotes "01" [0x01] :=
    ⟨[], ['0', '1'], [], by decide, nofun, nofun, .cons .lower .lower 0x01 .nil⟩
  have smooth : ∀ event ∈ stdin, event.Smooth :=
    List.forall_mem_singleton.2 (List.cons_ne_nil _ _)
  refine ⟨denotes, smooth, rfl, ?_⟩
  rw [show fromInput = _ from Command.run_without_readAhead true stdin]
  exact Command.not_sameEnding_noReadAhead

end CompactInt
