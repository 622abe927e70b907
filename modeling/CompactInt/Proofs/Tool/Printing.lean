import CompactInt.Proofs.Sink.Acceptance
import CompactInt.Proofs.Text.Spelling
import CompactInt.Proofs.Tool.Decoding

/-! The lines of a command, settled without regard to the output, which only decides how many of
them get through. -/

set_option autoImplicit false

namespace CompactInt

def Hex.lines (letters : HexCase) (values : List UInt32) : List (List Char) :=
  values.map fun value => render letters (Varint.encode value)

namespace Output

theorem print_nil (output : Output) : output.print [] = (.ok (), output) := by
  obtain ⟨printed, none | quota⟩ := output
  · simp [print]
  · simp [print]

/-- A text printed in two parts: the second part is only tried if the first has got through. -/
theorem print_append (first second : List Char) (output : Output) :
    output.print (first ++ second) =
      match output.print first with
      | (.ok (), after) => after.print second
      | (.error error, after) => (.error error, after) := by
  obtain ⟨printed, none | ⟨room, fault⟩⟩ := output
  · simp only [print, String.ofList_append, String.append_assoc]
  · by_cases fits : first.length ≤ room
    · -- What the first part has left of the room is there for the second.
      have restFits : second.length ≤ room - first.length ↔ (first ++ second).length ≤ room := by
        rw [List.length_append]
        omega
      have shown : (first ++ second).take room = first ++ second.take (room - first.length) := by
        rw [List.take_append, List.take_of_length_le fits]
      simp only [print, if_pos fits, restFits, shown, List.take_of_length_le fits,
        String.ofList_append, String.append_assoc, List.length_append, Nat.sub_sub]
    · -- No room is left behind the first part, so the second adds nothing.
      have unfit : ¬ (first ++ second).length ≤ room := by
        rw [List.length_append]
        omega
      have full : room - (first ++ second).length = room - first.length := by
        rw [List.length_append]
        omega
      simp only [print, if_neg fits, if_neg unfit, full,
        List.take_append_of_le_length (Nat.le_of_not_le fits)]

end Output

namespace Command

theorem printLines_eq_print (lines : List (List Char)) (output : Output) :
    printLines lines output =
      ((output.print (lines.flatMap (· ++ ['\n']))).1.mapError .output,
        (output.print (lines.flatMap (· ++ ['\n']))).2) := by
  induction lines generalizing output with
  | nil => rw [List.flatMap_nil, Output.print_nil]; rfl
  | cons line rest ih =>
    rw [List.flatMap_cons, Output.print_append, printLines, printLine, Output.printLine]
    rcases output.print (line ++ ['\n']) with ⟨error | _, after⟩
    · rfl
    · exact ih after

/-- A command prints these lines one after the other, and ends in this way when all of them
are printed. -/
structure Prints (settings : Settings) (stdin : Script) (command : Command)
    (lines : List (List Char)) (ending : Except RunFault Unit) : Prop where
  output_eq (output : Output) :
    (run settings stdin output command).output = (printLines lines output).2
  result_eq (output : Output) :
    (run settings stdin output command).result = (printLines lines output).1.bind fun _ => ending

theorem Prints.unlimited {settings : Settings} {stdin : Script} {command : Command}
    {lines : List (List Char)} {ending : Except RunFault Unit}
    (prints : Prints settings stdin command lines ending) :
    (run settings stdin {} command).output.printed = Output.joined lines ∧
      (run settings stdin {} command).result = ending := by
  rw [prints.output_eq, prints.result_eq, printLines_unlimited lines rfl]
  exact ⟨String.empty_append, rfl⟩

theorem Prints.limited {settings : Settings} {stdin : Script} {command : Command}
    {lines : List (List Char)} {ending : Except RunFault Unit}
    (prints : Prints settings stdin command lines ending) (quota : Quota) :
    (run settings stdin { quota := some quota } command).output.printed =
        String.ofList ((Output.joined lines).toList.take quota.room) ∧
      (run settings stdin { quota := some quota } command).result =
        if (Output.joined lines).toList.length ≤ quota.room then ending
        else .error (.output quota.fault) := by
  rw [prints.output_eq, prints.result_eq, printLines_eq_print, Output.joined, String.toList_ofList]
  refine ⟨String.empty_append, ?_⟩
  rw [Output.print]
  dsimp only
  split
  · rfl
  · rfl

theorem printLines_singleton (line : List Char) (output : Output) :
    printLines [line] output = printLine line output := by
  rw [printLines]
  rcases printLine line output with ⟨fault | _, after⟩ <;> rfl

/-- What an earlier value has left in the scratch is not shown. -/
theorem encodeValues_eq_printLines (letters : HexCase) (stale : List UInt8) (values : List UInt32)
    (output : Output) :
    encodeValues letters ⟨[], stale⟩ values output =
      printLines (Hex.lines letters values) output := by
  induction values generalizing stale output with
  | nil => rfl
  | cons value rest ih =>
    rw [encodeValues, Writer.writeVarint_clear, Hex.lines, List.map_cons, printLines]
    dsimp only
    rcases printLine (Hex.render letters (Varint.encode value)) output with ⟨fault | _, after⟩
    · rfl
    · exact ih (Varint.encode value) after

section

variable (settings : Settings) (stdin : Script)

theorem prints_encode (values : List UInt32) :
    Prints settings stdin (.encode values) (Hex.lines settings.letters values) (.ok ()) where
  output_eq output := by rw [run, Writer.blank, encodeValues_eq_printLines]
  result_eq output := by
    rw [run, Writer.blank, encodeValues_eq_printLines]
    dsimp only
    rcases (printLines _ output).1 with fault | _ <;> rfl

theorem prints_nothing {command : Command} {fault : RunFault}
    (ended : ∀ output, run settings stdin output command = { result := .error fault, output }) :
    Prints settings stdin command [] (.error fault) where
  output_eq output := by rw [ended]; rfl
  result_eq output := by rw [ended]; rfl

theorem prints_line {command : Command} {line : List Char}
    (printed : ∀ output, run settings stdin output command =
      { result := (printLine line output).1, output := (printLine line output).2 }) :
    Prints settings stdin command [line] (.ok ()) where
  output_eq output := by rw [printed, printLines_singleton]
  result_eq output := by
    rw [printed, printLines_singleton]
    rcases (printLine line output).1 with fault | _ <;> rfl

theorem prints_decode_text {text : String} {bytes : List UInt8}
    {numbers : List (List UInt8)} {rest : List Item} {failure : Failure}
    (given : readHex text = .ok bytes)
    (division : Item.Division (bytes.map .byte) numbers rest failure) (flag : Bool) :
    Prints settings stdin (.decode (some text) flag) (Decimal.lines numbers)
      (if failure.isCleanEnd then .ok ()
        else .error (.atOffset numbers.flatten.length failure)) where
  output_eq output := (run_decode_text output given division settings stdin flag).2
  result_eq output := (run_decode_text output given division settings stdin flag).1

theorem prints_decode_input {settings : Settings} (someAhead : 0 < settings.readAhead)
    (bounded : settings.readAhead ≤ Memory.maxBytes) {stdin : Script}
    {numbers : List (List UInt8)} {rest : List Item} {failure : Failure}
    (division : Item.Division stdin.items numbers rest failure) (flag : Bool) :
    Prints settings stdin (.decode none flag) (Decimal.lines numbers)
      (if failure.isCleanEnd then .ok ()
        else .error (.atNumber (numbers.length + 1) failure)) where
  output_eq output := (run_decode_input output someAhead bounded division flag).2
  result_eq output := (run_decode_input output someAhead bounded division flag).1

end

end Command

end CompactInt
