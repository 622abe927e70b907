import CompactInt.Proofs.Source.Division
import CompactInt.Proofs.Source.ReadAhead
import CompactInt.Tool.Run

/-! What decoding prints, and how it ends: a line for every number at the front, up to the first
place where none can be read or the output fails. -/

set_option autoImplicit false

namespace CompactInt

open Varint

def Decimal.lines (numbers : List (List UInt8)) : List (List Char) :=
  numbers.map fun bytes => render (denoted bytes).toNat

def Output.joined (lines : List (List Char)) : String :=
  String.ofList (lines.flatMap (· ++ ['\n']))

theorem Decimal.lines_append (first second : List (List UInt8)) :
    lines (first ++ second) = lines first ++ lines second := List.map_append

theorem Output.joined_append (first second : List (List Char)) :
    joined (first ++ second) = joined first ++ joined second := by
  rw [joined, List.flatMap_append, String.ofList_append]
  rfl

namespace Command

/-! ## Printing -/

def printLines : List (List Char) → Output → Except RunFault Unit × Output
  | [], output => (.ok (), output)
  | line :: rest, output =>
    match printLine line output with
    | (.ok (), after) => printLines rest after
    | (.error fault, after) => (.error fault, after)

theorem printLine_fault {line : List Char} {output after : Output} {fault : RunFault}
    (failed : printLine line output = (.error fault, after)) :
    ∃ error, fault = .output error := by
  unfold printLine at failed
  split at failed
  · cases failed
  · next error _ _ => cases failed; exact ⟨error, rfl⟩

theorem printLines_fault {lines : List (List Char)} {output : Output} {fault : RunFault}
    (failed : (printLines lines output).1 = .error fault) : ∃ error, fault = .output error := by
  induction lines generalizing output with
  | nil => cases failed
  | cons line rest ih =>
    rw [printLines] at failed
    split at failed
    · exact ih failed
    · next printed => cases failed; exact printLine_fault printed

theorem printLine_unlimited (line : List Char) {output : Output}
    (unlimited : output.quota = none) :
    printLine line output =
      (.ok (), { output with printed := output.printed ++ String.ofList (line ++ ['\n']) }) := by
  rw [printLine, Output.printLine, Output.print, unlimited]

theorem printLines_unlimited (lines : List (List Char)) {output : Output}
    (unlimited : output.quota = none) :
    printLines lines output =
      (.ok (), { output with printed := output.printed ++ Output.joined lines }) := by
  induction lines generalizing output with
  | nil => simp [printLines, Output.joined]
  | cons line rest ih =>
    rw [printLines, printLine_unlimited line unlimited]
    dsimp only
    rw [ih]
    · simp [Output.joined, String.append_assoc]
    · exact unlimited

theorem printed_of_printLine {line : List Char} {output after : Output}
    (success : printLine line output = (.ok (), after)) :
    after.printed = output.printed ++ String.ofList (line ++ ['\n']) := by
  rw [printLine, Output.printLine, Output.print] at success
  cases bound : output.quota with
  | none => rw [bound] at success; cases success; rfl
  | some quota =>
    rw [bound] at success
    dsimp only at success
    by_cases fits : (line ++ ['\n']).length ≤ quota.room
    · rw [if_pos fits] at success
      cases success
      rw [List.take_of_length_le fits]
    · rw [if_neg fits] at success
      cases success

theorem printed_of_printLines {lines : List (List Char)} {output : Output}
    (success : (printLines lines output).1 = .ok ()) :
    (printLines lines output).2.printed = output.printed ++ Output.joined lines := by
  induction lines generalizing output with
  | nil => exact String.append_empty.symm
  | cons line rest ih =>
    rw [printLines] at success ⊢
    split at success
    · next after printed =>
      rw [ih success, printed_of_printLine printed]
      simp [Output.joined, String.append_assoc]
    · cases success

/-! ## The end of the numbers -/

/-- How decoding ends that has printed its numbers with some result and then met a failure. The
regular end of the bytes is no fault. -/
def verdict {α : Type} (printed : Except RunFault Unit) (failure : Failure) (success : α)
    (fault : RunFault) : Except RunFault α :=
  printed.bind fun _ => if failure.isCleanEnd then .ok success else .error fault

section

variable {α : Type} {failure : Failure} (success : α) (fault : RunFault)

theorem verdict_of_clean (clean : failure.isCleanEnd) :
    verdict (.ok ()) failure success fault = .ok success := if_pos clean

theorem verdict_of_not_clean (unclean : ¬ failure.isCleanEnd) :
    verdict (.ok ()) failure success fault = .error fault := if_neg unclean

theorem verdict_eq_ok_iff :
    verdict (.ok ()) failure success fault = .ok success ↔ failure.isCleanEnd := by
  by_cases clean : failure.isCleanEnd
  · simp only [verdict_of_clean success fault clean, clean]
  · simp only [verdict_of_not_clean success fault clean, clean, reduceCtorEq]

end

/-! ## From a source -/

section

variable {σ : Type} [ByteSource σ] (count : Nat) {source after : σ} (output : Output)

theorem decodeSource_failure {failure : Failure}
    (read : ByteSource.readVarint source = (.error failure, after)) :
    decodeSource count source output =
      (if failure.isCleanEnd then .ok count else .error (.atNumber (count + 1) failure),
        output) := by
  rw [decodeSource]
  split
  · next found =>
    rw [read] at found
    cases found
    exact (apply_ite (·, output) _ _ _).symm
  · next found => rw [read] at found; cases found

theorem decodeSource_number {value : UInt32}
    (read : ByteSource.readVarint source = (.ok value, after)) :
    decodeSource count source output =
      match printLine (Decimal.render value.toNat) output with
      | (.ok (), printed) => decodeSource (count + 1) after printed
      | (.error fault, printed) => (.error fault, printed) := by
  rw [decodeSource]
  split
  · next found => rw [read] at found; cases found
  · next found => rw [read] at found; cases found; rfl

end

theorem decodeSource_items {σ : Type} [ByteSource σ] [ItemSource σ] (count : Nat) (source : σ)
    (output : Output) :
    decodeSource count (ItemSource.items source) output = decodeSource count source output := by
  fun_induction decodeSource count source output with
  | case1 count source output failure after read clean =>
    rw [decodeSource_failure count output (ByteSource.readVarint_of_items read), if_pos clean]
  | case2 count source output failure after read unclean =>
    rw [decodeSource_failure count output (ByteSource.readVarint_of_items read), if_neg unclean]
  | case3 count source output value after read printed success ih =>
    rw [decodeSource_number count output (ByteSource.readVarint_of_items read), success]
    exact ih
  | case4 count source output value after read fault printed failed =>
    rw [decodeSource_number count output (ByteSource.readVarint_of_items read), failed]

/-! ## From a buffer -/

section

variable (offset : Nat) {buffer after : ReadBuffer} (output : Output)

theorem decodeBuffer_spent (spent : ¬ buffer.hasRemaining) :
    decodeBuffer offset buffer output = (.ok (), output) := by
  rw [decodeBuffer, if_neg spent]

variable (more : buffer.hasRemaining)

include more

theorem decodeBuffer_failure {failure : Failure}
    (read : ByteSource.readVarint buffer = (.error failure, after)) :
    decodeBuffer offset buffer output = (.error (.atOffset offset failure), output) := by
  rw [decodeBuffer, if_pos more]
  split
  · next found => rw [read] at found; cases found; rfl
  · next found => rw [read] at found; cases found

theorem decodeBuffer_number {value : UInt32}
    (read : ByteSource.readVarint buffer = (.ok value, after)) :
    decodeBuffer offset buffer output =
      match printLine (Decimal.render value.toNat) output with
      | (.ok (), printed) =>
        decodeBuffer (offset + (buffer.remaining - after.remaining)) after printed
      | (.error fault, printed) => (.error fault, printed) := by
  rw [decodeBuffer, if_pos more]
  split
  · next found => rw [read] at found; cases found
  · next found => rw [read] at found; cases found; rfl

end

/-! ## Along a division -/

section

variable {numbers : List (List UInt8)} {rest : List Item} {failure : Failure}

theorem decodeSource_division {items : List Item}
    (division : Item.Division items numbers rest failure) (count : Nat) (output : Output) :
    decodeSource count items output =
      (verdict (printLines (Decimal.lines numbers) output).1 failure (count + numbers.length)
          (.atNumber (count + numbers.length + 1) failure),
        (printLines (Decimal.lines numbers) output).2) := by
  induction numbers generalizing items count output with
  | nil =>
    obtain ⟨_, stuck⟩ := division.readVarint_nil
    exact decodeSource_failure count output (Prod.ext stuck rfl)
  | cons bytes numbers ih =>
    obtain ⟨later, read, division⟩ := division.readVarint_cons
    rw [decodeSource_number count output read, Decimal.lines, List.map_cons, printLines]
    rcases printLine (Decimal.render (denoted bytes).toNat) output with ⟨fault | _, printed⟩
    · rfl
    · have index : count + 1 + numbers.length = count + (bytes :: numbers).length := by
        rw [List.length_cons]; omega
      rw [← index]
      exact ih division (count + 1) printed

/-- In front of every number the offset and what remains are the whole text. -/
theorem decodeBuffer_division {buffer : ReadBuffer}
    (division : Item.Division (ItemSource.items buffer) numbers rest failure) {offset total : Nat}
    (whole : offset + buffer.remaining = total) (output : Output) :
    decodeBuffer offset buffer output =
      (verdict (printLines (Decimal.lines numbers) output).1 failure ()
          (.atOffset (total - rest.length) failure),
        (printLines (Decimal.lines numbers) output).2) := by
  induction numbers generalizing buffer offset output with
  | nil =>
    obtain ⟨rfl, stuck⟩ := division.readVarint_nil
    obtain ⟨after, read, _⟩ := ByteSource.exists_readVarint_of_items (Prod.ext stuck rfl)
    have clean := ReadBuffer.isCleanEnd_iff read
    have left : (ItemSource.items buffer).length = buffer.remaining :=
      (List.length_map _).trans buffer.length_contents
    by_cases more : buffer.hasRemaining
    · have unclean : ¬ failure.isCleanEnd := fun ended => clean.1 ended more
      have place : offset = total - (ItemSource.items buffer).length := by omega
      rw [decodeBuffer_failure offset output more read, ← place]
      exact congrArg (·, output) (verdict_of_not_clean _ _ unclean).symm
    · rw [decodeBuffer_spent offset output more]
      exact congrArg (·, output) (verdict_of_clean _ _ (clean.2 more)).symm
  | cons bytes numbers ih =>
    obtain ⟨later, given, division⟩ := division.readVarint_cons
    obtain ⟨after, read, rfl⟩ := ByteSource.exists_readVarint_of_items given
    have fewer : after.remaining < buffer.remaining := ByteSource.left_readVarint_lt read
    have more : buffer.hasRemaining := ReadBuffer.hasRemaining_iff.2 (Nat.zero_lt_of_lt fewer)
    rw [decodeBuffer_number offset output more read, Decimal.lines, List.map_cons, printLines]
    rcases printLine (Decimal.render (denoted bytes).toNat) output with ⟨fault | _, printed⟩
    · rfl
    · -- What the number took is added to the offset and does not remain.
      have whole : offset + (buffer.remaining - after.remaining) + after.remaining = total := by
        omega
      exact ih division whole printed

variable (output : Output)

theorem run_decode_text {text : String} {bytes : List UInt8}
    (given : readHex text = .ok bytes)
    (division : Item.Division (bytes.map .byte) numbers rest failure) (settings : Settings)
    (stdin : Script) (flag : Bool) :
    (run settings stdin output (.decode (some text) flag)).result =
        verdict (printLines (Decimal.lines numbers) output).1 failure ()
          (.atOffset numbers.flatten.length failure) ∧
      (run settings stdin output (.decode (some text) flag)).output =
        (printLines (Decimal.lines numbers) output).2 := by
  have place : bytes.length - rest.length = numbers.flatten.length := by
    have lengths := congrArg List.length division.items_eq
    rw [List.length_append, List.length_map, List.length_map] at lengths
    omega
  have whole : 0 + (ReadBuffer.plain bytes).remaining = bytes.length := Nat.zero_add _
  have course := decodeBuffer_division division whole output
  rw [place] at course
  rw [run, given]
  dsimp only
  rw [course]
  exact ⟨rfl, rfl⟩

theorem run_decode_input {settings : Settings} (someAhead : 0 < settings.readAhead)
    (bounded : settings.readAhead ≤ Memory.maxBytes) {stdin : Script}
    (division : Item.Division stdin.items numbers rest failure) (flag : Bool) :
    (run settings stdin output (.decode none flag)).result =
        verdict (printLines (Decimal.lines numbers) output).1 failure ()
          (.atNumber (numbers.length + 1) failure) ∧
      (run settings stdin output (.decode none flag)).output =
        (printLines (Decimal.lines numbers) output).2 := by
  have opened : ReadAhead.ofReader? settings.readAhead (Polled.mk stdin) =
      some { inner := ⟨stdin⟩, capacity := settings.readAhead } := if_pos ⟨someAhead, bounded⟩
  have course := decodeSource_division division 0 output
  -- Nothing is held at first, so the reader has exactly the items of standard input.
  have nothingHeld :
      ItemSource.items (ReadAhead.mk (Polled.mk stdin) settings.readAhead []) = stdin.items := rfl
  rw [← nothingHeld, decodeSource_items, Nat.zero_add] at course
  rw [run, opened]
  dsimp only
  rw [course]
  rcases printLines (Decimal.lines numbers) output with ⟨fault | _, printed⟩
  · exact ⟨rfl, rfl⟩
  · by_cases clean : failure.isCleanEnd
    · simp only [verdict_of_clean _ _ clean, and_self]
    · simp only [verdict_of_not_clean _ _ clean, and_self]

end

end Command

end CompactInt
