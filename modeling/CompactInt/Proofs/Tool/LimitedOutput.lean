import CompactInt.Proofs.Tool.Printing

/-! Commands that run out of output show the first bytes of what an unlimited output would show, and
end with the error of the output. -/

set_option autoImplicit false

namespace CompactInt

def Output.bytes (output : Output) : List UInt8 :=
  output.printed.toList.flatMap String.utf8EncodeChar

/-! ## Characters of one byte -/

def SingleByte (text : List Char) : Prop :=
  ∀ char ∈ text, ∃ code, String.utf8EncodeChar char = [code]

namespace SingleByte

variable {text : List Char}

theorem length_utf8 (single : SingleByte text) :
    (text.flatMap String.utf8EncodeChar).length = text.length := by
  induction text with
  | nil => rfl
  | cons char rest ih =>
    obtain ⟨⟨code, alone⟩, others⟩ := List.forall_mem_cons.1 single
    rw [List.flatMap_cons, alone, List.singleton_append, List.length_cons, List.length_cons,
      ih others]

theorem utf8_take (single : SingleByte text) (count : Nat) :
    (text.take count).flatMap String.utf8EncodeChar =
      (text.flatMap String.utf8EncodeChar).take count := by
  induction text generalizing count with
  | nil => rw [List.take_nil, List.flatMap_nil, List.take_nil]
  | cons char rest ih =>
    cases count with
    | zero => rfl
    | succ count =>
      obtain ⟨⟨code, alone⟩, others⟩ := List.forall_mem_cons.1 single
      rw [List.take_succ_cons, List.flatMap_cons, List.flatMap_cons, alone, ih others]
      rfl

end SingleByte

theorem Hex.singleByte_render (letters : HexCase) (bytes : List UInt8) :
    SingleByte (render letters bytes) := by
  intro char member
  obtain ⟨code, alone, -⟩ := (spelling_render letters bytes).exists_code char member
  exact ⟨code, alone⟩

theorem Decimal.singleByte_render (value : Nat) : SingleByte (render value) := by
  intro char member
  have digit := Nat.isDigit_of_mem_toDigits (by decide) (by decide) member
  have oneByte : char.utf8Size = 1 := by
    simp only [Char.isDigit, Bool.and_eq_true, decide_eq_true_eq] at digit
    exact Char.utf8Size_eq_one_iff.2 (UInt32.le_trans digit.2 (by decide))
  exact ⟨_, String.utf8EncodeChar_eq_singleton oneByte⟩

theorem Decimal.singleByte_lines (numbers : List (List UInt8)) :
    ∀ line ∈ lines numbers, SingleByte line := by
  intro line member
  obtain ⟨bytes, -, rfl⟩ := List.mem_map.1 member
  exact singleByte_render _

theorem Output.singleByte_joined {lines : List (List Char)}
    (single : ∀ line ∈ lines, SingleByte line) : SingleByte (joined lines).toList := by
  intro char member
  rw [joined, String.toList_ofList] at member
  obtain ⟨line, lineMember, inside⟩ := List.mem_flatMap.1 member
  rcases List.mem_append.1 inside with digit | lineEnd
  · exact single line lineMember char digit
  · rw [List.mem_singleton.1 lineEnd]
    exact ⟨10, by decide⟩

namespace Command

/-! ## Every command prints lines -/

theorem exists_prints (settings : Settings) (stdin : Script) (command : Command) :
    ∃ lines ending, Prints settings stdin command lines ending ∧
      ∀ line ∈ lines, SingleByte line := by
  cases command with
  | encode values =>
    refine ⟨_, _, prints_encode settings stdin values, ?_⟩
    intro line member
    obtain ⟨value, -, rfl⟩ := List.mem_map.1 member
    exact Hex.singleByte_render _ _
  | decode hex flag =>
    cases hex with
    | some text =>
      cases read : readHex text with
      | error fault =>
        exact ⟨_, _, prints_nothing settings stdin fun output => by rw [run, read], nofun⟩
      | ok bytes =>
        obtain ⟨numbers, rest, failure, division⟩ := Item.exists_division (bytes.map .byte)
        exact ⟨_, _, prints_decode_text settings stdin read division flag,
          Decimal.singleByte_lines numbers⟩
    | none =>
      by_cases possible : 0 < settings.readAhead ∧ settings.readAhead ≤ Memory.maxBytes
      · obtain ⟨numbers, rest, failure, division⟩ := Item.exists_division stdin.items
        exact ⟨_, _, prints_decode_input possible.1 possible.2 division flag,
          Decimal.singleByte_lines numbers⟩
      · -- A run that cannot be set up has no lines, and its failure is its ending.
        have closed : ReadAhead.ofReader? settings.readAhead (Polled.mk stdin) = none :=
          if_neg possible
        exact ⟨_, _, prints_nothing settings stdin fun output => by rw [run, closed], nofun⟩
  | packShort value =>
    cases packed : PackedShort.pack value with
    | error failure =>
      exact ⟨_, _, prints_nothing settings stdin fun output => by
        rw [run, Writer.writeShort_blank, packed], nofun⟩
    | ok bytes =>
      refine ⟨_, _, prints_line settings stdin fun output => by
        rw [run, Writer.writeShort_blank, packed], ?_⟩
      exact List.forall_mem_singleton.2 (Hex.singleByte_render settings.letters bytes)
  | unpackShort text =>
    cases unpacked : unpack text with
    | error fault =>
      exact ⟨_, _, prints_nothing settings stdin fun output => by rw [run, unpacked], nofun⟩
    | ok value =>
      refine ⟨_, _, prints_line settings stdin fun output => by rw [run, unpacked], ?_⟩
      exact List.forall_mem_singleton.2 (Decimal.singleByte_render value.toNat)

end Command

/-- An output with limited room shows the first bytes of what would be printed without a limit.
The run ends as without a limit if all of them get through, and with the error of the output
otherwise. -/
theorem run_limited (settings : Settings) (stdin : Script) (command : Command) (room : Nat)
    (fault : IoError) :
    let unlimited := command.run settings stdin {}
    let limited := command.run settings stdin { quota := some ⟨room, fault⟩ }
    (unlimited.output.bytes.length ≤ room →
      limited.output.bytes = unlimited.output.bytes ∧ limited.result = unlimited.result) ∧
    (room < unlimited.output.bytes.length →
      limited.output.bytes = unlimited.output.bytes.take room ∧
        limited.result = .error (.output fault) ∧
        (RunFault.output fault).chain = [fault.text]) := by
  intro unlimited limited
  obtain ⟨lines, ending, prints, single⟩ := Command.exists_prints settings stdin command
  obtain ⟨printed, result⟩ := prints.unlimited
  obtain ⟨limitedPrinted, limitedResult⟩ := prints.limited ⟨room, fault⟩
  -- With one byte for each character, the cut in the text is the cut in its bytes.
  have oneByte := Output.singleByte_joined single
  have whole : unlimited.output.bytes =
      (Output.joined lines).toList.flatMap String.utf8EncodeChar := by
    rw [Output.bytes, printed]
  have front : limited.output.bytes = unlimited.output.bytes.take room := by
    rw [Output.bytes, limitedPrinted, String.toList_ofList, oneByte.utf8_take, ← whole]
  have size : (Output.joined lines).toList.length = unlimited.output.bytes.length := by
    rw [whole, oneByte.length_utf8]
  rw [size] at limitedResult
  constructor
  · intro fits
    rw [if_pos fits] at limitedResult
    exact ⟨front.trans (List.take_of_length_le fits), limitedResult.trans result.symm⟩
  · intro unfit
    rw [if_neg (Nat.not_le.2 unfit)] at limitedResult
    exact ⟨front, limitedResult, rfl⟩

/-- A number with a torn one behind it. If the line gets through, the run meets the torn number;
if only its line end does not, the run ends with the output. -/
theorem run_limited_torn :
    let full : Output := { quota := some ⟨4, .ofKind .brokenPipe⟩ }
    let short : Output := { quota := some ⟨3, .ofKind .brokenPipe⟩ }
    (Command.run {} [] {} (.decode (some "8001ff") false)).output.bytes = [49, 50, 56, 10] ∧
      (Command.run {} [] full (.decode (some "8001ff") false)).output.bytes = [49, 50, 56, 10] ∧
      (Command.run {} [] full (.decode (some "8001ff") false)).result =
        .error (.atOffset 2 (.unexpectedEnd 1)) ∧
      (Command.run {} [] short (.decode (some "8001ff") false)).output.bytes = [49, 50, 56] ∧
      (Command.run {} [] short (.decode (some "8001ff") false)).result =
        .error (.output (.ofKind .brokenPipe)) := by
  intro full short
  have bytes : (Command.run {} [] {} (.decode (some "8001ff") false)).output.bytes =
      [49, 50, 56, 10] := by decide +kernel
  have result : (Command.run {} [] {} (.decode (some "8001ff") false)).result =
      .error (.atOffset 2 (.unexpectedEnd 1)) := by decide +kernel
  have four := (run_limited {} [] (.decode (some "8001ff") false) 4 (.ofKind .brokenPipe)).1
  have three := (run_limited {} [] (.decode (some "8001ff") false) 3 (.ofKind .brokenPipe)).2
  rw [bytes] at four three
  obtain ⟨whole, ended⟩ := four (by decide)
  obtain ⟨front, failed, -⟩ := three (by decide)
  exact ⟨bytes, whole, ended.trans result, front, failed⟩

end CompactInt
