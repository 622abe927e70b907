import CompactInt.Proofs.Text.Spelling
import CompactInt.Proofs.Tool.Printing

/-! Byte strings that follow one another. A regular end lets decoding start anew with what follows;
ten bytes that do not end a number make it of no account. -/

set_option autoImplicit false

namespace CompactInt

open Varint

def Varint.decoded (bytes : List UInt8) : List UInt32 × Failure :=
  ByteSource.readVarints (ReadBuffer.plain bytes)

namespace Item

/-! ## The items at the front of a longer list -/

theorem lead_prefix_append (items later : List Item) : lead items <+: lead (items ++ later) := by
  fun_induction lead items with
  | case1 value rest continues ih =>
    rw [List.cons_append, lead, if_pos continues]
    exact (List.prefix_cons_inj value).2 ih
  | case2 value rest ends => exact List.nil_prefix
  | case3 items other => exact List.nil_prefix

theorem exhausted_iff {items : List Item} :
    (ByteSource.readVarint items).1 = .error (.malformed 10) ↔ 10 ≤ (lead items).length := by
  constructor
  · intro failed
    by_contra few
    have few : (lead items).length ≤ 9 := by omega
    -- An end within ten bytes is told with their number, and that is smaller.
    rw [readVarint_of_end few (ended_of_readVarint_error few failed nofun)] at failed
    split at failed
    · cases failed
    · have allTen := Failure.malformed.inj (Except.error.inj failed)
      omega
  · intro long
    rw [readVarint_of_exhausted long]

namespace Division

variable {items later rest rest' : List Item} {numbers numbers' : List (List UInt8)}
  {failure failure' : Failure} {bytes : List UInt8}

/-- The numbers at the front stay what they are; only what they leave is divided anew. -/
theorem append (front : Division items numbers rest failure)
    (back : Division (rest ++ later) numbers' rest' failure') :
    Division (items ++ later) (numbers ++ numbers') rest' failure' where
  items_eq := by
    rw [front.items_eq, List.append_assoc, back.items_eq, List.flatten_append, List.map_append,
      List.append_assoc]
  isValue := List.forall_mem_append.2 ⟨front.isValue, back.isValue⟩
  stuck := back.stuck

theorem flatten_of_clean (division : Division (bytes.map .byte) numbers rest failure)
    (clean : failure.isCleanEnd) : rest = [] ∧ bytes = numbers.flatten := by
  have ended := (isCleanEnd_readVarint_iff rest).1 ⟨failure, division.stuck, clean⟩
  have nothing : rest = [] := by
    cases rest with
    | nil => rfl
    | cons item rest =>
      have member : item ∈ bytes.map .byte := by rw [division.items_eq]; simp
      obtain ⟨byte, -, rfl⟩ := List.mem_map.1 member
      simp at ended
  refine ⟨nothing, eq_of_map_byte ?_⟩
  rw [division.items_eq, nothing, List.append_nil]

theorem append_of_clean (front : Division (bytes.map .byte) numbers rest failure)
    (clean : failure.isCleanEnd) (back : Division later numbers' rest' failure') :
    Division (bytes.map .byte ++ later) (numbers ++ numbers') rest' failure' := by
  obtain ⟨rfl, -⟩ := front.flatten_of_clean clean
  exact front.append back

theorem append_of_exhausted (front : Division items numbers rest (.malformed 10))
    (later : List Item) :
    Division (items ++ later) numbers (rest ++ later) (.malformed 10) := by
  have long := exhausted_iff.1 front.stuck
  have longer := long.trans (lead_prefix_append rest later).length_le
  have back := front.append (.nil (exhausted_iff.2 longer))
  rwa [List.append_nil] at back

theorem decoded (division : Division (bytes.map .byte) numbers rest failure) :
    Varint.decoded bytes = (numbers.map denoted, failure) := by
  rw [Varint.decoded, ← ByteSource.readVarints_items]
  exact division.readVarints

end Division

end Item

theorem ByteSource.readVarints_eq_decoded {σ : Type} [ByteSource σ] [ItemSource σ] {source : σ}
    {bytes : List UInt8} (delivered : ItemSource.items source = bytes.map .byte) :
    readVarints source = decoded bytes := by
  rw [decoded, ← readVarints_items source, delivered]
  exact readVarints_items (ReadBuffer.plain bytes)

structure Varint.Composed (first second whole : List UInt32 × Failure) : Prop where
  frontValues : first.1 <+: whole.1
  eq_of_clean : first.2.isCleanEnd → whole = (first.1 ++ second.1, second.2)
  eq_of_exhausted : first.2 = .malformed 10 → whole = first

theorem Varint.composed_append (first second : List UInt8) :
    Composed (decoded first) (decoded second) (decoded (first ++ second)) := by
  obtain ⟨numbers, rest, failure, front⟩ := Item.exists_division (first.map .byte)
  have wholeDecoded {numbers : List (List UInt8)} {rest : List Item} {failure : Failure}
      (whole : Item.Division (first.map .byte ++ second.map .byte) numbers rest failure) :
      decoded (first ++ second) = (numbers.map denoted, failure) :=
    Item.Division.decoded (List.map_append ▸ whole)
  rw [front.decoded]
  constructor
  case frontValues =>
    obtain ⟨more, _, _, back⟩ := Item.exists_division (rest ++ second.map .byte)
    rw [wholeDecoded (front.append back), List.map_append]
    exact List.prefix_append _ _
  case eq_of_clean =>
    intro clean
    obtain ⟨more, _, failure', back⟩ := Item.exists_division (second.map .byte)
    rw [wholeDecoded (front.append_of_clean clean back), back.decoded, List.map_append]
  case eq_of_exhausted =>
    rintro rfl
    exact wholeDecoded (front.append_of_exhausted _)

/-- The place of a fault in a text, when so many bytes are put in front of the text. -/
def RunFault.shifted (count : Nat) : RunFault → RunFault
  | atOffset offset failure => atOffset (count + offset) failure
  | fault => fault

namespace Command

structure Composed (length : Nat) (failure : Failure) (first second whole : Outcome) : Prop where
  frontPrinted : ∃ more, whole.output.printed = first.output.printed ++ more
  eq_of_clean : failure.isCleanEnd →
    whole.output.printed = first.output.printed ++ second.output.printed ∧
      whole.result = second.result.mapError (.shifted length)
  eq_of_exhausted : failure = .malformed 10 →
    whole.output.printed = first.output.printed ∧ whole.result = first.result

variable {firstText secondText text : String} {first second : List UInt8}

theorem composed_run (denotesFirst : Hex.Denotes firstText first)
    (denotesSecond : Hex.Denotes secondText second)
    (denotesWhole : Hex.Denotes text (first ++ second)) (settings : Settings) (stdin : Script)
    (flag : Bool) :
    Composed first.length (decoded first).2
      (run settings stdin {} (.decode (some firstText) flag))
      (run settings stdin {} (.decode (some secondText) flag))
      (run settings stdin {} (.decode (some text) flag)) := by
  obtain ⟨numbers, rest, failure, front⟩ := Item.exists_division (first.map .byte)
  have firstRun :=
    (prints_decode_text settings stdin (readHex_of_denotes denotesFirst) front flag).unlimited
  have wholeRun {numbers : List (List UInt8)} {rest : List Item} {failure : Failure}
      (whole : Item.Division (first.map .byte ++ second.map .byte) numbers rest failure) :=
    (prints_decode_text settings stdin (readHex_of_denotes denotesWhole)
      (List.map_append ▸ whole) flag).unlimited
  obtain ⟨printed, result⟩ := firstRun
  rw [front.decoded]
  constructor
  case frontPrinted =>
    -- The front may end inside a number, so only its whole numbers are kept, and what they
    -- leave is divided anew with the bytes behind it.
    obtain ⟨more, _, _, back⟩ := Item.exists_division (rest ++ second.map .byte)
    obtain ⟨wholePrinted, -⟩ := wholeRun (front.append back)
    refine ⟨Output.joined (Decimal.lines more), ?_⟩
    rw [wholePrinted, printed, Decimal.lines_append, Output.joined_append]
  case eq_of_clean =>
    intro clean
    obtain ⟨more, _, failure', back⟩ := Item.exists_division (second.map .byte)
    obtain ⟨secondPrinted, secondResult⟩ :=
      (prints_decode_text settings stdin (readHex_of_denotes denotesSecond) back flag).unlimited
    obtain ⟨wholePrinted, wholeResult⟩ := wholeRun (front.append_of_clean clean back)
    obtain ⟨-, exactly⟩ := front.flatten_of_clean clean
    constructor
    · rw [wholePrinted, printed, secondPrinted, Decimal.lines_append, Output.joined_append]
    · rw [wholeResult, secondResult, exactly, List.flatten_append, List.length_append]
      split
      · rfl
      · rfl
  case eq_of_exhausted =>
    rintro rfl
    obtain ⟨wholePrinted, wholeResult⟩ := wholeRun (front.append_of_exhausted _)
    rw [wholePrinted, printed, wholeResult, result]
    exact ⟨rfl, rfl⟩

end Command

/-- Numbers decoded of a front part are never taken back. Behind a regular end decoding starts
anew with what follows, and behind ten bytes without an end it stays with the failure. -/
theorem decoded_composed (first second : List UInt8) :
    Varint.Composed (decoded first) (decoded second) (decoded (first ++ second)) ∧
    (∀ {σ : Type} [ByteSource σ] [ItemSource σ] (source : σ) (bytes : List UInt8),
      ItemSource.items source = bytes.map .byte →
        ByteSource.readVarints source = decoded bytes) ∧
    ∀ (firstText secondText text : String) (settings : Settings) (stdin : Script) (flag : Bool),
      Hex.Denotes firstText first → Hex.Denotes secondText second →
      Hex.Denotes text (first ++ second) →
        Command.Composed first.length (decoded first).2
          (Command.run settings stdin {} (.decode (some firstText) flag))
          (Command.run settings stdin {} (.decode (some secondText) flag))
          (Command.run settings stdin {} (.decode (some text) flag)) := by
  refine ⟨Varint.composed_append first second, fun _ _ => ByteSource.readVarints_eq_decoded, ?_⟩
  intro firstText secondText text settings stdin flag denotesFirst denotesSecond denotesWhole
  exact Command.composed_run denotesFirst denotesSecond denotesWhole settings stdin flag

/-- The first three bytes are two numbers, and the second of the two bytes behind them is torn
off: alone at offset one, and at offset four in the whole. -/
theorem decoded_composed_resumed :
    Hex.Denotes "018001" [0x01, 0x80, 0x01] ∧ Hex.Denotes "05fF" [0x05, 0xff] ∧
      Hex.Denotes "01800105FF" [0x01, 0x80, 0x01, 0x05, 0xff] ∧
      decoded [0x01, 0x80, 0x01] = ([1, 128], .unexpectedEnd 0) ∧
      decoded [0x01, 0x80, 0x01, 0x05, 0xff] = ([1, 128, 5], .unexpectedEnd 1) ∧
      (Command.run {} [] {} (.decode (some "05fF") false)).result =
        .error (.atOffset 1 (.unexpectedEnd 1)) ∧
      (Command.run {} [] {} (.decode (some "01800105FF") false)).result =
        .error (.atOffset 4 (.unexpectedEnd 1)) ∧
      (Command.run {} [] {} (.decode (some "01800105FF") false)).output.printed =
        "1\n128\n5\n" := by
  have denotesFirst : Hex.Denotes "018001" [0x01, 0x80, 0x01] :=
    Hex.denotes_render .lower [0x01, 0x80, 0x01]
  have denotesSecond : Hex.Denotes "05fF" [0x05, 0xff] :=
    ⟨[], ['0', '5', 'f', 'F'], [], by decide, nofun, nofun,
      .cons .lower .lower 0x05 (.cons .lower .upper 0xff .nil)⟩
  have denotesWhole : Hex.Denotes "01800105FF" [0x01, 0x80, 0x01, 0x05, 0xff] :=
    Hex.denotes_render .upper [0x01, 0x80, 0x01, 0x05, 0xff]
  have firstDecoded : decoded [0x01, 0x80, 0x01] = ([1, 128], .unexpectedEnd 0) := by
    decide +kernel
  have secondDecoded : decoded [0x05, 0xff] = ([5], .unexpectedEnd 1) := by decide +kernel
  have secondResult : (Command.run {} [] {} (.decode (some "05fF") false)).result =
      .error (.atOffset 1 (.unexpectedEnd 1)) := by decide +kernel
  have firstPrinted : (Command.run {} [] {} (.decode (some "018001") false)).output.printed =
      "1\n128\n" := by decide +kernel
  have secondPrinted : (Command.run {} [] {} (.decode (some "05fF") false)).output.printed =
      "5\n" := by decide +kernel
  -- The whole is not computed: it follows from the two parts.
  obtain ⟨values, -, tool⟩ := decoded_composed [0x01, 0x80, 0x01] [0x05, 0xff]
  have clean : (decoded [0x01, 0x80, 0x01]).2.isCleanEnd := by rw [firstDecoded]; rfl
  have whole := values.eq_of_clean clean
  obtain ⟨printed, result⟩ :=
    (tool _ _ _ {} [] false denotesFirst denotesSecond denotesWhole).eq_of_clean clean
  rw [firstDecoded, secondDecoded] at whole
  rw [secondResult] at result
  rw [firstPrinted, secondPrinted] at printed
  exact ⟨denotesFirst, denotesSecond, denotesWhole, firstDecoded, whole, secondResult, result,
    printed⟩

end CompactInt
