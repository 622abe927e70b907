import CompactInt.Proofs.NormalForm
import CompactInt.Proofs.Text.Hexadecimal

/-! The language of hexadecimal texts that are decoded to their end. Any other text of bytes is
decoded up to the first place where no number can be read, and the failure names it. -/

set_option autoImplicit false

namespace CompactInt

open Varint

namespace Item.Division

variable {numbers : List (List UInt8)} {rest : List Item} {failure : Failure} {bytes : List UInt8}
  (division : Division (bytes.map .byte) numbers rest failure)

include division

theorem exists_bytes : ∃ behind : List UInt8,
    bytes = numbers.flatten ++ behind ∧ rest = behind.map .byte := by
  obtain ⟨front, behind, split, frontEq, behindEq⟩ := List.map_eq_append_iff.1 division.items_eq
  exact ⟨behind, eq_of_map_byte frontEq ▸ split, behindEq.symm⟩

theorem isCleanEnd_iff : failure.isCleanEnd ↔ ∃ values, ConsistsOf bytes values := by
  rw [← isCleanEnd_decoded_iff, division.decoded]

theorem length_numbers_le : numbers.length ≤ bytes.length := by
  have someByte : ∀ size ∈ numbers.map List.length, 1 ≤ size := by
    intro size member
    obtain ⟨number, inside, rfl⟩ := List.mem_map.1 member
    obtain ⟨lead, last, rfl, -⟩ := division.isValue number inside
    rw [List.length_append, List.length_singleton]
    exact Nat.le_add_left 1 lead.length
  calc numbers.length
      = (numbers.map List.length).length := (List.length_map _).symm
    _ ≤ (numbers.map List.length).sum := List.length_le_sum_of_one_le _ someByte
    _ = numbers.flatten.length := List.length_flatten.symm
    _ ≤ bytes.length := division.take_flatten ▸ List.length_take_le' _ bytes

theorem readVarint_behind {buffer : ReadBuffer}
    (behind : buffer.contents = bytes.drop numbers.flatten.length) :
    (ByteSource.readVarint buffer).1 = .error failure := by
  obtain ⟨later, split, restEq⟩ := division.exists_bytes
  have items : ItemSource.items buffer = rest := by
    show buffer.contents.map .byte = rest
    rw [behind, split, List.drop_left, restEq]
  rw [← division.stuck, ← items, ← ByteSource.readVarint_items]
  rfl

theorem length_flatten_lt (unclean : ¬ failure.isCleanEnd) :
    numbers.flatten.length < bytes.length := by
  obtain ⟨later, rfl, rfl⟩ := division.exists_bytes
  rw [List.length_append]
  apply Nat.lt_add_of_pos_right
  apply List.length_pos_iff.2
  rintro rfl
  exact unclean (division.isCleanEnd_iff.2 ⟨numbers, List.append_nil _, division.isValue⟩)

end Item.Division

namespace Command

/-- What decoding a byte string comes to. One line is printed for each number at its front, and
the run succeeds exactly if nothing else follows. Otherwise the fault is located behind the
numbers that are printed, where reading one more number fails in the same way. -/
structure BytesDecoded (bytes : List UInt8) (before : Output) (outcome : Outcome)
    (numbers : List (List UInt8)) : Prop where
  isPrefix : numbers.flatten <+: bytes
  isValue : ∀ number ∈ numbers, IsValue number
  passes_le : numbers.length ≤ bytes.length
  printed : outcome.output =
    { before with printed := before.printed ++ Output.joined (Decimal.lines numbers) }
  success_iff : outcome.result = .ok () ↔ ∃ values, ConsistsOf bytes values
  complete : outcome.result = .ok () → ConsistsOf bytes numbers
  located : outcome.result ≠ .ok () → numbers.flatten.length < bytes.length ∧ ∃ failure,
    outcome.result = .error (.atOffset numbers.flatten.length failure) ∧
      (∀ buffer : ReadBuffer, buffer.contents = bytes.drop numbers.flatten.length →
        (ByteSource.readVarint buffer).1 = .error failure) ∧
      (RunFault.atOffset numbers.flatten.length failure).chain =
        ["failed to decode varint at byte offset " ++ toString numbers.flatten.length,
          failure.message]

structure TextDecoded (text : String) (before : Output) (outcome : Outcome) : Prop where
  refused : ¬ Hex.IsHex (Blank.trim text.toList) → outcome.output = before ∧ ∃ fault,
    Hex.Refused (Blank.trim text.toList) fault ∧ outcome.result = .error (.hex fault) ∧
      (RunFault.hex fault).chain = ["invalid hex input", fault.message]
  decoded : Hex.IsHex (Blank.trim text.toList) → ∃ bytes numbers,
    Hex.Spelling (Blank.trim text.toList) bytes ∧ BytesDecoded bytes before outcome numbers

theorem bytesDecoded_of_division {bytes : List UInt8} {numbers : List (List UInt8)}
    {rest : List Item} {failure : Failure}
    (division : Item.Division (bytes.map .byte) numbers rest failure) {text : String}
    (given : readHex text = .ok bytes) (settings : Settings) (stdin : Script) {before : Output}
    (unlimited : before.quota = none) (flag : Bool) :
    BytesDecoded bytes before (run settings stdin before (.decode (some text) flag)) numbers := by
  obtain ⟨result, printed⟩ := run_decode_text before given division settings stdin flag
  rw [printLines_unlimited _ unlimited] at result printed
  have success : (run settings stdin before (.decode (some text) flag)).result = .ok () ↔
      failure.isCleanEnd := by
    rw [result]
    exact verdict_eq_ok_iff _ _
  constructor
  case isPrefix =>
    obtain ⟨behind, split, -⟩ := division.exists_bytes
    exact ⟨behind, split.symm⟩
  case isValue => exact division.isValue
  case passes_le => exact division.length_numbers_le
  case printed => exact printed
  case success_iff => exact success.trans division.isCleanEnd_iff
  case complete =>
    intro ended
    exact ⟨(division.flatten_of_clean (success.1 ended)).2, division.isValue⟩
  case located =>
    intro failed
    have unclean : ¬ failure.isCleanEnd := mt success.2 failed
    refine ⟨division.length_flatten_lt unclean, failure, ?_, ?_, rfl⟩
    · rw [result]
      exact verdict_of_not_clean _ _ unclean
    · exact fun buffer behind => division.readVarint_behind behind

theorem textDecoded_of_unlimited (text : String) (settings : Settings) (stdin : Script)
    {before : Output} (unlimited : before.quota = none) (flag : Bool) :
    TextDecoded text before (run settings stdin before (.decode (some text) flag)) := by
  rcases readHex_cases text with ⟨hex, bytes, spelled, read⟩ | ⟨foreign, fault, refused, read⟩
  · obtain ⟨numbers, rest, failure, division⟩ := Item.exists_division (bytes.map .byte)
    constructor
    case refused => exact fun foreign => absurd hex foreign
    case decoded =>
      exact fun _ => ⟨bytes, numbers, spelled,
        bytesDecoded_of_division division read settings stdin unlimited flag⟩
  · constructor
    case refused =>
      intro _
      rw [run, read]
      exact ⟨rfl, fault, refused, rfl, rfl⟩
    case decoded => exact fun hex => absurd hex foreign

theorem readHex_of_sameDigits {text other : String} (hex : Hex.IsHex (Blank.trim text.toList))
    (same : Hex.SameDigits text other) : readHex other = readHex text := by
  obtain ⟨bytes, spelled⟩ := Hex.exists_spelling hex
  rw [readHex_of_denotes (Hex.denotes_iff.2 spelled),
    readHex_of_denotes (Hex.denotes_iff.2 (spelled.of_sameDigits same))]

end Command

/-- Every text is decoded or refused as its digits tell, and of a hexadecimal text neither the
letter case nor the blanks around it play a part. -/
theorem textDecoded_run (text : String) (settings : Settings) (stdin : Script) (shown : String)
    (flag : Bool) :
    let before : Output := { printed := shown }
    Command.TextDecoded text before
        (Command.run settings stdin before (.decode (some text) flag)) ∧
      ∀ other, Hex.IsHex (Blank.trim text.toList) → Hex.SameDigits text other →
        Command.run settings stdin before (.decode (some other) flag) =
          Command.run settings stdin before (.decode (some text) flag) := by
  intro before
  constructor
  · exact Command.textDecoded_of_unlimited text settings stdin rfl flag
  · intro other hex same
    rw [Command.run, Command.run, Command.readHex_of_sameDigits hex same]

/-- A number, ten bytes that do not end one, and a number that is never reached. A text that
begins with a number but goes on with a letter beyond ASCII is refused as a whole. -/
theorem textDecoded_run_exhausted :
    let text := "\t8001FFfffffffffffffffFFf05 "
    let other := "8001ffffffffffffffffffff05"
    let outcome (text : String) := Command.run {} [] {} (.decode (some text) false)
    Hex.IsHex (Blank.trim text.toList) ∧ Hex.SameDigits text other ∧
      (outcome text).output.printed = "128\n" ∧
      (outcome text).result = .error (.atOffset 2 (.malformed 10)) ∧
      outcome other = outcome text ∧
      ¬ Hex.IsHex (Blank.trim "05é".toList) ∧ (outcome "05é").output = {} := by
  intro text other outcome
  have hex : Hex.IsHex (Blank.trim text.toList) := by decide +kernel
  have same : Hex.SameDigits text other := by decide +kernel
  have foreign : ¬ Hex.IsHex (Blank.trim "05é".toList) := by decide +kernel
  refine ⟨hex, same, by decide +kernel, by decide +kernel, ?_, foreign, ?_⟩
  · exact (textDecoded_run text {} [] "" false).2 other hex same
  · exact ((textDecoded_run "05é" {} [] "" false).1.refused foreign).1

end CompactInt
