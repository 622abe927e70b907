import CompactInt.Tool.Run
import Mathlib.Data.List.TakeWhile

/-! The hexadecimal texts of a byte string: digits of either letter case, and blanks around them. -/

set_option autoImplicit false

namespace CompactInt

namespace Blank

variable {before text after : List Char}

theorem trimStart_append (blank : ∀ char ∈ before, isBlank char)
    (bare : ∀ char ∈ text, ¬ isBlank char) (someText : text ≠ []) :
    trimStart (before ++ text ++ after) = text ++ after := by
  obtain ⟨char, rest, rfl⟩ := List.exists_cons_of_ne_nil someText
  have stops : ¬ isBlank char := bare char List.mem_cons_self
  rw [trimStart, List.append_assoc, List.dropWhile_append_of_pos blank, List.cons_append,
    List.dropWhile_cons_of_neg stops]

theorem trimEnd_append (blank : ∀ char ∈ after, isBlank char)
    (bare : ∀ char ∈ text, ¬ isBlank char) : trimEnd (text ++ after) = text := by
  rw [trimEnd, List.reverse_append,
    List.dropWhile_append_of_pos fun char member => blank char (List.mem_reverse.1 member)]
  cases reversed : text.reverse with
  | nil => exact (List.reverse_eq_nil_iff.1 reversed).symm
  | cons char rest =>
    have stops : ¬ isBlank char :=
      bare char (List.mem_reverse.1 (reversed ▸ List.mem_cons_self))
    rw [List.dropWhile_cons_of_neg stops, ← reversed, List.reverse_reverse]

theorem trim_append (blankBefore : ∀ char ∈ before, isBlank char)
    (blankAfter : ∀ char ∈ after, isBlank char) (bare : ∀ char ∈ text, ¬ isBlank char) :
    trim (before ++ text ++ after) = text := by
  by_cases someText : text = []
  · -- Without a text the two stretches of blanks are one, and all of it goes at the start.
    subst someText
    have blank : ∀ char ∈ before ++ [] ++ after, isBlank char := by
      simpa using fun char => Or.rec (blankBefore char) (blankAfter char)
    rw [trim, trimStart, List.dropWhile_eq_nil_iff.2 blank]
    rfl
  · rw [trim, trimStart_append blankBefore bare someText, trimEnd_append blankAfter bare]

end Blank

namespace Hex

/-- Digits that spell a byte string, each in a letter case of its own. -/
inductive Spelling : List Char → List UInt8 → Prop where
  | nil : Spelling [] []
  | cons {digits : List Char} {bytes : List UInt8} (high low : HexCase) (byte : UInt8) :
      Spelling digits bytes →
      Spelling (digit high (byte.toNat / 16) :: digit low (byte.toNat % 16) :: digits)
        (byte :: bytes)

theorem spelling_render (letters : HexCase) (bytes : List UInt8) :
    Spelling (render letters bytes) bytes := by
  induction bytes with
  | nil => exact .nil
  | cons byte rest ih => exact .cons letters letters byte ih

/-- A text that spells a byte string, with blanks around the digits. -/
def Denotes (text : String) (bytes : List UInt8) : Prop :=
  ∃ before digits after, text.toList = before ++ digits ++ after ∧
    (∀ char ∈ before, Blank.isBlank char) ∧ (∀ char ∈ after, Blank.isBlank char) ∧
    Spelling digits bytes

theorem denotes_render (letters : HexCase) (bytes : List UInt8) :
    Denotes (String.ofList (render letters bytes)) bytes := by
  refine ⟨[], render letters bytes, [], ?_, nofun, nofun, spelling_render letters bytes⟩
  rw [String.toList_ofList, List.append_nil, List.nil_append]

/-- What a digit is as a character of text, for all thirty-two digits. -/
theorem digit_facts (letters : HexCase) {value : Nat} (small : value < 16) :
    ¬ Blank.isBlank (digit letters value) ∧
      ∃ code, String.utf8EncodeChar (digit letters value) = [code] ∧
        digitValue? code = some (UInt8.ofNat value) := by
  have table : ∀ letters, ∀ value < 16, ¬ Blank.isBlank (digit letters value) ∧
      String.utf8EncodeChar (digit letters value) = [(digit letters value).toNat.toUInt8] ∧
      digitValue? (digit letters value).toNat.toUInt8 = some (UInt8.ofNat value) := by
    intro letters
    cases letters <;> decide
  obtain ⟨bare, code, same⟩ := table letters value small
  exact ⟨bare, _, code, same⟩

theorem halves_lt (byte : UInt8) : byte.toNat / 16 < 16 ∧ byte.toNat % 16 < 16 := by
  have := byte.toNat_lt
  omega

theorem halves_add (byte : UInt8) :
    16 * UInt8.ofNat (byte.toNat / 16) + UInt8.ofNat (byte.toNat % 16) = byte := by
  have bounded := byte.toNat_lt
  rw [← UInt8.toNat_inj, UInt8.toNat_add, UInt8.toNat_mul, UInt8.toNat_ofNat', UInt8.toNat_ofNat']
  simp only [UInt8.reduceToNat]
  omega

theorem Spelling.bare {digits : List Char} {bytes : List UInt8} (spelled : Spelling digits bytes) :
    ∀ char ∈ digits, ¬ Blank.isBlank char := by
  induction spelled with
  | nil => exact nofun
  | cons high low byte _ ih =>
    have ⟨highSmall, lowSmall⟩ := halves_lt byte
    exact List.forall_mem_cons.2
      ⟨(digit_facts high highSmall).1, List.forall_mem_cons.2 ⟨(digit_facts low lowSmall).1, ih⟩⟩

theorem Spelling.exists_code {digits : List Char} {bytes : List UInt8}
    (spelled : Spelling digits bytes) :
    ∀ char ∈ digits, ∃ code, String.utf8EncodeChar char = [code] ∧ (digitValue? code).isSome := by
  have coded (letters : HexCase) {value : Nat} (small : value < 16) : ∃ code,
      String.utf8EncodeChar (digit letters value) = [code] ∧ (digitValue? code).isSome := by
    obtain ⟨-, code, alone, known⟩ := digit_facts letters small
    exact ⟨code, alone, Option.isSome_of_eq_some known⟩
  induction spelled with
  | nil => exact nofun
  | cons high low byte _ ih =>
    have ⟨highSmall, lowSmall⟩ := halves_lt byte
    exact List.forall_mem_cons.2
      ⟨coded high highSmall, List.forall_mem_cons.2 ⟨coded low lowSmall, ih⟩⟩

theorem Spelling.readPairs {digits : List Char} {bytes : List UInt8}
    (spelled : Spelling digits bytes) (position : Nat) :
    readPairs position (digits.flatMap String.utf8EncodeChar) = .ok bytes := by
  induction spelled generalizing position with
  | nil => rfl
  | cons high low byte _ ih =>
    have ⟨highSmall, lowSmall⟩ := halves_lt byte
    obtain ⟨_, highCode, highBytes, highValue⟩ := digit_facts high highSmall
    obtain ⟨_, lowCode, lowBytes, lowValue⟩ := digit_facts low lowSmall
    simp only [List.flatMap_cons, highBytes, lowBytes, List.cons_append, List.nil_append]
    rw [Hex.readPairs, highValue, lowValue]
    dsimp only
    rw [ih, halves_add]
    rfl

theorem Spelling.length_utf8 {digits : List Char} {bytes : List UInt8}
    (spelled : Spelling digits bytes) :
    (digits.flatMap String.utf8EncodeChar).length = 2 * bytes.length := by
  induction spelled with
  | nil => rfl
  | cons high low byte _ ih =>
    have ⟨highSmall, lowSmall⟩ := halves_lt byte
    obtain ⟨_, highCode, highBytes, _⟩ := digit_facts high highSmall
    obtain ⟨_, lowCode, lowBytes, _⟩ := digit_facts low lowSmall
    simp only [List.flatMap_cons, highBytes, lowBytes, List.cons_append, List.nil_append,
      List.length_cons, ih]
    omega

theorem Spelling.read {digits : List Char} {bytes : List UInt8} (spelled : Spelling digits bytes) :
    read digits = .ok bytes := by
  rw [Hex.read, readBytes, spelled.length_utf8, if_neg (by omega), spelled.readPairs]

end Hex

theorem Command.readHex_of_denotes {text : String} {bytes : List UInt8}
    (denotes : Hex.Denotes text bytes) : readHex text = .ok bytes := by
  obtain ⟨before, digits, after, shape, blankBefore, blankAfter, spelled⟩ := denotes
  rw [readHex, shape, Blank.trim_append blankBefore blankAfter spelled.bare, spelled.read]

end CompactInt
