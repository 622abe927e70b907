import CompactInt.Proofs.Text.Spelling
import Mathlib.Data.List.Induction

/-! Which texts are hexadecimal, and why others are refused: the number of bytes is looked at first,
and then the first byte that is no digit. -/

set_option autoImplicit false

namespace CompactInt

theorem Blank.exists_trim (text : List Char) :
    ∃ before after, text = before ++ trim text ++ after ∧
      (∀ char ∈ before, isBlank char) ∧ ∀ char ∈ after, isBlank char := by
  refine ⟨text.takeWhile isBlank, ((trimStart text).reverse.takeWhile isBlank).reverse, ?_, ?_, ?_⟩
  · have behind : trim text ++ ((trimStart text).reverse.takeWhile isBlank).reverse =
        trimStart text := by
      rw [trim, trimEnd, ← List.reverse_append, List.takeWhile_append_dropWhile,
        List.reverse_reverse]
    rw [List.append_assoc, behind, trimStart, List.takeWhile_append_dropWhile]
  · exact fun char member => List.mem_takeWhile_imp member
  · exact fun char member => List.mem_takeWhile_imp (List.mem_reverse.1 member)

namespace Hex

/-! ## Digits -/

def IsDigit (char : Char) : Prop :=
  ('0' ≤ char ∧ char ≤ '9') ∨ ('a' ≤ char ∧ char ≤ 'f') ∨ ('A' ≤ char ∧ char ≤ 'F')

instance : DecidablePred IsDigit := fun _ => inferInstanceAs (Decidable (_ ∨ _ ∨ _))

def IsDigitCode (code : UInt8) : Prop := IsDigit (Char.ofNat code.toNat)

instance : DecidablePred IsDigitCode := fun _ => inferInstanceAs (Decidable (IsDigit _))

/-- What holds of the 128 characters of ASCII one by one. -/
theorem forall_ascii {P : Char → Prop} (table : ∀ code < 128, P (Char.ofNat code)) {char : Char}
    (ascii : char.toNat < 128) : P char := by
  have entry := table char.toNat ascii
  rwa [Char.ofNat_toNat] at entry

theorem toNat_lt_of_isDigit {char : Char} (isDigit : IsDigit char) : char.toNat < 128 := by
  have below {last : Char} (within : char ≤ last) (ascii : last.toNat < 128) :
      char.toNat < 128 := Nat.lt_of_le_of_lt (UInt32.le_iff_toNat_le.1 within) ascii
  rcases isDigit with ⟨-, last⟩ | ⟨-, last⟩ | ⟨-, last⟩
  · exact below last (by decide)
  · exact below last (by decide)
  · exact below last (by decide)

theorem isDigit_digit (letters : HexCase) {value : Nat} (small : value < 16) :
    IsDigit (digit letters value) := by
  have table : ∀ value < 16, IsDigit (digit letters value) := by cases letters <;> decide
  exact table value small

theorem exists_digit {char : Char} (isDigit : IsDigit char) :
    ∃ letters, ∃ value < 16, char = digit letters value := by
  have shape : IsDigit char → ∃ value < 16,
      char = digit .lower value ∨ char = digit .upper value := by
    apply forall_ascii _ (toNat_lt_of_isDigit isDigit)
    decide +kernel
  obtain ⟨value, small, lower | upper⟩ := shape isDigit
  · exact ⟨.lower, value, small, lower⟩
  · exact ⟨.upper, value, small, upper⟩

theorem isSome_digitValue?_iff (code : UInt8) : (digitValue? code).isSome ↔ IsDigitCode code := by
  have table : ∀ code < 256, (digitValue? (UInt8.ofNat code)).isSome ↔
      IsDigitCode (UInt8.ofNat code) := by
    decide +kernel
  have entry := table code.toNat code.toNat_lt
  rwa [UInt8.ofNat_toNat] at entry

theorem exists_code_of_not_ascii {char : Char} (beyond : 127 < char.toNat) :
    ∃ code ∈ String.utf8EncodeChar char, ¬ IsDigitCode code := by
  -- The last of several bytes has six bits of the character behind a fixed top bit.
  refine ⟨UInt8.ofNat (char.val.toNat % 64 + 128), ?_, ?_⟩
  · have notSingle : ¬ char.val.toNat ≤ 127 := Nat.not_le.2 beyond
    unfold String.utf8EncodeChar
    simp only [notSingle, ↓reduceIte]
    split
    · simp
    · split <;> simp
  · intro isDigit
    have ascii := toNat_lt_of_isDigit isDigit
    have table : ∀ low < 64, ¬ (Char.ofNat (UInt8.ofNat (low + 128)).toNat).toNat < 128 := by
      decide
    exact table _ (Nat.mod_lt _ (by decide)) ascii

theorem isDigit_iff_utf8 (char : Char) :
    IsDigit char ↔ ∀ code ∈ String.utf8EncodeChar char, IsDigitCode code := by
  rcases Nat.lt_or_ge 127 char.toNat with beyond | ascii
  · obtain ⟨code, member, noDigit⟩ := exists_code_of_not_ascii beyond
    constructor
    · intro isDigit
      exact absurd (toNat_lt_of_isDigit isDigit) (by omega)
    · exact fun digits => absurd (digits code member) noDigit
  · apply forall_ascii _ (Nat.lt_succ_of_le ascii)
    decide +kernel

/-! ## Texts that are hexadecimal -/

def codes (text : List Char) : List UInt8 := text.flatMap String.utf8EncodeChar

/-- An even number of digits, counted in bytes, and nothing else. -/
structure IsHex (text : List Char) : Prop where
  even : (codes text).length % 2 = 0
  digits : ∀ char ∈ text, IsDigit char

instance : DecidablePred IsHex := fun text =>
  decidable_of_iff ((codes text).length % 2 = 0 ∧ text.all (IsDigit ·))
    ⟨fun ⟨even, digits⟩ => ⟨even, by simpa using digits⟩,
      fun hex => ⟨hex.even, by simpa using hex.digits⟩⟩

theorem isHex_of_spelling {text : List Char} {bytes : List UInt8} (spelled : Spelling text bytes) :
    IsHex text where
  even := by rw [codes, spelled.length_utf8, Nat.mul_mod_right]
  digits := by
    induction spelled with
    | nil => exact nofun
    | cons high low byte _ ih =>
      have ⟨highSmall, lowSmall⟩ := halves_lt byte
      exact List.forall_mem_cons.2
        ⟨isDigit_digit high highSmall, List.forall_mem_cons.2 ⟨isDigit_digit low lowSmall, ih⟩⟩

theorem halves_ofNat {high low : Nat} (highSmall : high < 16) (lowSmall : low < 16) :
    (UInt8.ofNat (16 * high + low)).toNat / 16 = high ∧
      (UInt8.ofNat (16 * high + low)).toNat % 16 = low := by
  have whole : (UInt8.ofNat (16 * high + low)).toNat = 16 * high + low := by
    rw [UInt8.toNat_ofNat', Nat.mod_eq_of_lt (by omega)]
  omega

theorem length_codes {text : List Char} (digits : ∀ char ∈ text, IsDigit char) :
    (codes text).length = text.length := by
  induction text with
  | nil => rfl
  | cons char rest ih =>
    obtain ⟨first, others⟩ := List.forall_mem_cons.1 digits
    obtain ⟨letters, value, small, rfl⟩ := exists_digit first
    obtain ⟨-, code, single, -⟩ := digit_facts letters small
    rw [codes, List.flatMap_cons, single, List.singleton_append, List.length_cons,
      List.length_cons, ← ih others, codes]

theorem exists_spelling {text : List Char} (hex : IsHex text) : ∃ bytes, Spelling text bytes := by
  obtain ⟨even, digits⟩ := hex
  rw [length_codes digits] at even
  induction text using List.twoStepInduction with
  | nil => exact ⟨[], .nil⟩
  | singleton char => cases even
  | cons_cons first second rest ih _ =>
    obtain ⟨firstDigit, later⟩ := List.forall_mem_cons.1 digits
    obtain ⟨secondDigit, restDigits⟩ := List.forall_mem_cons.1 later
    obtain ⟨one, high, highSmall, rfl⟩ := exists_digit firstDigit
    obtain ⟨other, low, lowSmall, rfl⟩ := exists_digit secondDigit
    rw [List.length_cons, List.length_cons, Nat.add_assoc, Nat.add_mod_right] at even
    obtain ⟨bytes, spelled⟩ := ih even restDigits
    obtain ⟨highHalf, lowHalf⟩ := halves_ofNat highSmall lowSmall
    refine ⟨UInt8.ofNat (16 * high + low) :: bytes, ?_⟩
    have pair := Spelling.cons one other (UInt8.ofNat (16 * high + low)) spelled
    rwa [highHalf, lowHalf] at pair

/-! ## Texts that are refused -/

/-- Why a text is refused: for the number of its bytes, or else for the first of them that is no
digit. -/
inductive Refused (text : List Char) : HexFault → Prop where
  | oddLength : (codes text).length % 2 = 1 → Refused text .oddLength
  | invalidDigit {front rest : List UInt8} {byte : UInt8} :
      (codes text).length % 2 = 0 → codes text = front ++ byte :: rest →
      (∀ code ∈ front, IsDigitCode code) → ¬ IsDigitCode byte →
      Refused text (.invalidDigit byte front.length)

theorem isDigitCode_of_digitValue? {code value : UInt8} (known : digitValue? code = some value) :
    IsDigitCode code :=
  (isSome_digitValue?_iff code).1 (Option.isSome_of_eq_some known)

theorem not_isDigitCode_of_digitValue? {code : UInt8} (unknown : digitValue? code = none) :
    ¬ IsDigitCode code := by
  rw [← isSome_digitValue?_iff, unknown]
  exact Bool.false_ne_true

/-- Pairs are read up to the first byte that is no digit, on whichever side of its pair. -/
theorem readPairs_cases (position : Nat) {codes : List UInt8} (even : codes.length % 2 = 0) :
    (∀ code ∈ codes, IsDigitCode code) ∨
      ∃ front byte rest, codes = front ++ byte :: rest ∧ (∀ code ∈ front, IsDigitCode code) ∧
        ¬ IsDigitCode byte ∧
        readPairs position codes = .error (.invalidDigit byte (position + front.length)) := by
  fun_induction readPairs position codes with
  | case1 position => exact .inl nofun
  | case2 position last => cases even
  | case3 position first second rest bad =>
    exact .inr ⟨[], first, second :: rest, rfl, nofun, not_isDigitCode_of_digitValue? bad, rfl⟩
  | case4 position first second rest high bad good =>
    exact .inr ⟨[first], second, rest, rfl,
      List.forall_mem_singleton.2 (isDigitCode_of_digitValue? good),
      not_isDigitCode_of_digitValue? bad, rfl⟩
  | case5 position first second rest high low secondGood firstGood ih =>
    -- The pair is good, so the first bad byte is that of the rest, two places further on.
    have firstDigit := isDigitCode_of_digitValue? firstGood
    have secondDigit := isDigitCode_of_digitValue? secondGood
    rw [List.length_cons, List.length_cons] at even
    rcases ih (by omega) with digits | ⟨front, byte, rest, rfl, digits, bad, read⟩
    · exact .inl (List.forall_mem_cons.2 ⟨firstDigit,
        List.forall_mem_cons.2 ⟨secondDigit, digits⟩⟩)
    · refine .inr ⟨first :: second :: front, byte, rest, rfl, List.forall_mem_cons.2 ⟨firstDigit,
        List.forall_mem_cons.2 ⟨secondDigit, digits⟩⟩, bad, ?_⟩
      have place : position + 2 + front.length = position + (first :: second :: front).length := by
        rw [List.length_cons, List.length_cons]
        omega
      rw [read, place]
      rfl

theorem read_cases (text : List Char) :
    (IsHex text ∧ ∃ bytes, Spelling text bytes ∧ read text = .ok bytes) ∨
      (¬ IsHex text ∧ ∃ fault, Refused text fault ∧ read text = .error fault) := by
  by_cases odd : (codes text).length % 2 = 1
  · have unequal : ¬ IsHex text := fun hex => by have := hex.even; omega
    exact .inr ⟨unequal, .oddLength, .oddLength odd, if_pos odd⟩
  have even : (codes text).length % 2 = 0 := by omega
  have pairs : read text = readPairs 0 (codes text) := if_neg odd
  rcases readPairs_cases 0 even with digits | ⟨front, byte, rest, shape, digits, bad, read⟩
  · have hex : IsHex text := by
      refine ⟨even, fun char member => (isDigit_iff_utf8 char).2 fun code inside => ?_⟩
      exact digits code (List.mem_flatMap.2 ⟨char, member, inside⟩)
    obtain ⟨bytes, spelled⟩ := exists_spelling hex
    exact .inl ⟨hex, bytes, spelled, spelled.read⟩
  · have foreign : ¬ IsHex text := by
      intro hex
      have member : byte ∈ codes text := by rw [shape]; simp
      obtain ⟨char, charMember, inside⟩ := List.mem_flatMap.1 member
      exact bad ((isDigit_iff_utf8 char).1 (hex.digits char charMember) byte inside)
    refine .inr ⟨foreign, _, .invalidDigit even shape digits bad, ?_⟩
    rw [pairs, read, Nat.zero_add]

/-! ## The same digits -/

/-- Two texts that differ in nothing but letter case and the blanks around their digits. -/
def SameDigits (first second : String) : Prop :=
  (Blank.trim first.toList).map Char.toLower = (Blank.trim second.toList).map Char.toLower

instance (first second : String) : Decidable (SameDigits first second) :=
  inferInstanceAs (Decidable (_ = _))

theorem toLower_digit (letters : HexCase) {value : Nat} (small : value < 16) :
    (digit letters value).toLower = digit .lower value := by
  have table : ∀ value < 16, (digit letters value).toLower = digit .lower value := by
    cases letters <;> decide
  exact table value small

theorem toLower_of_not_ascii {char : Char} (beyond : ¬ char.toNat < 128) :
    char.toLower = char := by
  unfold Char.toLower
  rw [dif_neg]
  rintro ⟨-, within⟩
  have small : char.toNat ≤ 90 := UInt32.le_iff_toNat_le.1 within
  omega

theorem exists_letters {char : Char} {value : Nat} (small : value < 16)
    (same : char.toLower = digit .lower value) : ∃ letters, char = digit letters value := by
  have ascii : char.toNat < 128 := by
    by_contra beyond
    rw [toLower_of_not_ascii beyond] at same
    exact beyond (toNat_lt_of_isDigit (same ▸ isDigit_digit .lower small))
  have shape : ∀ value < 16, char.toLower = digit .lower value →
      char = digit .lower value ∨ char = digit .upper value := by
    apply forall_ascii _ ascii
    decide +kernel
  rcases shape value small same with lower | upper
  · exact ⟨.lower, lower⟩
  · exact ⟨.upper, upper⟩

theorem spelling_iff {text : List Char} {bytes : List UInt8} :
    Spelling text bytes ↔ text.map Char.toLower = render .lower bytes := by
  constructor
  · intro spelled
    induction spelled with
    | nil => rfl
    | cons high low byte _ ih =>
      have ⟨highSmall, lowSmall⟩ := halves_lt byte
      rw [List.map_cons, List.map_cons, toLower_digit high highSmall, toLower_digit low lowSmall,
        ih]
      rfl
  · intro same
    induction bytes generalizing text with
    | nil => rw [List.map_eq_nil_iff.1 same]; exact .nil
    | cons byte bytes ih =>
      have ⟨highSmall, lowSmall⟩ := halves_lt byte
      obtain ⟨first, others, rfl, highSame, othersSame⟩ := List.map_eq_cons_iff.1 same
      obtain ⟨second, rest, rfl, lowSame, restSame⟩ := List.map_eq_cons_iff.1 othersSame
      obtain ⟨one, rfl⟩ := exists_letters highSmall highSame
      obtain ⟨other, rfl⟩ := exists_letters lowSmall lowSame
      exact .cons one other byte (ih restSame)

theorem Spelling.of_sameDigits {first second : String} {bytes : List UInt8}
    (spelled : Spelling (Blank.trim first.toList) bytes) (same : SameDigits first second) :
    Spelling (Blank.trim second.toList) bytes := by
  rw [spelling_iff] at spelled ⊢
  rw [← spelled]
  exact same.symm

theorem sameDigits_of_spelling {first second : String} {bytes : List UInt8}
    (one : Spelling (Blank.trim first.toList) bytes)
    (other : Spelling (Blank.trim second.toList) bytes) : SameDigits first second := by
  rw [spelling_iff] at one other
  exact one.trans other.symm

theorem denotes_iff {text : String} {bytes : List UInt8} :
    Denotes text bytes ↔ Spelling (Blank.trim text.toList) bytes := by
  constructor
  · rintro ⟨before, digits, after, shape, blankBefore, blankAfter, spelled⟩
    rwa [shape, Blank.trim_append blankBefore blankAfter spelled.bare]
  · intro spelled
    obtain ⟨before, after, shape, blankBefore, blankAfter⟩ := Blank.exists_trim text.toList
    exact ⟨before, _, after, shape, blankBefore, blankAfter, spelled⟩

end Hex

theorem Command.readHex_cases (text : String) :
    (Hex.IsHex (Blank.trim text.toList) ∧
        ∃ bytes, Hex.Spelling (Blank.trim text.toList) bytes ∧ readHex text = .ok bytes) ∨
      (¬ Hex.IsHex (Blank.trim text.toList) ∧
        ∃ fault, Hex.Refused (Blank.trim text.toList) fault ∧
          readHex text = .error (.hex fault)) := by
  rcases Hex.read_cases (Blank.trim text.toList) with
    ⟨hex, bytes, spelled, read⟩ | ⟨foreign, fault, refused, read⟩
  · exact .inl ⟨hex, bytes, spelled, by rw [readHex, read]⟩
  · exact .inr ⟨foreign, fault, refused, by rw [readHex, read]⟩

end CompactInt
