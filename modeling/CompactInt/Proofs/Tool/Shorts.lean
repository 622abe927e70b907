import CompactInt.Proofs.Sink.Acceptance
import CompactInt.Proofs.Text.Decimal
import CompactInt.Proofs.Text.Hexadecimal
import CompactInt.Proofs.Tool.Decoding

/-! Packed numbers as texts: four hexadecimal digits, the first of them below 8. -/

set_option autoImplicit false

namespace CompactInt

namespace Hex

/-! ## The number that digits denote -/

def digitNumber (char : Char) : Nat :=
  if char.isDigit then char.toNat - '0'.toNat else char.toLower.toNat - 'a'.toNat + 10

def number (text : List Char) : Nat :=
  text.foldl (fun value char => 16 * value + digitNumber char) 0

/-- Four digits, of which the first leaves the topmost bit clear. -/
structure IsShort (text : List Char) : Prop where
  length_eq : text.length = 4
  digits : ∀ char ∈ text, IsDigit char
  head_le : ∀ char ∈ text.head?, '0' ≤ char ∧ char ≤ '7'

instance : DecidablePred IsShort := fun text =>
  decidable_of_iff (text.length = 4 ∧ text.all (IsDigit ·) ∧
      text.head?.all fun char => '0' ≤ char ∧ char ≤ '7')
    ⟨fun ⟨length, digits, head⟩ =>
        ⟨length, by simpa using digits, by simpa [Option.all_eq_true] using head⟩,
      fun short => ⟨short.length_eq, by simpa using short.digits,
        by simpa [Option.all_eq_true] using short.head_le⟩⟩

theorem digitNumber_digit (letters : HexCase) {value : Nat} (small : value < 16) :
    digitNumber (digit letters value) = value := by
  have table : ∀ value < 16, digitNumber (digit letters value) = value := by
    cases letters <;> decide
  exact table value small

theorem digit_le_seven_iff (letters : HexCase) {value : Nat} (small : value < 16) :
    ('0' ≤ digit letters value ∧ digit letters value ≤ '7') ↔ value < 8 := by
  have table : ∀ value < 16, ('0' ≤ digit letters value ∧ digit letters value ≤ '7') ↔
      value < 8 := by
    cases letters <;> decide
  exact table value small

variable {text : List Char} {high low : UInt8}

theorem Spelling.exists_pair (spelled : Spelling text [high, low]) :
    ∃ first second third fourth, text =
      [digit first (high.toNat / 16), digit second (high.toNat % 16),
        digit third (low.toNat / 16), digit fourth (low.toNat % 16)] := by
  obtain _ | ⟨first, second, _, rest⟩ := spelled
  obtain _ | ⟨third, fourth, _, behind⟩ := rest
  cases behind
  exact ⟨first, second, third, fourth, rfl⟩

theorem Spelling.number_eq (spelled : Spelling text [high, low]) :
    number text = 256 * high.toNat + low.toNat := by
  have ⟨highFirst, highSecond⟩ := halves_lt high
  have ⟨lowFirst, lowSecond⟩ := halves_lt low
  obtain ⟨first, second, third, fourth, rfl⟩ := spelled.exists_pair
  simp only [number, List.foldl_cons, List.foldl_nil, digitNumber_digit _ highFirst,
    digitNumber_digit _ highSecond, digitNumber_digit _ lowFirst, digitNumber_digit _ lowSecond]
  omega

theorem Spelling.bytes_eq {other : List Char} {first second : UInt8}
    (spelled : Spelling text [high, low]) (written : Spelling other [first, second])
    (same : number text = number other) : [high, low] = [first, second] := by
  rw [spelled.number_eq, written.number_eq] at same
  have lowBound := low.toNat_lt
  have secondBound := second.toNat_lt
  have highEq : high = first := UInt8.toNat_inj.1 (by omega)
  have lowEq : low = second := UInt8.toNat_inj.1 (by omega)
  rw [highEq, lowEq]

theorem Spelling.length_eq {bytes : List UInt8} (spelled : Spelling text bytes) :
    text.length = 2 * bytes.length := by
  rw [← spelled.length_utf8]
  exact (length_codes (isHex_of_spelling spelled).digits).symm

theorem Spelling.isShort_iff (spelled : Spelling text [high, low]) :
    IsShort text ↔ high.toNat < 128 := by
  have ⟨highFirst, _⟩ := halves_lt high
  have digits := (isHex_of_spelling spelled).digits
  obtain ⟨first, second, third, fourth, rfl⟩ := spelled.exists_pair
  have head := digit_le_seven_iff first highFirst
  constructor
  · intro short
    have := head.1 (short.head_le _ rfl)
    omega
  · intro small
    refine ⟨rfl, digits, ?_⟩
    rintro _ ⟨rfl⟩
    exact head.2 (by omega)

theorem exists_spelling_of_length (hex : IsHex text) (length : text.length = 4) :
    ∃ high low, Spelling text [high, low] := by
  obtain ⟨bytes, spelled⟩ := exists_spelling hex
  have pair : bytes.length = 2 := by
    have := spelled.length_eq
    omega
  obtain ⟨high, low, rfl⟩ := List.length_eq_two.1 pair
  exact ⟨high, low, spelled⟩

namespace IsShort

theorem isHex (short : IsShort text) : IsHex text where
  even := by rw [length_codes short.digits, short.length_eq]
  digits := short.digits

theorem exists_spelling (short : IsShort text) :
    ∃ high low, Spelling text [high, low] ∧ high.toNat < 128 := by
  obtain ⟨high, low, spelled⟩ := exists_spelling_of_length short.isHex short.length_eq
  exact ⟨high, low, spelled, spelled.isShort_iff.1 short⟩

theorem number_le (short : IsShort text) : number text ≤ 32767 := by
  obtain ⟨high, low, spelled, clear⟩ := short.exists_spelling
  have bounded := low.toNat_lt
  rw [spelled.number_eq]
  omega

theorem exists_value (short : IsShort text) : ∃ value : UInt16, value.toNat = number text := by
  have small : number text < UInt16.size := Nat.lt_of_le_of_lt short.number_le (by decide)
  exact ⟨UInt16.ofNat (number text), UInt16.toNat_ofNat_of_lt' small⟩

end IsShort

theorem sameDigits_render_iff {text : String} (letters : HexCase) (bytes : List UInt8) :
    SameDigits text (String.ofList (render letters bytes)) ↔
      Spelling (Blank.trim text.toList) bytes := by
  have written := denotes_iff.1 (denotes_render letters bytes)
  exact ⟨fun same => written.of_sameDigits same.symm,
    fun spelled => sameDigits_of_spelling spelled written⟩

end Hex

theorem Decimal.render_injective : Function.Injective render := by
  intro first second same
  rw [← (numeral_render first).value_eq, same, (numeral_render second).value_eq]

namespace Command

/-! ## What the commands come to -/

structure PrintsLine (before : Output) (outcome : Outcome) (line : List Char) : Prop where
  success : outcome.result = .ok ()
  printed : outcome.output =
    { before with printed := before.printed ++ String.ofList (line ++ ['\n']) }

theorem PrintsLine.unique {before : Output} {outcome : Outcome} {one other : List Char}
    (first : PrintsLine before outcome one) (second : PrintsLine before outcome other) :
    one = other := by
  have same := congrArg (fun output => output.printed.toList)
    (first.printed.symm.trans second.printed)
  simpa using same

inductive Unpacked (digits : List Char) : Except RunFault UInt16 → Prop where
  | foreign {fault : HexFault} :
      ¬ Hex.IsHex digits → Hex.Refused digits fault → Unpacked digits (.error (.hex fault))
  | wrongCount {bytes : List UInt8} :
      Hex.Spelling digits bytes → bytes.length ≠ 2 →
      Unpacked digits (.error (.notTwoBytes bytes.length))
  | signed {high low : UInt8} :
      Hex.Spelling digits [high, low] → 128 ≤ high.toNat →
      Unpacked digits (.error (.codec (.invalidArgument (.signBit high low))))
  | number {value : UInt16} :
      Hex.IsShort digits → Hex.number digits = value.toNat → Unpacked digits (.ok value)

theorem unpacked_unpack (text : String) : Unpacked (Blank.trim text.toList) (unpack text) := by
  rcases readHex_cases text with ⟨hex, bytes, spelled, read⟩ | ⟨foreign, fault, refused, read⟩
  · rw [unpack, read]
    split
    · contradiction
    · next high low given =>
      cases given
      rcases PackedShort.unpack_cases high low with
        ⟨clear, value, unpacked, whole⟩ | ⟨signed, refused⟩
      · rw [unpacked]
        exact .number (spelled.isShort_iff.2 clear) (spelled.number_eq.trans whole.symm)
      · rw [refused]
        exact .signed spelled signed
    · next other given =>
      cases given
      refine .wrongCount spelled fun pair => ?_
      obtain ⟨high, low, rfl⟩ := List.length_eq_two.1 pair
      exact other high low rfl
  · rw [unpack, read]
    exact .foreign foreign refused

/-- What unpacking a text with these digits between its blanks comes to: the number of a short
is shown, and anything else is refused with nothing shown. -/
structure ShortUnpacked (digits : List Char) (before : Output) (outcome : Outcome) : Prop where
  success_iff : outcome.result = .ok () ↔ Hex.IsShort digits
  shown : Hex.IsShort digits → PrintsLine before outcome (Decimal.render (Hex.number digits))
  silent : ¬ Hex.IsShort digits → outcome.output = before
  foreign : ¬ Hex.IsHex digits → ∃ fault, Hex.Refused digits fault ∧
    outcome.result = .error (.hex fault) ∧
      (RunFault.hex fault).chain = ["invalid hex input", fault.message]
  wrongCount : Hex.IsHex digits → digits.length ≠ 4 →
    outcome.result = .error (.notTwoBytes (digits.length / 2)) ∧
      (RunFault.notTwoBytes (digits.length / 2)).chain =
        ["packed short must be exactly 2 bytes, got " ++ toString (digits.length / 2)]
  signed : Hex.IsHex digits → digits.length = 4 → ¬ Hex.IsShort digits →
    ∃ high low, Hex.Spelling digits [high, low] ∧ 128 ≤ high.toNat ∧
      outcome.result = .error (.codec (.invalidArgument (.signBit high low))) ∧
      (RunFault.codec (.invalidArgument (.signBit high low))).chain =
        ["Invalid argument: packed short has its sign bit set: " ++
          String.ofList (Hex.render .lower [high, low])]

/-- What packing a number comes to: up to the largest number the digits of its two bytes are
shown, and any other is refused with nothing shown. -/
structure ShortPacked (letters : HexCase) (value : UInt16) (before : Output) (outcome : Outcome) :
    Prop where
  success_iff : outcome.result = .ok () ↔ value.toNat ≤ 32767
  shown : value.toNat ≤ 32767 → ∃ high low,
    PrintsLine before outcome (Hex.render letters [high, low]) ∧
      Hex.IsShort (Hex.render letters [high, low]) ∧
      Hex.number (Hex.render letters [high, low]) = value.toNat
  refused : 32767 < value.toNat → outcome.output = before ∧
    outcome.result = .error (.codec (.invalidArgument (.shortRange value.toNat))) ∧
      (RunFault.codec (.invalidArgument (.shortRange value.toNat))).chain =
        ["Invalid argument: short value out of range [0, 32767]: " ++ toString value.toNat]

section

variable (settings : Settings) (stdin : Script) {before : Output} (unlimited : before.quota = none)

include unlimited

theorem printsLine_of_printed (line : List Char) :
    PrintsLine before { result := (printLine line before).1, output := (printLine line before).2 }
      line := by
  rw [printLine_unlimited line unlimited]
  exact ⟨rfl, rfl⟩

theorem shortUnpacked_run (text : String) :
    ShortUnpacked (Blank.trim text.toList) before
      (run settings stdin before (.unpackShort text)) := by
  have unpacked := unpacked_unpack text
  -- From here on nothing but the digits and what they come to plays a part.
  generalize Blank.trim text.toList = digits at unpacked ⊢
  rw [run]
  generalize unpack text = result at unpacked ⊢
  cases unpacked with
  | foreign noHex refused =>
    have noShort : ¬ Hex.IsShort digits := mt Hex.IsShort.isHex noHex
    constructor
    case success_iff => simpa using noShort
    case shown => exact fun short => absurd short noShort
    case silent => exact fun _ => rfl
    case foreign => exact fun _ => ⟨_, refused, rfl, rfl⟩
    case wrongCount => exact fun hex => absurd hex noHex
    case signed => exact fun hex => absurd hex noHex
  | wrongCount spelled count =>
    have length := spelled.length_eq
    have noShort : ¬ Hex.IsShort digits := fun short => by
      have := short.length_eq
      omega
    constructor
    case success_iff => simpa using noShort
    case shown => exact fun short => absurd short noShort
    case silent => exact fun _ => rfl
    case foreign => exact fun noHex => absurd (Hex.isHex_of_spelling spelled) noHex
    case wrongCount =>
      intro _ _
      rw [length, Nat.mul_div_cancel_left _ (by decide)]
      exact ⟨rfl, rfl⟩
    case signed => exact fun _ four => by omega
  | signed spelled signed =>
    have noShort : ¬ Hex.IsShort digits := by
      rw [spelled.isShort_iff]
      exact Nat.not_lt.2 signed
    constructor
    case success_iff => simpa using noShort
    case shown => exact fun short => absurd short noShort
    case silent => exact fun _ => rfl
    case foreign => exact fun noHex => absurd (Hex.isHex_of_spelling spelled) noHex
    case wrongCount => exact fun _ other => absurd spelled.length_eq other
    case signed => exact fun _ _ _ => ⟨_, _, spelled, signed, rfl, rfl⟩
  | number short number_eq =>
    have shown := printsLine_of_printed unlimited (Decimal.render (Hex.number digits))
    rw [number_eq] at shown
    constructor
    case success_iff => exact ⟨fun _ => short, fun _ => shown.success⟩
    case shown => exact fun _ => number_eq ▸ shown
    case silent => exact fun noShort => absurd short noShort
    case foreign => exact fun noHex => absurd short.isHex noHex
    case wrongCount => exact fun _ other => absurd short.length_eq other
    case signed => exact fun _ _ noShort => absurd short noShort

theorem shortPacked_run (value : UInt16) :
    ShortPacked settings.letters value before
      (run settings stdin before (.packShort value)) := by
  rw [run, Writer.writeShort_blank]
  rcases PackedShort.pack_cases value with
    ⟨small, high, low, packed, clear, whole⟩ | ⟨large, refused⟩
  · rw [packed]
    have shown := printsLine_of_printed unlimited (Hex.render settings.letters [high, low])
    have spelled := Hex.spelling_render settings.letters [high, low]
    constructor
    case success_iff => exact ⟨fun _ => small, fun _ => shown.success⟩
    case shown =>
      exact fun _ => ⟨high, low, shown, spelled.isShort_iff.2 clear,
        spelled.number_eq.trans whole.symm⟩
    case refused => exact fun large => absurd small (Nat.not_le.2 large)
  · rw [refused]
    constructor
    case success_iff => simpa using large
    case shown => exact fun small => absurd small (Nat.not_le.2 large)
    case refused => exact fun _ => ⟨rfl, rfl, rfl⟩

end

/-! ## Both ways -/

section

variable {text : String} {value : UInt16} {letters : HexCase} {before : Output}
  {shown written : Outcome}
  (unpacked : ShortUnpacked (Blank.trim text.toList) before shown)

include unpacked

theorem ShortUnpacked.number_eq
    (printed : PrintsLine before shown (Decimal.render value.toNat)) :
    Hex.IsShort (Blank.trim text.toList) ∧
      Hex.number (Blank.trim text.toList) = value.toNat := by
  have short := unpacked.success_iff.1 printed.success
  exact ⟨short, Decimal.render_injective ((unpacked.shown short).unique printed)⟩

theorem ShortUnpacked.printsLine_iff (packed : ShortPacked letters value before written) :
    PrintsLine before shown (Decimal.render value.toNat) ↔
      ∃ line, PrintsLine before written line ∧ Hex.SameDigits text (String.ofList line) := by
  constructor
  · intro printed
    obtain ⟨short, same⟩ := unpacked.number_eq printed
    obtain ⟨high, low, spelled, -⟩ := short.exists_spelling
    obtain ⟨first, second, line, -, again⟩ := packed.shown (same ▸ short.number_le)
    rw [spelled.bytes_eq (Hex.spelling_render letters _) (same.trans again.symm)] at spelled
    exact ⟨_, line, (Hex.sameDigits_render_iff letters _).2 spelled⟩
  · rintro ⟨line, printed, same⟩
    obtain ⟨high, low, other, short, whole⟩ :=
      packed.shown (packed.success_iff.1 printed.success)
    have written := Hex.spelling_render letters [high, low]
    rw [printed.unique other, Hex.sameDigits_render_iff] at same
    have shows := unpacked.shown (same.isShort_iff.2 (written.isShort_iff.1 short))
    rwa [same.number_eq, ← written.number_eq, whole] at shows

end

end Command

/-- The texts that are unpacked are those with four digits of which the first is below 8, and a
text is unpacked to a number exactly if the number is packed to the same digits. -/
theorem unpackShort_inverts_packShort (settings other : Settings) (stdin later : Script)
    (shown : String) :
    let before : Output := { printed := shown }
    let unpacked (text : String) := Command.run other later before (.unpackShort text)
    let packed (value : UInt16) := Command.run settings stdin before (.packShort value)
    let packedTo (value : UInt16) (text : String) := ∃ line,
      Command.PrintsLine before (packed value) line ∧ Hex.SameDigits text (String.ofList line)
    (∀ text : String,
        Command.ShortUnpacked (Blank.trim text.toList) before (unpacked text)) ∧
      (∀ value, Command.ShortPacked settings.letters value before (packed value)) ∧
      (∀ (text : String) (value : UInt16),
        Command.PrintsLine before (unpacked text) (Decimal.render value.toNat) ↔
          packedTo value text) ∧
      ∀ text : String, (unpacked text).result = .ok () ↔ ∃! value, packedTo value text := by
  intro before unpacked packed packedTo
  have unpacks (text : String) :
      Command.ShortUnpacked (Blank.trim text.toList) before (unpacked text) :=
    Command.shortUnpacked_run other later rfl text
  have packs (value : UInt16) :
      Command.ShortPacked settings.letters value before (packed value) :=
    Command.shortPacked_run settings stdin rfl value
  have inverse (text : String) (value : UInt16) :
      Command.PrintsLine before (unpacked text) (Decimal.render value.toNat) ↔
        packedTo value text := (unpacks text).printsLine_iff (packs value)
  refine ⟨unpacks, packs, inverse, fun text => ?_⟩
  constructor
  · intro success
    have short := (unpacks text).success_iff.1 success
    -- Four digits are the number of a word, and the word that is shown has no other number.
    obtain ⟨value, whole⟩ := short.exists_value
    refine ⟨value, (inverse text value).1 ?_, fun second same => ?_⟩
    · rw [whole]
      exact (unpacks text).shown short
    · have again := ((unpacks text).number_eq ((inverse text second).2 same)).2
      exact UInt16.toNat_inj.1 (again.symm.trans whole.symm)
  · rintro ⟨value, same, -⟩
    exact ((inverse text value).2 same).success

/-- The largest packed number through other blanks and another letter case, and the digits behind
it, which are refused. -/
theorem unpackShort_inverts_packShort_largest :
    let text := "\n7fFf "
    let unpacked (text : String) := Command.run {} [] {} (.unpackShort text)
    Command.PrintsLine {} (Command.run { letters := .upper } [] {} (.packShort 32767))
        "7FFF".toList ∧
      Hex.SameDigits text "7FFF" ∧
      Command.PrintsLine {} (unpacked text) (Decimal.render 32767) ∧
      ¬ Hex.IsShort (Blank.trim "8000".toList) ∧ (unpacked "8000").output = {} := by
  intro text unpacked
  obtain ⟨unpacks, -, inverse, -⟩ :=
    unpackShort_inverts_packShort { letters := .upper } {} [] [] ""
  have packed : Command.PrintsLine {}
      (Command.run { letters := .upper } [] {} (.packShort 32767)) "7FFF".toList :=
    ⟨by decide +kernel, by decide +kernel⟩
  have same : Hex.SameDigits text "7FFF" := by decide +kernel
  have noShort : ¬ Hex.IsShort (Blank.trim "8000".toList) := by decide +kernel
  refine ⟨packed, same, ?_, noShort, (unpacks "8000").silent noShort⟩
  exact (inverse text 32767).2 ⟨_, packed, same⟩

end CompactInt
