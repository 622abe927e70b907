import CompactInt.Proofs.Tool.RoundTrip

/-! Numbers among the arguments. A text that has to be a number is read as the integer it is written
as, or refused: nothing is wrapped, cut off or moved to the bound. -/

set_option autoImplicit false

namespace CompactInt

/-! ## Texts that are numbers -/

namespace Decimal

structure UpTo (last : Nat) (text : String) (number : Nat) : Prop where
  signed : Signed text.toList number
  le_last : number ≤ last

def IsNumber (last : Nat) (text : String) : Prop := ∃ number, UpTo last text number

variable {last : Nat} {text : String}

theorem readUpTo_eq_ok_iff_upTo {number : Nat} (small : last ≤ 0x7fffffffffffffff) :
    readUpTo last text.toList = .ok number ↔ UpTo last text number := by
  rw [readUpTo_eq_ok_iff small]
  exact ⟨fun ⟨signed, within⟩ => ⟨signed, within⟩, fun upTo => ⟨upTo.signed, upTo.le_last⟩⟩

theorem not_isNumber_of_readUpTo {fault : NumeralFault} (small : last ≤ 0x7fffffffffffffff)
    (refused : readUpTo last text.toList = .error fault) : ¬ IsNumber last text := by
  rintro ⟨number, upTo⟩
  rw [(readUpTo_eq_ok_iff_upTo small).2 upTo] at refused
  cases refused

end Decimal

open Decimal (UpTo IsNumber)

section

variable {last : Nat} (small : last ≤ 0x7fffffffffffffff)

include small

theorem readNumbers_eq_ok_iff_upTo {slot : ValueSlot} {texts : List String} {numbers : List Nat} :
    readNumbers slot last texts = .ok numbers ↔ List.Forall₂ (UpTo last) texts numbers := by
  simp only [readNumbers_eq_ok_iff, Decimal.readUpTo_eq_ok_iff_upTo small]

/-- Either all texts are numbers, or the first that is none is refused. -/
theorem readNumbers_cases (slot : ValueSlot) (texts : List String) :
    (∃ numbers, List.Forall₂ (UpTo last) texts numbers) ∨
      ∃ earlier text later fault, texts = earlier ++ text :: later ∧
        (∀ other ∈ earlier, IsNumber last other) ∧ ¬ IsNumber last text ∧
        readNumbers slot last texts = .error (.invalidValue text slot fault) := by
  induction texts with
  | nil => exact .inl ⟨[], .nil⟩
  | cons text rest ih =>
    rw [readNumbers]
    cases first : Decimal.readUpTo last text.toList with
    | error fault =>
      exact .inr ⟨[], text, rest, fault, rfl, List.forall_mem_nil _,
        Decimal.not_isNumber_of_readUpTo small first, rfl⟩
    | ok number =>
      have upTo := (Decimal.readUpTo_eq_ok_iff_upTo small).1 first
      -- The first text is good, so the first bad one, if there is any, is that of the rest.
      rcases ih with ⟨numbers, others⟩ | ⟨earlier, bad, later, fault, rfl, good, noNumber, refused⟩
      · exact .inl ⟨number :: numbers, .cons upTo others⟩
      · refine .inr ⟨text :: earlier, bad, later, fault, rfl, ?_, noNumber, ?_⟩
        · exact List.forall_mem_cons.2 ⟨⟨number, upTo⟩, good⟩
        · rw [refused]
          rfl

end

section

variable {last : Nat} {texts : List String} {numbers : List Nat}
  (upTo : List.Forall₂ (UpTo last) texts numbers)

include upTo

theorem isNumber_of_forall₂ : ∀ text ∈ texts, IsNumber last text := by
  have both : List.Forall₂ (fun text number => IsNumber last text ∧ UpTo last text number)
      texts numbers := upTo.imp fun _ number given => ⟨⟨number, given⟩, given⟩
  exact ((List.forall₂_and_left texts numbers).1 both).1

theorem le_last_of_forall₂ : ∀ number ∈ numbers, number ≤ last := by
  have both : List.Forall₂ (fun number text => number ≤ last ∧ UpTo last text number)
      numbers texts := .flip (upTo.imp fun _ _ given => ⟨given.le_last, given⟩)
  exact ((List.forall₂_and_left numbers texts).1 both).1

end

/-! ## Commands with numbers -/

inductive Command.HasNumbers : CommandName → Command → List Nat → Prop where
  | encode (values : List UInt32) :
      HasNumbers .encode (.encode values) (values.map UInt32.toNat)
  | packShort (value : UInt16) : HasNumbers .packShort (.packShort value) [value.toNat]

namespace Command

theorem hasNumbers_encode {numbers : List Nat}
    (bounded : ∀ number ∈ numbers, number < UInt32.size) :
    HasNumbers .encode (.encode (numbers.map UInt32.ofNat)) numbers := by
  have same : (numbers.map UInt32.ofNat).map UInt32.toNat = numbers := by
    rw [List.map_map]
    refine (List.map_congr_left fun number member => ?_).trans (List.map_id numbers)
    exact UInt32.toNat_ofNat_of_lt' (bounded number member)
  have given := HasNumbers.encode (numbers.map UInt32.ofNat)
  rwa [same] at given

theorem hasNumbers_packShort {number : Nat} (bounded : number < UInt16.size) :
    HasNumbers .packShort (.packShort (UInt16.ofNat number)) [number] := by
  have given := HasNumbers.packShort (UInt16.ofNat number)
  rwa [UInt16.toNat_ofNat_of_lt' bounded] at given

end Command

namespace CommandName

variable {name : CommandName} {slot : ValueSlot} {last : Nat}
  (ranged : name.range? = some (slot, last))

include ranged

theorem last_le_of_range? : last ≤ 0x7fffffffffffffff := by
  cases name with
  | encode => cases ranged; decide
  | packShort => cases ranged; decide
  | decode => cases ranged
  | unpackShort => cases ranged

theorem readValues_of_range? (texts : List String) :
    name.readValues texts = readNumbers slot last texts := by
  rw [readValues, ranged]

end CommandName

namespace CommandArguments

variable {name : CommandName} {slot : ValueSlot} {last : Nat} {texts : List String}
  (ranged : name.range? = some (slot, last))

include ranged

theorem exists_command_of_upTo {numbers : List Nat}
    (room : ∀ count < texts.length, name.takesMore count) (someTexts : texts ≠ [])
    (upTo : List.Forall₂ (UpTo last) texts numbers) :
    ∃ command, Command.HasNumbers name command numbers ∧
      CommandArguments.command name { values := texts } = .ok command := by
  have read : name.readValues texts = .ok numbers := by
    rw [CommandName.readValues_of_range? ranged]
    exact (readNumbers_eq_ok_iff_upTo (CommandName.last_le_of_range? ranged)).2 upTo
  have bounded (number : Nat) (member : number ∈ numbers) : number < last + 1 :=
    Nat.lt_succ_of_le (le_last_of_forall₂ upTo number member)
  cases upTo with
  | nil => exact absurd rfl someTexts
  | cons first rest =>
    cases name with
    | encode =>
      cases ranged
      refine ⟨_, Command.hasNumbers_encode bounded, ?_⟩
      rw [command, read]
    | packShort =>
      cases ranged
      cases rest with
      | nil =>
        refine ⟨_, Command.hasNumbers_packShort (bounded _ List.mem_cons_self), ?_⟩
        rw [command, read]
      -- There is room for one value only.
      | cons second others => exact absurd (room 1 (by simp)) (by decide)
    | decode => cases ranged
    | unpackShort => cases ranged

theorem command_of_readNumbers {refusal : Refusal}
    (refused : readNumbers slot last texts = .error refusal) :
    CommandArguments.command name { values := texts } = .error refusal := by
  rw [command, CommandName.readValues_of_range? ranged, refused]

end CommandArguments

/-! ## Texts in the place of numbers -/

/-- How a command that is about numbers up to `last` takes the texts in their place: it has
exactly the integers that are written there, or the first text that is no such integer is refused
and nothing is run. -/
structure NumbersRead (name : CommandName) (slot : ValueSlot) (last : Nat)
    (texts arguments : List String) : Prop where
  accepted_iff : (∃ invocation, Invocation.ofArguments arguments = .ok invocation) ↔
    ∀ text ∈ texts, IsNumber last text
  exactly (numbers : List Nat) : List.Forall₂ (UpTo last) texts numbers →
    ∃ command, Command.HasNumbers name command numbers ∧
      Invocation.ofArguments arguments = .ok ⟨false, command⟩
  refused : (¬ ∀ text ∈ texts, IsNumber last text) →
    ∃ earlier text later fault, texts = earlier ++ text :: later ∧
      (∀ other ∈ earlier, IsNumber last other) ∧ ¬ IsNumber last text ∧
      let refusal : Refusal := .invalidValue text slot fault
      Invocation.ofArguments arguments = .error refusal ∧ refusal.exitCode = 2 ∧
        ∀ stdin, Report.ofArguments stdin arguments = .error refusal

namespace Invocation

variable {text : String} {name : CommandName} {slot : ValueSlot} {last : Nat} {texts : List String}
  (named : CommandName.ofText? text = some name) (ranged : name.range? = some (slot, last))
  (room : ∀ count < texts.length, name.takesMore count)

include named ranged room

theorem ofArguments_of_upTo {numbers : List Nat} (someTexts : texts ≠ [])
    (upTo : List.Forall₂ (UpTo last) texts numbers) :
    ∃ command, Command.HasNumbers name command numbers ∧
      ofArguments (text :: "--" :: texts) = .ok ⟨false, command⟩ := by
  obtain ⟨command, given, accepted⟩ :=
    CommandArguments.exists_command_of_upTo ranged room someTexts upTo
  refine ⟨command, given, ?_⟩
  rw [ofArguments_verbatim named room, accepted]
  rfl

theorem ofArguments_of_refused {refusal : Refusal}
    (refused : readNumbers slot last texts = .error refusal) :
    ofArguments (text :: "--" :: texts) = .error refusal := by
  rw [ofArguments_verbatim named room, CommandArguments.command_of_readNumbers ranged refused]
  rfl

theorem numbersRead (someTexts : texts ≠ []) :
    NumbersRead name slot last texts (text :: "--" :: texts) := by
  have outcome := readNumbers_cases (CommandName.last_le_of_range? ranged) slot texts
  constructor
  case accepted_iff =>
    constructor
    · rintro ⟨invocation, accepted⟩
      rcases outcome with ⟨numbers, upTo⟩ | ⟨_, _, _, _, _, _, _, refused⟩
      · exact isNumber_of_forall₂ upTo
      · rw [ofArguments_of_refused named ranged room refused] at accepted
        cases accepted
    · intro allNumbers
      rcases outcome with ⟨numbers, upTo⟩ | ⟨earlier, bad, later, _, parts, _, noNumber, _⟩
      · obtain ⟨command, -, accepted⟩ := ofArguments_of_upTo named ranged room someTexts upTo
        exact ⟨_, accepted⟩
      · exact absurd (allNumbers bad (by simp [parts])) noNumber
  case exactly =>
    exact fun numbers upTo => ofArguments_of_upTo named ranged room someTexts upTo
  case refused =>
    intro notAll
    rcases outcome with ⟨numbers, upTo⟩ |
      ⟨earlier, bad, later, fault, parts, good, noNumber, refused⟩
    · exact absurd (isNumber_of_forall₂ upTo) notAll
    · have given := ofArguments_of_refused named ranged room refused
      refine ⟨earlier, bad, later, fault, parts, good, noNumber, given, rfl, fun stdin => ?_⟩
      rw [Report.ofArguments, given]
      rfl

end Invocation

/-- Behind a double hyphen the texts for `encode` and the text for `pack-short` are read as exactly
the integers they are written as, with a sign or without and with any number of zeros in front, or
the first that is not an integer in the range of the command is refused. -/
theorem numbersRead_verbatim {texts : List String} (someTexts : texts ≠ []) :
    NumbersRead .encode .values 4294967295 texts ("encode" :: "--" :: texts) ∧
      ∀ text, NumbersRead .packShort .value 65535 [text] ["pack-short", "--", text] := by
  refine ⟨Invocation.numbersRead rfl rfl (fun _ _ => rfl) someTexts, fun text => ?_⟩
  have room : ∀ count < 1, CommandName.takesMore .packShort count := by decide
  exact Invocation.numbersRead rfl rfl room (List.cons_ne_nil text [])

/-- Signs and zeros in front of the digits, and the largest number; then a number below the range
between two good texts, and the first number above the range of the other command. -/
theorem numbersRead_verbatim_signed :
    let good : List String := ["+0042", "-000", "4294967295"]
    let bad : List String := ["7", "-1", "0"]
    good ≠ [] ∧ List.Forall₂ (UpTo 4294967295) good [42, 0, 4294967295] ∧
      Invocation.ofArguments ("encode" :: "--" :: good) =
        .ok ⟨false, .encode [42, 0, 4294967295]⟩ ∧
      Command.HasNumbers .encode (.encode [42, 0, 4294967295]) [42, 0, 4294967295] ∧
      bad ≠ [] ∧ Invocation.ofArguments ("encode" :: "--" :: bad) =
        .error (.invalidValue "-1" .values (.outside (-1) 4294967295)) ∧
      (¬ ∀ text ∈ bad, IsNumber 4294967295 text) ∧
      Invocation.ofArguments ["pack-short", "--", "65536"] =
        .error (.invalidValue "65536" .value (.outside 65536 65535)) ∧
      ¬ IsNumber 65535 "65536" := by
  intro good bad
  have someGood : good ≠ [] := List.cons_ne_nil _ _
  have someBad : bad ≠ [] := List.cons_ne_nil _ _
  have digits {text : List Char} (all : text.all Char.isDigit) :
      ∀ char ∈ text, char.isDigit := List.all_eq_true.1 all
  have plus : UpTo 4294967295 "+0042" 42 := ⟨.plus ⟨nofun, digits rfl, rfl⟩, by decide⟩
  have zeros : Decimal.Numeral ['0', '0', '0'] 0 := ⟨nofun, digits rfl, rfl⟩
  have minus : UpTo 4294967295 "-000" 0 := ⟨.minus zeros, by decide⟩
  have bare : UpTo 4294967295 "4294967295" 4294967295 :=
    ⟨.bare ⟨nofun, digits rfl, rfl⟩, by decide⟩
  have upTo : List.Forall₂ (UpTo 4294967295) good [42, 0, 4294967295] :=
    .cons plus (.cons minus (.cons bare .nil))
  have accepted : Invocation.ofArguments ("encode" :: "--" :: good) =
      .ok ⟨false, .encode [42, 0, 4294967295]⟩ := by decide +kernel
  have below : Invocation.ofArguments ("encode" :: "--" :: bad) =
      .error (.invalidValue "-1" .values (.outside (-1) 4294967295)) := by decide +kernel
  have above : Invocation.ofArguments ["pack-short", "--", "65536"] =
      .error (.invalidValue "65536" .value (.outside 65536 65535)) := by decide +kernel
  obtain ⟨command, given, same⟩ := (numbersRead_verbatim someGood).1.exactly _ upTo
  rw [accepted] at same
  cases same
  obtain ⟨ofBad, ofShort⟩ := numbersRead_verbatim someBad
  refine ⟨someGood, upTo, accepted, given, someBad, below, fun allNumbers => ?_, above,
    fun number => ?_⟩
  · obtain ⟨invocation, taken⟩ := ofBad.accepted_iff.2 allNumbers
    rw [below] at taken
    cases taken
  · obtain ⟨invocation, taken⟩ :=
      (ofShort "65536").accepted_iff.2 (List.forall_mem_singleton.2 number)
    rw [above] at taken
    cases taken

end CompactInt
