import CompactInt.Proofs.NormalForm
import CompactInt.Proofs.Tool.Arguments

/-! Numbers through the tool and back. Every line depends on its own number alone, and the digits of
all lines together are shown as the numbers again. -/

set_option autoImplicit false

namespace CompactInt

open Varint

/-! ## The lines of encoded numbers -/

theorem Hex.lines_append (letters : HexCase) (first second : List UInt32) :
    lines letters (first ++ second) = lines letters first ++ lines letters second :=
  List.map_append

theorem Hex.flatten_lines (letters : HexCase) (values : List UInt32) :
    (lines letters values).flatten = render letters (encodings values) := by
  induction values with
  | nil => rfl
  | cons value rest ih =>
    rw [encodings_cons, render_append, ← ih]
    rfl

theorem Hex.not_mem_render_of_isBlank {char : Char} (blank : Blank.isBlank char)
    (letters : HexCase) (bytes : List UInt8) : char ∉ render letters bytes :=
  fun member => (spelling_render letters bytes).bare char member blank

theorem Decimal.lines_encode (values : List UInt32) :
    lines (values.map encode) = values.map fun value => render value.toNat := by
  simp [lines, Function.comp_def, denoted_encode]

/-! ## What is shown -/

theorem Outcome.report_of_success {outcome : Outcome} (success : outcome.result = .ok ())
    (quiet : outcome.notes = []) : outcome.report = ⟨0, outcome.output.printed, ""⟩ := by
  rw [report, success, quiet]
  rfl

def Report.ofArguments (stdin : Script) (arguments : List String) : Except Refusal Report :=
  (Invocation.ofArguments arguments).map (Invocation.report stdin)

theorem Invocation.report_encode (stdin : Script) (place : FlagPlace) (values : List UInt32) :
    report stdin ⟨place.upper, .encode values⟩ =
      ⟨0, Output.joined (Hex.lines place.letters values), ""⟩ := by
  obtain ⟨printed, result⟩ :=
    (Command.prints_encode (settings ⟨place.upper, .encode values⟩) stdin values).unlimited
  rw [report, Outcome.report_of_success result rfl, printed]
  rfl

theorem Invocation.report_decode {text : String} {values : List UInt32}
    (denotes : Hex.Denotes text (encodings values)) (stdin : Script) (upper : Bool) :
    report stdin ⟨upper, .decode (some text) false⟩ =
      ⟨0, Output.joined (values.map fun value => Decimal.render value.toNat), ""⟩ := by
  have given := Command.readHex_of_denotes denotes
  obtain ⟨printed, result⟩ := (Command.prints_decode_text
    (settings ⟨upper, .decode (some text) false⟩) stdin given
    (consistsOf_encodings values).division false).unlimited
  have quiet : (Command.run (settings ⟨upper, .decode (some text) false⟩) stdin {}
      (.decode (some text) false)).notes = [] := by rw [Command.run, given]
  rw [report, Outcome.report_of_success result quiet, printed, Decimal.lines_encode]

/-! ## Through the arguments -/

def Decimal.argument (value : UInt32) : String := String.ofList (render value.toNat)

theorem numerals_argument (values : List UInt32) :
    Numerals (values.map Decimal.argument) values := by
  induction values with
  | nil => exact .nil
  | cons value rest ih =>
    refine .cons ?_ ih
    rw [Decimal.argument, String.toList_ofList]
    exact Decimal.numeral_render value.toNat

theorem Hex.Denotes.ofArgument_eq_word {text : String} {bytes : List UInt8}
    (denotes : Denotes text bytes) : Token.ofArgument text = .word := by
  apply Token.ofArgument_eq_word
  obtain ⟨before, digits, after, shape, blankBefore, blankAfter, spelled⟩ := denotes
  intro dash
  have member := List.mem_of_mem_head? dash
  rw [shape, List.mem_append, List.mem_append] at member
  rcases member with (inside | inside) | inside
  · exact absurd (blankBefore _ inside) (by decide)
  · obtain ⟨code, alone, known⟩ := spelled.exists_code _ inside
    cases alone
    exact absurd known (by decide)
  · exact absurd (blankAfter _ inside) (by decide)

theorem Invocation.ofArguments_encode {texts : List String} {values : List UInt32}
    (numerals : Numerals texts values) (someValues : values ≠ []) (place : FlagPlace) :
    ofArguments (place.arguments "encode" texts) = .ok ⟨place.upper, .encode values⟩ := by
  rw [ofArguments_place rfl numerals.ofArgument_eq_word (fun _ _ => rfl),
    numerals.command_encode someValues]
  rfl

theorem Invocation.ofArguments_decode {text : String} {bytes : List UInt8}
    (denotes : Hex.Denotes text bytes) (place : FlagPlace) :
    ofArguments (place.arguments "decode" [text]) =
      .ok ⟨place.upper, .decode (some text) false⟩ := by
  have words : ∀ value ∈ [text], Token.ofArgument value = .word :=
    List.forall_mem_singleton.2 denotes.ofArgument_eq_word
  have room : ∀ count < 1, CommandName.takesMore .decode count := by decide
  rw [ofArguments_place rfl words room]
  rfl

namespace Report

theorem ofArguments_encode {texts : List String} {values : List UInt32}
    (numerals : Numerals texts values) (someValues : values ≠ []) (place : FlagPlace)
    (stdin : Script) :
    ofArguments stdin (place.arguments "encode" texts) =
      .ok ⟨0, Output.joined (Hex.lines place.letters values), ""⟩ := by
  rw [ofArguments, Invocation.ofArguments_encode numerals someValues]
  exact congrArg Except.ok (Invocation.report_encode stdin place values)

theorem ofArguments_decode {text : String} {values : List UInt32}
    (denotes : Hex.Denotes text (encodings values)) (place : FlagPlace) (stdin : Script) :
    ofArguments stdin (place.arguments "decode" [text]) =
      .ok ⟨0, Output.joined (values.map fun value => Decimal.render value.toNat), ""⟩ := by
  rw [ofArguments, Invocation.ofArguments_decode denotes]
  exact congrArg Except.ok (Invocation.report_decode denotes stdin place.upper)

end Report

theorem Hex.denotes_lines {before after : List Char} (letters : HexCase) (values : List UInt32)
    (blankBefore : ∀ char ∈ before, Blank.isBlank char)
    (blankAfter : ∀ char ∈ after, Blank.isBlank char) :
    Denotes (String.ofList (before ++ (lines letters values).flatten ++ after))
      (encodings values) := by
  rw [flatten_lines]
  exact ⟨before, _, after, String.toList_ofList, blankBefore, blankAfter,
    spelling_render letters (encodings values)⟩

/-- Numbers given as arguments, with the flag for capital letters in its place, and back. -/
structure RoundTrip (place : FlagPlace) (texts : List String) (values : List UInt32)
    (stdin : Script) : Prop where
  read : Invocation.ofArguments (place.arguments "encode" texts) =
    .ok ⟨place.upper, .encode values⟩
  encoded : Report.ofArguments stdin (place.arguments "encode" texts) =
    .ok ⟨0, Output.joined (Hex.lines place.letters values), ""⟩
  oneLine : ∀ line ∈ Hex.lines place.letters values, '\n' ∉ line
  lineLength : ∀ value ∈ values,
    (Hex.render place.letters (encode value)).length = 2 * encodedLength value
  denotes : ∀ (letters : HexCase) (before after : List Char),
    (∀ char ∈ before, Blank.isBlank char) → (∀ char ∈ after, Blank.isBlank char) →
      Hex.Denotes (String.ofList (before ++ (Hex.lines letters values).flatten ++ after))
        (encodings values)
  decoded : ∀ (other : FlagPlace) (text : String), Hex.Denotes text (encodings values) →
    Report.ofArguments stdin (other.arguments "decode" [text]) =
      .ok ⟨0, Output.joined (values.map fun value => Decimal.render value.toNat), ""⟩
  appended : ∀ more others, Numerals more others →
    Report.ofArguments stdin (place.arguments "encode" (texts ++ more)) =
      .ok ⟨0, Output.joined (Hex.lines place.letters values) ++
        Output.joined (Hex.lines place.letters others), ""⟩

/-- Decimal digits of some numbers are read as these numbers and shown as one line of
hexadecimal digits each; the digits of all lines together are shown as the numbers again. -/
theorem encode_decode_arguments {values : List UInt32} (someValues : values ≠ []) :
    Numerals (values.map Decimal.argument) values ∧
      ∀ texts, Numerals texts values → ∀ place stdin, RoundTrip place texts values stdin := by
  refine ⟨numerals_argument values, fun texts numerals place stdin => ?_⟩
  constructor
  case read => exact Invocation.ofArguments_encode numerals someValues place
  case encoded => exact Report.ofArguments_encode numerals someValues place stdin
  case oneLine =>
    intro line member
    obtain ⟨value, -, rfl⟩ := List.mem_map.1 member
    exact Hex.not_mem_render_of_isBlank (by decide) place.letters (encode value)
  case lineLength =>
    intro value _
    rw [Hex.length_render, length_encode]
  case denotes => exact fun letters _ _ => Hex.denotes_lines letters values
  case decoded => exact fun other text denotes => Report.ofArguments_decode denotes other stdin
  case appended =>
    intro more others numeralsMore
    have someBoth : values ++ others ≠ [] := List.append_ne_nil_of_left_ne_nil someValues others
    rw [Report.ofArguments_encode (numerals.append numeralsMore) someBoth, Hex.lines_append,
      Output.joined_append]

theorem encode_decode_arguments_mixed :
    let values : List UInt32 := [300, 0, 4294967295]
    values ≠ [] ∧ Numerals ["300", "000", "4294967295"] values ∧
      Hex.Denotes "  ac0200FFFFFFFF0f " (encodings values) ∧
      Report.ofArguments [] ["encode", "--upper", "300", "000", "4294967295"] =
        .ok ⟨0, "AC02\n00\nFFFFFFFF0F\n", ""⟩ ∧
      Report.ofArguments [] ["decode", "  ac0200FFFFFFFF0f "] =
        .ok ⟨0, "300\n0\n4294967295\n", ""⟩ := by
  intro values
  have numerals : Numerals ["300", "000", "4294967295"] values :=
    .cons ⟨by decide, List.all_eq_true.1 rfl, rfl⟩ (.cons ⟨by decide, List.all_eq_true.1 rfl, rfl⟩
      (.cons ⟨by decide, List.all_eq_true.1 rfl, rfl⟩ .nil))
  have shown : Output.joined (Hex.lines .upper values) = "AC02\n00\nFFFFFFFF0F\n" := by
    decide +kernel
  have numbers : Output.joined (values.map fun value => Decimal.render value.toNat) =
      "300\n0\n4294967295\n" := by decide +kernel
  have someValues : values ≠ [] := List.cons_ne_nil _ _
  obtain ⟨-, every⟩ := encode_decode_arguments someValues
  have both := every _ numerals .behindName []
  have bytes : encodings values = [0xac, 0x02, 0x00, 0xff, 0xff, 0xff, 0xff, 0x0f] := by
    decide +kernel
  have denotes : Hex.Denotes "  ac0200FFFFFFFF0f " (encodings values) := by
    rw [bytes]
    exact ⟨[' ', ' '], "ac0200FFFFFFFF0f".toList, [' '], by decide,
      List.all_eq_true.1 (by decide), List.all_eq_true.1 (by decide),
      .cons .lower .lower 0xac (.cons .lower .lower 0x02 (.cons .lower .lower 0x00
        (.cons .upper .upper 0xff (.cons .upper .upper 0xff (.cons .upper .upper 0xff
          (.cons .upper .upper 0xff (.cons .lower .lower 0x0f .nil)))))))⟩
  refine ⟨someValues, numerals, denotes, ?_, ?_⟩
  · rw [← shown]
    exact both.encoded
  · rw [← numbers]
    exact both.decoded .absent _ denotes

end CompactInt
