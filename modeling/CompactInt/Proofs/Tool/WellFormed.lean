import CompactInt.Proofs.NormalForm
import CompactInt.Proofs.Source.Shapes
import CompactInt.Proofs.Tool.Words

/-! Commands that arguments can amount to. Every command has all that it needs and nothing besides,
so standard input is read if and only if its flag is there. -/

set_option autoImplicit false

namespace CompactInt

/-! ## Numbers -/

namespace Decimal

structure Below (bound : Nat) (text : String) (value : Nat) : Prop where
  read_eq : readInt64 text.toList = .ok (value : Int)
  lt_bound : value < bound

theorem below_of_readUpTo {last value : Nat} {text : String}
    (read : readUpTo last text.toList = .ok value) : Below (last + 1) text value := by
  unfold readUpTo at read
  split at read
  · cases read
  · next number given =>
    split at read
    · next within =>
      cases read
      rw [← Int.toNat_of_nonneg within.1] at given
      exact ⟨given, by omega⟩
    · cases read

end Decimal

theorem forall₂_of_readNumbers {slot : ValueSlot} {last : Nat} {texts : List String}
    {numbers : List Nat} (read : readNumbers slot last texts = .ok numbers) :
    List.Forall₂ (Decimal.Below (last + 1)) texts numbers :=
  (readNumbers_eq_ok_iff.1 read).imp fun _ _ => Decimal.below_of_readUpTo

theorem CommandName.forall₂_of_readValues {name : CommandName} {slot : ValueSlot} {last : Nat}
    {texts : List String} {numbers : List Nat} (read : name.readValues texts = .ok numbers)
    (ranged : name.range? = some (slot, last)) :
    List.Forall₂ (Decimal.Below (last + 1)) texts numbers := by
  rw [readValues, ranged] at read
  exact forall₂_of_readNumbers read

/-! ## Commands -/

namespace Command

/-- Everything that a command needs, and nothing besides: the words that name it and give its
values, and the flag for standard input on the one command that has no value. -/
inductive FullyGiven (flagged : Prop) : List String → Command → Prop where
  | encode {texts : List String} {values : List UInt32} :
      ¬ flagged → values ≠ [] →
      List.Forall₂ (fun text value => Decimal.Below (2 ^ 32) text value.toNat) texts values →
      FullyGiven flagged ("encode" :: texts) (.encode values)
  | decodeText {text : String} :
      ¬ flagged → FullyGiven flagged ["decode", text] (.decode (some text) false)
  | decodeInput : flagged → FullyGiven flagged ["decode"] (.decode none true)
  | packShort {text : String} {value : UInt16} :
      ¬ flagged → Decimal.Below (2 ^ 16) text value.toNat →
      FullyGiven flagged ["pack-short", text] (.packShort value)
  | unpackShort {text : String} :
      ¬ flagged → FullyGiven flagged ["unpack-short", text] (.unpackShort text)

end Command

def CommandName.text : CommandName → String
  | encode => "encode"
  | decode => "decode"
  | packShort => "pack-short"
  | unpackShort => "unpack-short"

theorem CommandName.eq_text_of_ofText? {text : String} {name : CommandName}
    (named : ofText? text = some name) : text = name.text := by
  unfold ofText? at named
  split_ifs at named with encode decode packShort unpackShort
  · cases named; exact encode
  · cases named; exact decode
  · cases named; exact packShort
  · cases named; exact unpackShort

namespace CommandArguments

variable {name : CommandName} {seen : CommandArguments}

theorem values_eq_singleton {text : String} {others : List String}
    (shape : seen.values = text :: others) (single : seen.values.length ≤ 1) :
    seen.values = [text] := by
  rw [shape, List.length_cons] at single
  rw [shape, List.length_eq_zero_iff.1 (Nat.le_zero.1 (Nat.le_of_succ_le_succ single))]

theorem fullyGiven_of_command {command : Command} (accepted : seen.command name = .ok command)
    (ofStdin : seen.stdin → name = .decode) (single : name ≠ .encode → seen.values.length ≤ 1) :
    Command.FullyGiven seen.stdin (name.text :: seen.values) command := by
  have unflagged (other : name ≠ .decode) : ¬ seen.stdin := mt ofStdin other
  unfold CommandArguments.command at accepted
  split at accepted
  · cases accepted
  next numbers read =>
  split at accepted
  case h_1 first others _ _ =>
    cases accepted
    have below := CommandName.forall₂_of_readValues read rfl
    -- A number below the bound is still the same number as a word.
    refine .encode (unflagged nofun) (List.cons_ne_nil _ _) (List.forall₂_map_right_iff.2 ?_)
    refine below.imp fun text number below => ?_
    rw [UInt32.toNat_ofNat_of_lt' below.lt_bound]
    exact below
  case h_2 number others _ _ =>
    cases accepted
    have below := CommandName.forall₂_of_readValues read rfl
    obtain ⟨text, rest, first, -, shape⟩ := List.forall₂_cons_right_iff.1 below
    rw [values_eq_singleton shape (single nofun)]
    refine .packShort (unflagged nofun) ?_
    rw [UInt16.toNat_ofNat_of_lt' first.lt_bound]
    exact first
  case h_3 text others shape =>
    cases accepted
    rw [values_eq_singleton shape (single nofun)]
    exact .unpackShort (unflagged nofun)
  case h_4 => cases accepted
  case h_5 text others shape noFlag =>
    cases accepted
    rw [values_eq_singleton shape (single nofun)]
    exact .decodeText (Bool.eq_false_iff.1 noFlag)
  case h_6 shape flag =>
    cases accepted
    rw [shape]
    exact .decodeInput flag
  case h_7 => cases accepted

end CommandArguments

/-! ## The whole list of arguments -/

namespace Invocation

structure Named (arguments : List String) (invocation : Invocation) (name : CommandName)
    (rest : List String) (seen : CommandArguments) : Prop where
  words_eq : Arguments.words arguments = name.text :: Arguments.words rest
  stdin_iff : "--stdin" ∈ Arguments.options arguments ↔ "--stdin" ∈ Arguments.options rest
  read_eq : CommandArguments.read name {} rest = .ok seen
  command_eq : seen.command name = .ok invocation.command

theorem named_of_name {upper : Bool} {text : String} {rest : List String} {name : CommandName}
    {invocation : Invocation} (named : CommandName.ofText? text = some name)
    (accepted : readFrom upper (text :: rest) = .ok invocation) :
    ∃ seen, Named (text :: rest) invocation name rest seen := by
  obtain ⟨word, -⟩ := CommandName.ofArgument_eq_word named
  obtain ⟨notSeparator, notUpper, notStdin⟩ := Token.ne_of_word word
  rw [readFrom_name named] at accepted
  obtain ⟨seen, read, given⟩ := Refusal.bind_eq_ok_iff.1 accepted
  obtain ⟨command, checked, rfl⟩ := Refusal.map_eq_ok_iff.1 given
  refine ⟨seen, ?_, ?_, read, checked⟩
  · rw [Arguments.words_cons rest notSeparator notUpper notStdin,
      CommandName.eq_text_of_ofText? named]
  · exact Arguments.stdin_mem_options_cons rest notSeparator notStdin

theorem readFrom_cons_cases {upper : Bool} {text : String} {rest : List String}
    {invocation : Invocation} (accepted : readFrom upper (text :: rest) = .ok invocation) :
    (text = "--upper" ∧ readFrom true rest = .ok invocation) ∨
      ∃ name, CommandName.ofText? text = some name := by
  rw [readFrom] at accepted
  split at accepted
  · cases accepted
  · cases accepted
  · next flag value token =>
    split_ifs at accepted with help upper bare
    exact .inl ⟨Token.eq_of_long token bare (congrArg (_ :: _ :: ·) upper), accepted⟩
  · split at accepted
    · cases accepted
    · split at accepted
      · cases accepted
      · next name named => exact .inr ⟨name, named⟩

theorem exists_named {upper : Bool} {arguments : List String} {invocation : Invocation}
    (accepted : readFrom upper arguments = .ok invocation) :
    ∃ name rest seen, Named arguments invocation name rest seen := by
  induction arguments generalizing upper with
  | nil => cases accepted
  | cons text rest ih =>
    rcases readFrom_cons_cases accepted with ⟨rfl, later⟩ | ⟨name, named⟩
    · obtain ⟨name, behind, seen, given⟩ := ih later
      refine ⟨name, behind, seen, given.words_eq, ?_, given.read_eq, given.command_eq⟩
      rw [Arguments.stdin_mem_options_upper]
      exact given.stdin_iff
    · obtain ⟨seen, given⟩ := named_of_name named accepted
      exact ⟨name, rest, seen, given⟩

end Invocation

/-! ## Reading standard input -/

namespace Command

/-- Standard input plays a part in what a command does. -/
def DependsOnInput (settings : Settings) (command : Command) : Prop :=
  ∃ first second output, run settings first output command ≠ run settings second output command

theorem run_decode_flag (settings : Settings) (stdin : Script) (output : Output)
    (hex : Option String) (first second : Bool) :
    run settings stdin output (.decode hex first) =
      run settings stdin output (.decode hex second) := by
  cases hex with
  | none => rfl
  | some text => rfl

theorem run_eq_of_not_readsInput (settings : Settings) {command : Command}
    (closed : ¬ command.readsInput) (first second : Script) (output : Output) :
    run settings first output command = run settings second output command := by
  cases command with
  | encode values => rfl
  | decode hex flag =>
    cases hex with
    | none => exact absurd rfl closed
    | some text => rfl
  | packShort value => rfl
  | unpackShort text => rfl

theorem dependsOnInput_iff {settings : Settings} (someAhead : 0 < settings.readAhead)
    (bounded : settings.readAhead ≤ Memory.maxBytes) (command : Command) :
    DependsOnInput settings command ↔ command.readsInput := by
  constructor
  · rintro ⟨first, second, output, differ⟩
    by_contra closed
    exact differ (run_eq_of_not_readsInput settings closed first second output)
  · intro reads
    obtain ⟨flag, rfl⟩ : ∃ flag, command = .decode none flag := by
      unfold readsInput at reads
      split at reads
      · exact ⟨_, rfl⟩
      · cases reads
    have shows (values : List UInt32) :
        (run settings (.ofBytes (Varint.encodings values)) {} (.decode none flag)).output.printed =
          Output.joined (Decimal.lines (values.map Varint.encode)) := by
      have division := (Varint.consistsOf_encodings values).division
      rw [← Script.items_ofBytes] at division
      exact (prints_decode_input someAhead bounded division flag).unlimited.1
    -- Without a number nothing is shown, and a zero is shown as a line.
    refine ⟨.ofBytes (Varint.encodings []), .ofBytes (Varint.encodings [0]), {}, fun same => ?_⟩
    have printed := congrArg (fun outcome => outcome.output.printed) same
    simp only [shows] at printed
    exact absurd printed (by decide +kernel)

end Command

theorem Command.FullyGiven.readsInput_iff {flagged : Prop} {words : List String}
    {command : Command} (given : FullyGiven flagged words command) :
    command.readsInput ↔ flagged ∧ ∃ hex flag, command = .decode hex flag := by
  cases given with
  | encode unflagged someValues below =>
    exact ⟨nofun, fun ⟨flagged, _⟩ => absurd flagged unflagged⟩
  | decodeText unflagged => exact ⟨nofun, fun ⟨flagged, _⟩ => absurd flagged unflagged⟩
  | decodeInput flagged => exact ⟨fun _ => ⟨flagged, none, true, rfl⟩, fun _ => rfl⟩
  | packShort unflagged below => exact ⟨nofun, fun ⟨flagged, _⟩ => absurd flagged unflagged⟩
  | unpackShort unflagged => exact ⟨nofun, fun ⟨flagged, _⟩ => absurd flagged unflagged⟩

theorem Invocation.Named.fullyGiven {arguments rest : List String} {invocation : Invocation}
    {name : CommandName} {seen : CommandArguments}
    (named : Named arguments invocation name rest seen) :
    Command.FullyGiven ("--stdin" ∈ Arguments.options arguments) (Arguments.words arguments)
      invocation.command := by
  have collected := CommandArguments.collected_of_read named.read_eq
  have flagged : seen.stdin ↔ "--stdin" ∈ Arguments.options arguments := by
    rw [collected.stdin_iff, named.stdin_iff, or_iff_right Bool.false_ne_true]
  have given := CommandArguments.fullyGiven_of_command named.command_eq
    (fun flag => collected.of_stdin (named.stdin_iff.1 (flagged.1 flag)))
    (fun oneValue => collected.single oneValue (Nat.zero_le 1))
  rwa [flagged, collected.values_eq, List.nil_append, ← named.words_eq] at given

/-- Every command that arguments amount to is fully given. Standard input is read, and plays a
part, exactly for decoding with the flag for it, and this flag is not looked at any more when
the command is run. -/
theorem command_fullyGiven {arguments : List String} {invocation : Invocation}
    (accepted : Invocation.ofArguments arguments = .ok invocation) :
    let flagged := "--stdin" ∈ Arguments.options arguments
    Command.FullyGiven flagged (Arguments.words arguments) invocation.command ∧
      (invocation.command.readsInput ↔
        flagged ∧ ∃ hex flag, invocation.command = .decode hex flag) ∧
      (invocation.command.DependsOnInput invocation.settings ↔ invocation.command.readsInput) ∧
      ∀ settings stdin output hex first second,
        Command.run settings stdin output (.decode hex first) =
          Command.run settings stdin output (.decode hex second) := by
  intro flagged
  obtain ⟨name, rest, seen, named⟩ := Invocation.exists_named accepted
  refine ⟨named.fullyGiven, named.fullyGiven.readsInput_iff, ?_, Command.run_decode_flag⟩
  have someAhead : 0 < invocation.settings.readAhead := show 0 < 65536 by decide
  have bounded : invocation.settings.readAhead ≤ Memory.maxBytes :=
    show 65536 ≤ 0x7fffffffffffffff by decide
  exact Command.dependsOnInput_iff someAhead bounded invocation.command

/-- Behind a double hyphen the flag is a text like any other, and nothing is read. -/
theorem command_fullyGiven_verbatim :
    let flag := ["--upper", "decode", "--stdin"]
    let text := ["decode", "--upper", "--", "--stdin"]
    Invocation.ofArguments flag = .ok ⟨true, .decode none true⟩ ∧
      Command.FullyGiven ("--stdin" ∈ Arguments.options flag) ["decode"] (.decode none true) ∧
      Command.DependsOnInput { letters := .upper } (.decode none true) ∧
      Invocation.ofArguments text = .ok ⟨true, .decode (some "--stdin") false⟩ ∧
      ¬ Command.DependsOnInput { letters := .upper } (.decode (some "--stdin") false) := by
  intro flag text
  have first : Invocation.ofArguments flag = .ok ⟨true, .decode none true⟩ := by decide +kernel
  have second : Invocation.ofArguments text = .ok ⟨true, .decode (some "--stdin") false⟩ := by
    decide +kernel
  obtain ⟨given, -, reads, -⟩ := command_fullyGiven first
  obtain ⟨-, -, closed, -⟩ := command_fullyGiven second
  exact ⟨first, given, reads.2 rfl, second, mt closed.1 Bool.false_ne_true⟩

end CompactInt
