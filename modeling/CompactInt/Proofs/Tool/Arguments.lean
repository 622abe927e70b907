import CompactInt.Proofs.Text.Decimal
import CompactInt.Tool.Arguments
import Mathlib.Data.List.Forall2

/-! Arguments that amount to a command: its name, the values behind it, and the flag for capital
letters on either side of the name. -/

set_option autoImplicit false

namespace CompactInt

theorem Token.ofArgument_eq_word {argument : String} (bare : argument.toList.head? ≠ some '-') :
    ofArgument argument = .word := by
  unfold ofArgument
  split
  · next same => exact absurd (congrArg List.head? same) bare
  · next same => exact absurd (congrArg List.head? same) bare
  · next same => exact absurd (congrArg List.head? same) bare
  · rfl

theorem CommandName.ofArgument_eq_word {text : String} {name : CommandName}
    (named : ofText? text = some name) : Token.ofArgument text = .word ∧ text ≠ "help" := by
  unfold ofText? at named
  split_ifs at named with encode decode packShort unpackShort
  · subst encode; decide
  · subst decode; decide
  · subst packShort; decide
  · subst unpackShort; decide

namespace CommandArguments

variable {name : CommandName} {seen : CommandArguments} {texts : List String}

theorem readVerbatim_of_room
    (room : ∀ count < seen.values.length + texts.length, name.takesMore count) :
    readVerbatim name seen texts = .ok { seen with values := seen.values ++ texts } := by
  induction texts generalizing seen with
  | nil => rw [readVerbatim, List.append_nil]
  | cons text rest ih =>
    rw [List.length_cons] at room
    have added : seen.addValue name text = .ok { seen with values := seen.values ++ [text] } :=
      if_pos (room seen.values.length (by omega))
    rw [readVerbatim, added]
    dsimp only
    -- One value more is seen and one argument less is left, so the bound stays the same.
    rw [ih, List.append_assoc, List.singleton_append]
    intro count below
    rw [List.length_append, List.length_singleton] at below
    exact room count (by omega)

/-- A double hyphen makes no difference to texts that are words anyway. -/
theorem read_eq_readVerbatim (words : ∀ text ∈ texts, Token.ofArgument text = .word) :
    read name seen texts = readVerbatim name seen texts := by
  induction texts generalizing seen with
  | nil => rfl
  | cons text rest ih =>
    obtain ⟨word, others⟩ := List.forall_mem_cons.1 words
    rw [read, word, readVerbatim]
    dsimp only
    cases seen.addValue name text with
    | error refusal => rfl
    | ok seen => exact ih others

theorem read_words (words : ∀ text ∈ texts, Token.ofArgument text = .word)
    (room : ∀ count < seen.values.length + texts.length, name.takesMore count) :
    read name seen texts = .ok { seen with values := seen.values ++ texts } := by
  rw [read_eq_readVerbatim words, readVerbatim_of_room room]

end CommandArguments

/-- Where the flag for capital letters stands, if it is given. -/
inductive FlagPlace where
  | absent
  | beforeName
  | behindName
  deriving DecidableEq, Repr

namespace FlagPlace

def upper : FlagPlace → Bool
  | absent => false
  | beforeName | behindName => true

def letters (place : FlagPlace) : HexCase := if place.upper then .upper else .lower

def arguments (place : FlagPlace) (name : String) (values : List String) : List String :=
  match place with
  | absent => name :: values
  | beforeName => "--upper" :: name :: values
  | behindName => name :: "--upper" :: values

end FlagPlace

namespace Invocation

variable {text : String} {name : CommandName} (named : CommandName.ofText? text = some name)

include named

theorem readFrom_name (upper : Bool) (rest : List String) :
    readFrom upper (text :: rest) =
      (CommandArguments.read name {} rest).bind fun seen =>
        (seen.command name).map fun command => ⟨upper || seen.upper, command⟩ := by
  obtain ⟨word, noHelp⟩ := CommandName.ofArgument_eq_word named
  rw [readFrom, word]
  dsimp only
  rw [if_neg noHelp, named]
  dsimp only
  rcases CommandArguments.read name {} rest with refusal | seen
  · rfl
  · rcases CommandArguments.command name seen with refusal | command <;> rfl

theorem ofArguments_place {values : List String}
    (words : ∀ value ∈ values, Token.ofArgument value = .word)
    (room : ∀ count < values.length, name.takesMore count) (place : FlagPlace) :
    ofArguments (place.arguments text values) =
      (CommandArguments.command name { values }).map fun command => ⟨place.upper, command⟩ := by
  have collected (upper : Bool) : CommandArguments.read name { upper } values =
      .ok { upper, values } := by
    rw [CommandArguments.read_words words]
    · rw [List.nil_append]
    · rwa [List.length_nil, Nat.zero_add]
  cases place with
  | absent =>
    rw [ofArguments, FlagPlace.arguments, readFrom_name named, collected false]
    rfl
  | beforeName =>
    rw [ofArguments, FlagPlace.arguments]
    show readFrom true (text :: values) = _
    rw [readFrom_name named, collected false]
    rfl
  | behindName =>
    -- No value stands before the flag, so there is none to be checked there.
    have flagged : CommandArguments.read name {} ("--upper" :: values) =
        CommandArguments.read name { upper := true } values := by
      cases name <;> rfl
    rw [ofArguments, FlagPlace.arguments, readFrom_name named, flagged, collected true]
    rfl

/-- Behind a double hyphen the texts need not be words. -/
theorem ofArguments_verbatim {values : List String}
    (room : ∀ count < values.length, name.takesMore count) :
    ofArguments (text :: "--" :: values) =
      (CommandArguments.command name { values }).map fun command => ⟨false, command⟩ := by
  have collected : CommandArguments.read name {} ("--" :: values) = .ok { values } := by
    show CommandArguments.readVerbatim name {} values = .ok { values }
    rw [CommandArguments.readVerbatim_of_room]
    · rw [List.nil_append]
    · rwa [List.length_nil, Nat.zero_add]
  rw [ofArguments, readFrom_name named, collected]
  rfl

end Invocation

/-! ## Numbers -/

theorem readNumbers_eq_ok_iff {slot : ValueSlot} {last : Nat} {texts : List String}
    {numbers : List Nat} :
    readNumbers slot last texts = .ok numbers ↔
      List.Forall₂ (fun text number => Decimal.readUpTo last text.toList = .ok number)
        texts numbers := by
  induction texts generalizing numbers with
  | nil => rw [readNumbers, Except.ok.injEq, List.forall₂_nil_left_iff, eq_comm]
  | cons text rest ih =>
    rw [readNumbers, List.forall₂_cons_left_iff]
    cases first : Decimal.readUpTo last text.toList with
    | error fault => exact ⟨nofun, nofun⟩
    | ok value =>
      dsimp only
      constructor
      · intro read
        cases later : readNumbers slot last rest with
        | error refusal => rw [later] at read; cases read
        | ok others =>
          rw [later] at read
          cases read
          exact ⟨value, others, rfl, ih.1 later, rfl⟩
      · rintro ⟨_, others, same, later, rfl⟩
        cases same
        rw [ih.2 later]
        rfl

def Numerals (texts : List String) (values : List UInt32) : Prop :=
  List.Forall₂ (fun text value => Decimal.Numeral text.toList value.toNat) texts values

theorem Decimal.Numeral.ofArgument_eq_word {text : String} {value : Nat}
    (numeral : Numeral text.toList value) : Token.ofArgument text = .word := by
  apply Token.ofArgument_eq_word
  intro dash
  have digit := numeral.digits '-' (List.mem_of_mem_head? dash)
  exact absurd digit (by decide)

namespace Numerals

variable {texts more : List String} {values others : List UInt32}

theorem ofArgument_eq_word (numerals : Numerals texts values) :
    ∀ text ∈ texts, Token.ofArgument text = .word := by
  induction numerals with
  | nil => exact nofun
  | cons numeral _ ih => exact List.forall_mem_cons.2 ⟨numeral.ofArgument_eq_word, ih⟩

theorem readNumbers (numerals : Numerals texts values) (slot : ValueSlot) :
    readNumbers slot (UInt32.size - 1) texts = .ok (values.map UInt32.toNat) := by
  apply readNumbers_eq_ok_iff.2
  apply List.forall₂_map_right_iff.2
  refine numerals.imp fun text value numeral => ?_
  exact Decimal.readUpTo_of_numeral numeral (Nat.le_sub_one_of_lt value.toNat_lt_size) (by decide)

theorem append (front : Numerals texts values) (back : Numerals more others) :
    Numerals (texts ++ more) (values ++ others) :=
  List.rel_append front back

theorem command_encode (numerals : Numerals texts values) (someValues : values ≠ []) :
    CommandArguments.command .encode { values := texts } = .ok (.encode values) := by
  obtain ⟨value, rest, rfl⟩ := List.exists_cons_of_ne_nil someValues
  have read : CommandName.readValues .encode texts = .ok ((value :: rest).map UInt32.toNat) :=
    numerals.readNumbers .values
  have back : ((value :: rest).map UInt32.toNat).map UInt32.ofNat = value :: rest := by
    simp [Function.comp_def]
  rw [CommandArguments.command, read]
  exact congrArg (Except.ok ∘ Command.encode) back

end Numerals

end CompactInt
