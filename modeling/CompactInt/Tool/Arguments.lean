import CompactInt.Text.Decimal
import CompactInt.Text.Hex
import CompactInt.Text.Terminal

/-! Commands, and the lists of arguments that amount to them. Values that stand before a flag are
checked when the flag is reached, so a bad value there wins over what the flag leads to. -/

set_option autoImplicit false

namespace CompactInt

inductive Command where
  | encode (values : List UInt32)
  | decode (hex : Option String) (stdin : Bool)
  | packShort (value : UInt16)
  | unpackShort (hex : String)
  deriving DecidableEq, Repr

/-- A text takes precedence over standard input. -/
def Command.readsInput : Command → Bool
  | .decode none _ => true
  | _ => false

structure Settings where
  letters : HexCase := .lower
  /-- How many bytes of standard input are read ahead. -/
  readAhead : Nat := 65536
  deriving DecidableEq, Repr

inductive ValueSlot where
  | values
  | value
  deriving DecidableEq, Repr

def ValueSlot.label : ValueSlot → String
  | values => "<VALUES>..."
  | value => "<VALUE>"

inductive Refusal where
  | helpRequested
  | nothingRequested
  | missingCommand
  | missingValue
  | unknownCommand
  | unknownArgument
  | conflict
  | unexpectedFlagValue
  | invalidValue (text : String) (slot : ValueSlot) (fault : NumeralFault)
  deriving DecidableEq, Repr

namespace Refusal

def exitCode : Refusal → Nat
  | helpRequested => 0
  | _ => 2

/-- The first paragraph of the message about a bad value. -/
def message? : Refusal → Option String
  | invalidValue text slot fault =>
    let shown := String.ofList (Terminal.shown text.toList)
    some (String.ofList (Terminal.firstParagraph
      (s!"error: invalid value '{shown}' for '{slot.label}': {fault.message}").toList))
  | _ => none

end Refusal

inductive Token where
  | separator
  /-- A name behind two hyphens, and what follows an equals sign. -/
  | long (name : List Char) (value : Option (List Char))
  | short (first : Char) (rest : List Char)
  | word
  deriving DecidableEq, Repr

def Token.ofArgument (argument : String) : Token :=
  match argument.toList with
  | ['-', '-'] => .separator
  | '-' :: '-' :: text =>
    match text.dropWhile (· != '=') with
    | [] => .long text none
    | _ :: value => .long (text.takeWhile (· != '=')) (some value)
  | '-' :: first :: rest => .short first rest
  | _ => .word

inductive CommandName where
  | encode
  | decode
  | packShort
  | unpackShort
  deriving DecidableEq, Repr

namespace CommandName

def ofText? (text : String) : Option CommandName :=
  if text = "encode" then some encode
  else if text = "decode" then some decode
  else if text = "pack-short" then some packShort
  else if text = "unpack-short" then some unpackShort
  else none

def takesMore (name : CommandName) (count : Nat) : Bool :=
  match name with
  | encode => true
  | _ => count == 0

def range? : CommandName → Option (ValueSlot × Nat)
  | encode => some (.values, UInt32.size - 1)
  | packShort => some (.value, UInt16.size - 1)
  | decode | unpackShort => none

end CommandName

structure Invocation where
  upper : Bool
  command : Command
  deriving DecidableEq, Repr

def Invocation.settings (invocation : Invocation) : Settings where
  letters := if invocation.upper then .upper else .lower

structure CommandArguments where
  upper : Bool := false
  stdin : Bool := false
  values : List String := []
  deriving DecidableEq, Repr

def readNumbers (slot : ValueSlot) (bound : Nat) : List String → Except Refusal (List Nat)
  | [] => .ok []
  | text :: rest =>
    match Decimal.readUpTo bound text.toList with
    | .error fault => .error (.invalidValue text slot fault)
    | .ok value => (readNumbers slot bound rest).map (value :: ·)

def CommandName.readValues (name : CommandName) (values : List String) :
    Except Refusal (List Nat) :=
  match name.range? with
  | some (slot, bound) => readNumbers slot bound values
  | none => .ok []

namespace CommandArguments

/-- Goes on behind a recognised flag, if the values before it are good. -/
def checked {α : Type} (name : CommandName) (seen : CommandArguments)
    (result : Except Refusal α) : Except Refusal α :=
  match name.readValues seen.values with
  | .error refusal => .error refusal
  | .ok _ => result

def addValue (name : CommandName) (seen : CommandArguments) (text : String) :
    Except Refusal CommandArguments :=
  if name.takesMore seen.values.length then
    .ok { seen with values := seen.values ++ [text] }
  else .error .unknownArgument

def readVerbatim (name : CommandName) (seen : CommandArguments) :
    List String → Except Refusal CommandArguments
  | [] => .ok seen
  | text :: rest =>
    match seen.addValue name text with
    | .error refusal => .error refusal
    | .ok seen => readVerbatim name seen rest

def read (name : CommandName) (seen : CommandArguments) :
    List String → Except Refusal CommandArguments
  | [] => .ok seen
  | text :: rest =>
    match Token.ofArgument text with
    | .separator => seen.readVerbatim name rest
    | .word =>
      match seen.addValue name text with
      | .error refusal => .error refusal
      | .ok seen => read name seen rest
    | .short first _ =>
      if first = 'h' then seen.checked name (.error .helpRequested) else .error .unknownArgument
    | .long flag value =>
      if flag = "help".toList then
        if value.isSome then .error .unexpectedFlagValue
        else seen.checked name (.error .helpRequested)
      else if flag = "upper".toList then
        if value.isSome then .error .unexpectedFlagValue
        else seen.checked name
          (if seen.upper then .error .conflict else read name { seen with upper := true } rest)
      else if flag = "stdin".toList ∧ name = .decode then
        if value.isSome then .error .unexpectedFlagValue
        else seen.checked name
          (if seen.stdin then .error .conflict else read name { seen with stdin := true } rest)
      else .error .unknownArgument

def command (name : CommandName) (seen : CommandArguments) : Except Refusal Command :=
  match name.readValues seen.values with
  | .error refusal => .error refusal
  | .ok numbers =>
    match name, numbers, seen.values, seen.stdin with
    | .encode, _ :: _, _, _ => .ok (.encode (numbers.map UInt32.ofNat))
    | .packShort, value :: _, _, _ => .ok (.packShort (UInt16.ofNat value))
    | .unpackShort, _, text :: _, _ => .ok (.unpackShort text)
    | .decode, _, _ :: _, true => .error .conflict
    | .decode, _, text :: _, false => .ok (.decode (some text) false)
    | .decode, _, [], true => .ok (.decode none true)
    | _, _, _, _ => .error .missingValue

end CommandArguments

namespace Invocation

def readHelp : List String → Refusal
  | [] => .helpRequested
  | [topic] =>
    if topic = "help" ∨ (CommandName.ofText? topic).isSome then .helpRequested
    else .unknownCommand
  | _ => .unknownCommand

/-- Behind a double hyphen no command can be named any more. -/
def readBareWord (upper : Bool) : List String → Refusal
  | [] => if upper then .missingCommand else .nothingRequested
  | text :: _ =>
    if text = "help" ∨ (CommandName.ofText? text).isSome then .unknownArgument
    else .unknownCommand

def readFrom (upper : Bool) : List String → Except Refusal Invocation
  | [] => .error (if upper then .missingCommand else .nothingRequested)
  | text :: rest =>
    match Token.ofArgument text with
    | .separator => .error (readBareWord upper rest)
    | .short first _ => .error (if first = 'h' then .helpRequested else .unknownArgument)
    | .long flag value =>
      if flag = "help".toList then
        .error (if value.isSome then .unexpectedFlagValue else .helpRequested)
      else if flag = "upper".toList then
        if value.isSome then .error .unexpectedFlagValue
        else if upper then .error .conflict
        else readFrom true rest
      else .error .unknownArgument
    | .word =>
      if text = "help" then .error (readHelp rest)
      else match CommandName.ofText? text with
        | none => .error .unknownCommand
        | some name => do
          let seen ← CommandArguments.read name {} rest
          let command ← seen.command name
          return { upper := upper || seen.upper, command }

def ofArguments (arguments : List String) : Except Refusal Invocation := readFrom false arguments

end Invocation

end CompactInt
