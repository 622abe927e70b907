import CompactInt.Proofs.Tool.Arguments

/-! Flags and words. Before the first double hyphen an argument is a flag or a word, and behind it
every argument is a word. -/

set_option autoImplicit false

namespace CompactInt

namespace Refusal

variable {α β : Type} {given : Except Refusal α} {result : β}

theorem bind_eq_ok_iff {next : α → Except Refusal β} :
    given.bind next = .ok result ↔ ∃ value, given = .ok value ∧ next value = .ok result := by
  cases given <;> simp [Except.bind]

theorem map_eq_ok_iff {next : α → β} :
    given.map next = .ok result ↔ ∃ value, given = .ok value ∧ next value = result := by
  cases given <;> simp [Except.map]

end Refusal

/-! ## Arguments before and behind a double hyphen -/

namespace Arguments

/-- The arguments among which flags are recognised. -/
def options (arguments : List String) : List String := arguments.takeWhile (· ≠ "--")

def words : List String → List String
  | [] => []
  | text :: rest =>
    if text = "--" then rest
    else if text = "--upper" ∨ text = "--stdin" then words rest
    else text :: words rest

variable {text : String} (rest : List String)

@[simp] theorem options_separator : options ("--" :: rest) = [] := rfl

theorem options_cons (notSeparator : text ≠ "--") :
    options (text :: rest) = text :: options rest := by
  rw [options, List.takeWhile_cons_of_pos (by simpa using notSeparator), options]

theorem stdin_mem_options_cons (notSeparator : text ≠ "--") (notStdin : text ≠ "--stdin") :
    "--stdin" ∈ options (text :: rest) ↔ "--stdin" ∈ options rest := by
  rw [options_cons rest notSeparator, List.mem_cons, or_iff_right (Ne.symm notStdin)]

@[simp] theorem stdin_mem_options_upper :
    "--stdin" ∈ options ("--upper" :: rest) ↔ "--stdin" ∈ options rest :=
  stdin_mem_options_cons rest (by decide) (by decide)

@[simp] theorem stdin_mem_options_stdin : "--stdin" ∈ options ("--stdin" :: rest) := by
  rw [options_cons rest (by decide)]
  exact List.mem_cons_self

@[simp] theorem words_separator : words ("--" :: rest) = rest := rfl

@[simp] theorem words_upper : words ("--upper" :: rest) = words rest := rfl

@[simp] theorem words_stdin : words ("--stdin" :: rest) = words rest := rfl

theorem words_cons (notSeparator : text ≠ "--") (notUpper : text ≠ "--upper")
    (notStdin : text ≠ "--stdin") : words (text :: rest) = text :: words rest := by
  rw [words, if_neg notSeparator, if_neg (not_or.2 ⟨notUpper, notStdin⟩)]

end Arguments

namespace Token

variable {argument : String}

theorem eq_of_separator (separates : ofArgument argument = .separator) : argument = "--" := by
  unfold ofArgument at separates
  split at separates
  · next letters => exact String.toList_injective letters
  · split at separates <;> cases separates
  · cases separates
  · cases separates

theorem eq_of_long {text : String} {name : List Char} {value : Option (List Char)}
    (long : ofArgument argument = .long name value) (bare : ¬ value.isSome)
    (same : '-' :: '-' :: name = text.toList) : argument = text := by
  unfold ofArgument at long
  split at long
  · cases long
  · next letters =>
    split at long
    · cases long
      exact String.toList_injective (letters.trans same)
    · cases long
      exact absurd rfl bare
  · cases long
  · cases long

theorem ne_of_word (word : ofArgument argument = .word) :
    argument ≠ "--" ∧ argument ≠ "--upper" ∧ argument ≠ "--stdin" := by
  refine ⟨?_, ?_, ?_⟩
  all_goals
    rintro rfl
    exact absurd word (by decide)

end Token

/-! ## Behind the name of a command -/

namespace CommandArguments

variable {name : CommandName} {seen result : CommandArguments} {text : String}
  {rest : List String}

theorem of_checked {α : Type} {next : Except Refusal α} {value : α}
    (accepted : seen.checked name next = .ok value) : next = .ok value := by
  unfold checked at accepted
  split at accepted
  · cases accepted
  · exact accepted

theorem of_addValue (accepted : seen.addValue name text = .ok result) :
    name.takesMore seen.values.length ∧ result = { seen with values := seen.values ++ [text] } := by
  unfold addValue at accepted
  split at accepted
  · next room =>
    cases accepted
    exact ⟨room, rfl⟩
  · cases accepted

/-- How an argument behind the name of a command is taken. -/
inductive ReadStep (name : CommandName) (seen : CommandArguments) (text : String)
    (rest : List String) (result : CommandArguments) : Prop where
  | separator : text = "--" → seen.readVerbatim name rest = .ok result →
      ReadStep name seen text rest result
  | word : Token.ofArgument text = .word → name.takesMore seen.values.length →
      read name { seen with values := seen.values ++ [text] } rest = .ok result →
      ReadStep name seen text rest result
  | upper : text = "--upper" → read name { seen with upper := true } rest = .ok result →
      ReadStep name seen text rest result
  | stdin : text = "--stdin" → name = .decode →
      read name { seen with stdin := true } rest = .ok result →
      ReadStep name seen text rest result

theorem readStep_of_read (accepted : read name seen (text :: rest) = .ok result) :
    ReadStep name seen text rest result := by
  rw [read] at accepted
  split at accepted
  · next token => exact .separator (Token.eq_of_separator token) accepted
  · next token =>
    split at accepted
    · cases accepted
    · next next added =>
      obtain ⟨room, rfl⟩ := of_addValue added
      exact .word token room accepted
  · split at accepted
    · cases of_checked accepted
    · cases accepted
  · next flag value token =>
    -- Help is never accepted, and neither is a flag with a value or for the second time.
    split_ifs at accepted with help bare upper bare again stdin bare again
    · cases of_checked accepted
    · cases of_checked accepted
    · exact .upper (Token.eq_of_long token bare (congrArg (_ :: _ :: ·) upper))
        (of_checked accepted)
    · cases of_checked accepted
    · exact .stdin (Token.eq_of_long token bare (congrArg (_ :: _ :: ·) stdin.1)) stdin.2
        (of_checked accepted)

theorem length_le_one (room : name.takesMore seen.values.length) (oneValue : name ≠ .encode) :
    (seen.values ++ [text]).length ≤ 1 := by
  have empty : seen.values.length = 0 := by
    cases name with
    | encode => exact absurd rfl oneValue
    | decode => exact beq_iff_eq.1 room
    | packShort => exact beq_iff_eq.1 room
    | unpackShort => exact beq_iff_eq.1 room
  simp [empty]

structure Collected (name : CommandName) (seen : CommandArguments) (rest : List String)
    (result : CommandArguments) : Prop where
  values_eq : result.values = seen.values ++ Arguments.words rest
  stdin_iff : result.stdin ↔ seen.stdin ∨ "--stdin" ∈ Arguments.options rest
  of_stdin : "--stdin" ∈ Arguments.options rest → name = .decode
  single : name ≠ .encode → seen.values.length ≤ 1 → result.values.length ≤ 1

theorem collected_nil (name : CommandName) (seen : CommandArguments) :
    Collected name seen [] seen where
  values_eq := (List.append_nil seen.values).symm
  stdin_iff := by simp [Arguments.options]
  of_stdin := nofun
  single _ small := small

theorem collected_verbatim (accepted : seen.readVerbatim name rest = .ok result) :
    Collected name seen ("--" :: rest) result := by
  induction rest generalizing seen with
  | nil =>
    cases accepted
    exact { collected_nil name _ with }
  | cons text rest ih =>
    rw [readVerbatim] at accepted
    split at accepted
    · cases accepted
    · next added =>
      obtain ⟨room, rfl⟩ := of_addValue added
      have collected := ih accepted
      constructor
      case values_eq => simpa using collected.values_eq
      case stdin_iff => exact collected.stdin_iff
      case of_stdin => exact collected.of_stdin
      case single =>
        exact fun oneValue _ => collected.single oneValue (length_le_one room oneValue)

namespace Collected

theorem word (word : Token.ofArgument text = .word) (room : name.takesMore seen.values.length)
    (collected : Collected name { seen with values := seen.values ++ [text] } rest result) :
    Collected name seen (text :: rest) result := by
  obtain ⟨notSeparator, notUpper, notStdin⟩ := Token.ne_of_word word
  have others := Arguments.stdin_mem_options_cons rest notSeparator notStdin
  constructor
  case values_eq =>
    rw [Arguments.words_cons rest notSeparator notUpper notStdin]
    simpa using collected.values_eq
  case stdin_iff => simpa [others] using collected.stdin_iff
  case of_stdin => exact fun given => collected.of_stdin (others.1 given)
  case single =>
    exact fun oneValue _ => collected.single oneValue (length_le_one room oneValue)

theorem upper (collected : Collected name { seen with upper := true } rest result) :
    Collected name seen ("--upper" :: rest) result where
  values_eq := collected.values_eq
  stdin_iff := by simpa using collected.stdin_iff
  of_stdin := by simpa using collected.of_stdin
  single := collected.single

theorem stdin (isDecode : name = .decode)
    (collected : Collected name { seen with stdin := true } rest result) :
    Collected name seen ("--stdin" :: rest) result where
  values_eq := collected.values_eq
  stdin_iff := by simpa using collected.stdin_iff
  of_stdin _ := isDecode
  single := collected.single

end Collected

theorem collected_of_read (accepted : read name seen rest = .ok result) :
    Collected name seen rest result := by
  -- Every argument changes what has been seen, so the induction is over all of it.
  induction rest generalizing seen with
  | nil =>
    cases accepted
    exact collected_nil name _
  | cons text rest ih =>
    cases readStep_of_read accepted with
    | separator same verbatim => exact same ▸ collected_verbatim verbatim
    | word word room later => exact (ih later).word word room
    | upper same later => exact same ▸ (ih later).upper
    | stdin same isDecode later => exact same ▸ (ih later).stdin isDecode

end CommandArguments

end CompactInt
