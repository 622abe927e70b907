import CompactInt.Proofs.Text.Spelling
import CompactInt.Proofs.Tool.Decoding

/-! Encoded numbers of which only the front is left: whole encodings, and a part of the next one
that is too short to be malformed. -/

set_option autoImplicit false

namespace CompactInt

namespace Varint

def encodings (values : List UInt32) : List UInt8 := values.flatMap encode

def boundary (values : List UInt32) (count : Nat) : Nat := (encodings (values.take count)).length

section

variable (value : UInt32) (values : List UInt32) (count : Nat)

@[simp] theorem encodings_cons :
    encodings (value :: values) = encode value ++ encodings values := rfl

@[simp] theorem boundary_zero : boundary values 0 = 0 := rfl

@[simp] theorem boundary_cons_succ :
    boundary (value :: values) (count + 1) = (encode value).length + boundary values count := by
  simp [boundary]

theorem flatten_map_encode : (values.map encode).flatten = encodings values :=
  List.flatMap_def.symm

theorem boundary_mono {first second : Nat} (before : first ≤ second) :
    boundary values first ≤ boundary values second := by
  induction values generalizing first second with
  | nil => simp [boundary]
  | cons value rest ih =>
    cases first with
    | zero => exact Nat.zero_le _
    | succ first =>
      cases second with
      | zero => omega
      | succ second =>
        simp only [boundary_cons_succ]
        exact Nat.add_le_add_left (ih (Nat.le_of_succ_le_succ before)) _

end

def OnBoundary (values : List UInt32) (place : Nat) : Prop :=
  ∃ count ≤ values.length, boundary values count = place

/-- A place in the stream, told by the number of encodings that end by then and the number of
bytes behind the last of them. -/
structure Located (values : List UInt32) (place complete consumed : Nat) : Prop where
  complete_le : complete ≤ values.length
  ends_iff : ∀ count ≤ values.length, boundary values count ≤ place ↔ count ≤ complete
  boundary_add : boundary values complete + consumed = place
  consumed_le : consumed ≤ 4
  consumed_eq_zero_iff : consumed = 0 ↔ OnBoundary values place

/-- The bytes before a place are the encodings that end by then and a part of the next one. -/
structure Cut (values : List UInt32) (place complete : Nat) (part : List UInt8) : Prop where
  complete_le : complete ≤ values.length
  bytes_eq : (encodings values).take place = encodings (values.take complete) ++ part
  continues : ∀ byte ∈ part, Continues byte
  short : part.length ≤ 4
  ends_iff : ∀ count ≤ values.length, boundary values count ≤ place ↔ count ≤ complete

theorem Cut.inside {value : UInt32} {place : Nat} (inside : place < (encode value).length)
    (values : List UInt32) : Cut (value :: values) place 0 ((encode value).take place) := by
  obtain ⟨lead, last, shape, continues, -⟩ := encode_eq_append value
  have few := length_encode_le value
  have inLead : place ≤ lead.length := by
    rw [shape, List.length_append, List.length_singleton] at inside
    exact Nat.le_of_lt_succ inside
  constructor
  case complete_le => exact Nat.zero_le _
  case bytes_eq => rw [encodings_cons, List.take_append_of_le_length (Nat.le_of_lt inside)]; rfl
  case continues =>
    rw [shape, List.take_append_of_le_length inLead]
    exact fun byte member => continues byte (List.mem_of_mem_take member)
  case short => rw [List.length_take]; omega
  case ends_iff =>
    intro count _
    cases count with
    | zero => simp
    | succ count => rw [boundary_cons_succ]; omega

theorem Cut.cons {values : List UInt32} {place complete : Nat} {part : List UInt8}
    (cut : Cut values place complete part) (value : UInt32) :
    Cut (value :: values) ((encode value).length + place) (complete + 1) part := by
  constructor
  case complete_le => exact Nat.succ_le_succ cut.complete_le
  case bytes_eq =>
    rw [encodings_cons, List.take_length_add_append, cut.bytes_eq, List.take_succ_cons,
      encodings_cons, List.append_assoc]
  case continues => exact cut.continues
  case short => exact cut.short
  case ends_iff =>
    intro count inside
    cases count with
    | zero => simp
    | succ count =>
      have later := cut.ends_iff count (Nat.le_of_succ_le_succ inside)
      rw [boundary_cons_succ, Nat.add_le_add_iff_left, later, Nat.add_le_add_iff_right]

theorem exists_cut {values : List UInt32} {place : Nat}
    (within : place ≤ (encodings values).length) :
    ∃ complete part, Cut values place complete part := by
  induction values generalizing place with
  | nil =>
    obtain rfl := Nat.le_zero.1 within
    refine ⟨0, [], Nat.le_refl 0, rfl, nofun, Nat.zero_le 4, ?_⟩
    intro count noneMore
    rw [Nat.le_zero.1 noneMore]
    rfl
  | cons value rest ih =>
    rcases Nat.lt_or_ge place (encode value).length with inside | beyond
    · exact ⟨0, _, Cut.inside inside rest⟩
    · obtain ⟨more, rfl⟩ := Nat.exists_eq_add_of_le beyond
      rw [encodings_cons, List.length_append, Nat.add_le_add_iff_left] at within
      obtain ⟨complete, part, cut⟩ := ih within
      exact ⟨complete + 1, part, cut.cons value⟩

namespace Cut

variable {values : List UInt32} {place complete : Nat} {part : List UInt8}
  (cut : Cut values place complete part)

include cut

theorem boundary_add (within : place ≤ (encodings values).length) :
    boundary values complete + part.length = place := by
  have lengths := congrArg List.length cut.bytes_eq
  rw [List.length_take, Nat.min_eq_left within, List.length_append] at lengths
  exact lengths.symm

theorem located (within : place ≤ (encodings values).length) :
    Located values place complete part.length := by
  have ends := cut.boundary_add within
  constructor
  case complete_le => exact cut.complete_le
  case ends_iff => exact cut.ends_iff
  case boundary_add => exact ends
  case consumed_le => exact cut.short
  case consumed_eq_zero_iff =>
    constructor
    · intro nothing
      exact ⟨complete, cut.complete_le, by omega⟩
    · rintro ⟨count, inside, rfl⟩
      have last := boundary_mono values ((cut.ends_iff count inside).1 (Nat.le_refl _))
      omega

theorem division : Item.Division (((encodings values).take place).map .byte)
    ((values.take complete).map encode) (part.map .byte) (.unexpectedEnd part.length) := by
  constructor
  case items_eq => rw [cut.bytes_eq, flatten_map_encode, List.map_append]
  case isValue =>
    intro number member
    obtain ⟨value, -, rfl⟩ := List.mem_map.1 member
    exact isValue_encode value
  case stuck =>
    have few : part.length < 10 := Nat.lt_of_le_of_lt cut.short (by decide)
    rw [ByteSource.readVarint_nil cut.continues few, if_pos cut.short]

end Cut

end Varint

theorem Command.success_decode_text_iff {text : String} {bytes : List UInt8}
    {numbers : List (List UInt8)} {rest : List Item} {failure : Failure}
    (denotes : Hex.Denotes text bytes)
    (division : Item.Division (bytes.map .byte) numbers rest failure) {output : Output}
    (unlimited : output.quota = none) (settings : Settings) (stdin : Script) (flag : Bool) :
    (run settings stdin output (.decode (some text) flag)).result = .ok () ↔
      failure.isCleanEnd := by
  obtain ⟨result, -⟩ :=
    run_decode_text output (readHex_of_denotes denotes) division settings stdin flag
  rw [result, printLines_unlimited _ unlimited]
  exact verdict_eq_ok_iff _ _

open Varint in
/-- A stream of encodings that is cut off at any place is read back up to the last encoding
that is whole. The end is told as unexpected, with the number of bytes behind that encoding,
and it is regular exactly at a boundary. -/
theorem readVarints_truncated (values : List UInt32) (place : Nat)
    (within : place ≤ (encodings values).length) :
    let bytes := (encodings values).take place
    ∃ complete consumed, Located values place complete consumed ∧
      (∀ {σ : Type} [ByteSource σ] [ItemSource σ] (source : σ),
        ItemSource.items source = bytes.map .byte →
        ByteSource.readVarints source = (values.take complete, .unexpectedEnd consumed)) ∧
      ((Failure.unexpectedEnd consumed).isCleanEnd ↔ OnBoundary values place) ∧
      ∀ (text : String) (settings : Settings) (stdin : Script) (output : Output) (flag : Bool),
        Hex.Denotes text bytes → output.quota = none →
        ((Command.run settings stdin output (.decode (some text) flag)).result = .ok () ↔
          OnBoundary values place) := by
  intro bytes
  -- The part of the next encoding is too short to be malformed, so it is the rest of a division.
  obtain ⟨complete, part, cut⟩ := exists_cut within
  have located := cut.located within
  have clean : (Failure.unexpectedEnd part.length).isCleanEnd ↔ OnBoundary values place :=
    Failure.isCleanEnd_iff.trans
      ((Failure.unexpectedEnd.injEq _ _).to_iff.trans located.consumed_eq_zero_iff)
  refine ⟨complete, part.length, located, ?_, clean, ?_⟩
  · intro σ _ _ source same
    have read := cut.division.readVarints
    rw [← same, ByteSource.readVarints_items, List.map_map] at read
    rw [read]
    simp [Function.comp_def, denoted_encode]
  · intro text settings stdin output flag denotes unlimited
    exact (Command.success_decode_text_iff denotes cut.division unlimited settings stdin flag).trans
      clean

open Varint in
theorem readVarints_truncated_torn :
    let values : List UInt32 := [300, 5, 0xffffffff]
    let bytes : List UInt8 := [0xac, 0x02, 0x05, 0xff, 0xff, 0xff]
    6 ≤ (encodings values).length ∧ (encodings values).take 6 = bytes ∧
      ByteSource.readVarints (ReadBuffer.plain bytes) = ([300, 5], .unexpectedEnd 3) ∧
      (Command.run {} [] {} (.decode (some (String.ofList (Hex.render .upper bytes))) false)).result
        ≠ .ok () := by
  intro values bytes
  have within : 6 ≤ (encodings values).length := by cbv
  have front : (encodings values).take 6 = bytes := by cbv
  obtain ⟨complete, consumed, located, read, -, decoded⟩ := readVarints_truncated values 6 within
  have two : boundary values 2 = 3 := by cbv
  have three : boundary values 3 = 8 := by cbv
  have whole : 2 ≤ complete := (located.ends_iff 2 (by decide)).1 (by omega)
  have torn : ¬ 3 ≤ complete := fun more =>
    absurd ((located.ends_iff 3 (by decide)).2 more) (by omega)
  obtain rfl : complete = 2 := by omega
  obtain rfl : consumed = 3 := by have := located.boundary_add; omega
  rw [front] at read decoded
  refine ⟨within, front, read (ReadBuffer.plain bytes) rfl, ?_⟩
  rw [ne_eq, decoded _ {} [] {} false (Hex.denotes_render .upper bytes) rfl,
    ← located.consumed_eq_zero_iff]
  decide

end CompactInt
