import CompactInt.Proofs.Composition
import CompactInt.Proofs.Source.Resumption
import CompactInt.Proofs.Truncation
import CompactInt.Proofs.Varint.Canonical
import Mathlib.Algebra.Order.BigOperators.Group.List

/-! Decoded numbers encoded again. A byte string that is decoded to its regular end consists of
numbers in one way only, so its normal form is decoded alike and is its own normal form. -/

set_option autoImplicit false

namespace CompactInt

namespace Varint

def normalForm (bytes : List UInt8) : List UInt8 := encodings (decoded bytes).1

/-- The byte string is made up of the bytes of these numbers, and each can be read alone. -/
structure ConsistsOf (bytes : List UInt8) (numbers : List (List UInt8)) : Prop where
  eq_flatten : bytes = numbers.flatten
  isValue : ∀ number ∈ numbers, IsValue number

namespace ConsistsOf

variable {bytes : List UInt8} {numbers : List (List UInt8)} (consists : ConsistsOf bytes numbers)

include consists

theorem division : Item.Division (bytes.map .byte) numbers [] (.unexpectedEnd 0) where
  items_eq := by rw [consists.eq_flatten, List.append_nil]
  isValue := consists.isValue
  stuck := congrArg Prod.fst (ByteSource.finishVarint_end {} rfl)

theorem decoded_eq : decoded bytes = (numbers.map denoted, .unexpectedEnd 0) :=
  consists.division.decoded

theorem segmented :
    Segmented bytes (numbers.map fun number => (number, .ok (denoted number))) := by
  obtain ⟨rfl, isValue⟩ := consists
  induction numbers with
  | nil => exact .nil
  | cons number numbers ih =>
    obtain ⟨first, later⟩ := List.forall_mem_cons.1 isValue
    exact .cons (.number _ first) (ih later)

theorem unique {others : List (List UInt8)} (again : ConsistsOf bytes others) :
    numbers = others := by
  have same := congrArg (List.map Prod.fst) (consists.segmented.unique again.segmented)
  rw [List.map_map, List.map_map] at same
  exact List.map_injective_iff.2 Function.injective_id same

end ConsistsOf

theorem isCleanEnd_decoded_iff {bytes : List UInt8} :
    (decoded bytes).2.isCleanEnd ↔ ∃ numbers, ConsistsOf bytes numbers := by
  constructor
  · intro clean
    obtain ⟨numbers, rest, failure, division⟩ := Item.exists_division (bytes.map .byte)
    rw [division.decoded] at clean
    exact ⟨numbers, (division.flatten_of_clean clean).2, division.isValue⟩
  · rintro ⟨numbers, consists⟩
    rw [consists.decoded_eq]
    rfl

theorem consistsOf_encodings (values : List UInt32) :
    ConsistsOf (encodings values) (values.map encode) where
  eq_flatten := (flatten_map_encode values).symm
  isValue number member := by
    obtain ⟨value, -, rfl⟩ := List.mem_map.1 member
    exact isValue_encode value

theorem decoded_encodings (values : List UInt32) :
    decoded (encodings values) = (values, .unexpectedEnd 0) := by
  rw [(consistsOf_encodings values).decoded_eq, List.map_map]
  simp [Function.comp_def, denoted_encode]

theorem encodings_injective {first second : List UInt32}
    (same : encodings first = encodings second) : first = second := by
  have read := congrArg (fun bytes => (decoded bytes).1) same
  simpa only [decoded_encodings] using read

namespace ConsistsOf

variable {bytes : List UInt8} {numbers : List (List UInt8)} (consists : ConsistsOf bytes numbers)

include consists

theorem normalForm : ConsistsOf (normalForm bytes) (numbers.map (encode ∘ denoted)) := by
  have form := consistsOf_encodings (decoded bytes).1
  rw [consists.decoded_eq, List.map_map] at form
  rwa [Varint.normalForm, consists.decoded_eq]

theorem length_normalForm_le : (Varint.normalForm bytes).length ≤ bytes.length := by
  have shorter : ∀ number ∈ numbers, (encode (denoted number)).length ≤ number.length :=
    fun number member => length_encode_denoted_le (consists.isValue number member)
  rw [consists.normalForm.eq_flatten, consists.eq_flatten, List.length_flatten, List.length_flatten,
    List.map_map]
  exact List.sum_le_sum shorter

theorem normalForm_eq_self_iff :
    Varint.normalForm bytes = bytes ↔ ∀ number ∈ numbers, IsCanonical number := by
  have unchanged : Varint.normalForm bytes = bytes ↔ numbers.map (encode ∘ denoted) = numbers := by
    constructor
    · intro same
      have again := consists.normalForm
      rw [same] at again
      exact again.unique consists
    · intro same
      rw [consists.normalForm.eq_flatten, same, ← consists.eq_flatten]
  have each : numbers.map (encode ∘ denoted) = numbers ↔
      ∀ number ∈ numbers, encode (denoted number) = number := by
    conv_lhs => rhs; rw [← List.map_id numbers]
    exact List.map_inj_left
  rw [unchanged, each]
  exact forall₂_congr fun number member => encode_denoted_iff (consists.isValue number member)

end ConsistsOf

theorem decoded_normalForm (bytes : List UInt8) :
    decoded (normalForm bytes) = ((decoded bytes).1, .unexpectedEnd 0) :=
  decoded_encodings (decoded bytes).1

theorem normalForm_idem (bytes : List UInt8) :
    normalForm (normalForm bytes) = normalForm bytes := by
  rw [normalForm, decoded_normalForm, normalForm]

theorem normalForm_eq_iff (first second : List UInt8) :
    normalForm first = normalForm second ↔ (decoded first).1 = (decoded second).1 :=
  ⟨encodings_injective, congrArg encodings⟩

end Varint

def Command.Accepts (bytes : List UInt8) : Prop :=
  ∃ text settings stdin flag, Hex.Denotes text bytes ∧
    (run settings stdin {} (.decode (some text) flag)).result = .ok ()

open Varint in
theorem Command.accepts_iff {bytes : List UInt8} :
    Accepts bytes ↔ ∃ numbers, ConsistsOf bytes numbers := by
  obtain ⟨numbers, rest, failure, division⟩ := Item.exists_division (bytes.map .byte)
  rw [← isCleanEnd_decoded_iff, division.decoded]
  constructor
  · rintro ⟨text, settings, stdin, flag, denotes, success⟩
    exact (success_decode_text_iff denotes division rfl settings stdin flag).1 success
  · intro clean
    have denotes := Hex.denotes_render .lower bytes
    exact ⟨_, {}, [], false, denotes,
      (success_decode_text_iff denotes division rfl {} [] false).2 clean⟩

structure Varint.Normalizes (bytes : List UInt8) (numbers : List (List UInt8)) : Prop where
  consists : ConsistsOf bytes numbers
  unique : ∀ others, ConsistsOf bytes others → others = numbers
  values_eq : (decoded bytes).1 = numbers.map denoted
  decoded_eq : decoded (normalForm bytes) = decoded bytes
  length_le : (normalForm bytes).length ≤ bytes.length
  idem : normalForm (normalForm bytes) = normalForm bytes
  eq_self_iff : normalForm bytes = bytes ↔ ∀ number ∈ numbers, IsCanonical number
  eq_iff : ∀ other, Command.Accepts other →
    (normalForm bytes = normalForm other ↔ (decoded bytes).1 = (decoded other).1)

open Varint in
/-- The numbers of an accepted byte string, encoded again, are decoded to the same numbers, take
no more bytes than before, and take the same bytes exactly if each of them was canonical. -/
theorem normalForm_of_accepts {bytes : List UInt8} (accepts : Command.Accepts bytes) :
    ∃ numbers, Normalizes bytes numbers := by
  obtain ⟨numbers, consists⟩ := Command.accepts_iff.1 accepts
  refine ⟨numbers, ?_⟩
  constructor
  case consists => exact consists
  case unique => exact fun others again => again.unique consists
  case values_eq => rw [consists.decoded_eq]
  case decoded_eq => rw [decoded_normalForm, consists.decoded_eq]
  case length_le => exact consists.length_normalForm_le
  case idem => exact normalForm_idem bytes
  case eq_self_iff => exact consists.normalForm_eq_self_iff
  case eq_iff => exact fun other _ => normalForm_eq_iff bytes other

open Varint in
/-- Three numbers: one with a sixth group, whose bits are beyond the word, one with a superfluous
zero, and one as the encoder writes it. -/
theorem normalForm_of_accepts_padded :
    let bytes : List UInt8 := [0x85, 0x80, 0x80, 0x80, 0x80, 0x01, 0x80, 0x00, 0x07]
    Command.Accepts bytes ∧ decoded bytes = ([5, 0, 7], .unexpectedEnd 0) ∧
      normalForm bytes = [0x05, 0x00, 0x07] ∧ ¬ IsCanonical [0x80, 0x00] ∧
      ∃ numbers, Normalizes bytes numbers ∧ numbers.length = 3 := by
  intro bytes
  have accepts : Command.Accepts bytes :=
    ⟨_, {}, [], false, Hex.denotes_render .lower bytes, by decide +kernel⟩
  have values : decoded bytes = ([5, 0, 7], .unexpectedEnd 0) := by decide +kernel
  obtain ⟨numbers, normalizes⟩ := normalForm_of_accepts accepts
  refine ⟨accepts, values, ?_, by decide, numbers, normalizes, ?_⟩
  · rw [normalForm, values]
    decide +kernel
  · have three := congrArg List.length normalizes.values_eq
    rw [values, List.length_map] at three
    exact three.symm

end CompactInt
