import CompactInt.Proofs.Source.Division

/-! Reading on after failures. Every attempt takes at least one byte as long as there is one, so the
attempts cut a byte string into segments, and there is only one such cut. -/

set_option autoImplicit false

namespace CompactInt

namespace Varint

/-- What one attempt to read a number takes, how it ends, and what it leaves. Only the end of
the input can tear a number. -/
inductive Attempt : List UInt8 → Except Failure UInt32 → List UInt8 → Prop where
  | number {bytes : List UInt8} (rest : List UInt8) :
      IsValue bytes → Attempt bytes (.ok (denoted bytes)) rest
  | exhausted {bytes : List UInt8} (rest : List UInt8) :
      bytes.length = 10 → (∀ byte ∈ bytes, Continues byte) →
      Attempt bytes (.error (.malformed 10)) rest
  | torn {bytes : List UInt8} :
      bytes ≠ [] → bytes.length ≤ 4 → (∀ byte ∈ bytes, Continues byte) →
      Attempt bytes (.error (.unexpectedEnd bytes.length)) []
  | tornBeyond {bytes : List UInt8} :
      4 < bytes.length → bytes.length < 10 → (∀ byte ∈ bytes, Continues byte) →
      Attempt bytes (.error (.malformed bytes.length)) []

/-- A byte string as the segments that attempts take one after the other, each with the end of
its attempt. -/
inductive Segmented : List UInt8 → List (List UInt8 × Except Failure UInt32) → Prop where
  | nil : Segmented [] []
  | cons {segment rest : List UInt8} {result : Except Failure UInt32}
      {later : List (List UInt8 × Except Failure UInt32)} :
      Attempt segment result rest → Segmented rest later →
      Segmented (segment ++ rest) ((segment, result) :: later)

/-! ## One attempt -/

namespace Attempt

variable {segment rest : List UInt8} {result : Except Failure UInt32}

theorem ne_nil (attempt : Attempt segment result rest) : segment ≠ [] := by
  cases attempt with
  | number _ isValue =>
    obtain ⟨lead, last, rfl, -⟩ := isValue
    simp
  | exhausted _ ten => exact List.ne_nil_of_length_pos (by omega)
  | torn someBytes => exact someBytes
  | tornBeyond beyond => exact List.ne_nil_of_length_pos (by omega)

theorem length_le (attempt : Attempt segment result rest) : segment.length ≤ 10 := by
  cases attempt with
  | number _ isValue =>
    obtain ⟨lead, last, rfl, few, -⟩ := isValue
    rw [List.length_append, List.length_singleton]
    exact few
  | exhausted _ ten => exact Nat.le_of_eq ten
  | torn _ few => omega
  | tornBeyond _ few => exact Nat.le_of_lt few

theorem not_isCleanEnd {failure : Failure} (attempt : Attempt segment (.error failure) rest) :
    ¬ failure.isCleanEnd := by
  have someBytes := List.length_pos_iff.2 attempt.ne_nil
  rw [Failure.isCleanEnd_iff]
  cases attempt with
  | exhausted => exact nofun
  | torn => exact fun same => absurd (Failure.unexpectedEnd.inj same) (by omega)
  | tornBeyond => exact nofun

theorem readVarint (attempt : Attempt segment result rest) :
    ByteSource.readVarint ((segment ++ rest).map .byte : List Item) = (result, rest.map .byte) := by
  cases attempt with
  | number _ isValue =>
    rw [List.map_append]
    exact ByteSource.readVarint_isValue isValue _
  | exhausted _ ten continues =>
    -- The tenth byte is the one that ends the attempt.
    obtain rfl | ⟨lead, last, rfl⟩ := List.eq_nil_or_concat' segment
    · cases ten
    · obtain ⟨leading, ends⟩ := List.forall_mem_append.1 continues
      have nine : lead.length = 9 := by simpa using ten
      have read := ByteSource.readVarint_exhausted leading (rest.map .byte) nine
        (ends last List.mem_cons_self)
      simpa using read
  | torn _ few continues =>
    have read := ByteSource.readVarint_nil continues (by omega)
    simpa [few] using read
  | tornBeyond beyond few continues =>
    have read := ByteSource.readVarint_nil continues few
    simpa [Nat.not_le.2 beyond] using read

end Attempt

theorem exists_front (bytes : List UInt8) :
    ∃ front rest, bytes = front ++ rest ∧ (∀ byte ∈ front, Continues byte) ∧
      ∀ byte ∈ rest.head?, ¬ Continues byte := by
  refine ⟨bytes.takeWhile (Continues ·), bytes.dropWhile (Continues ·),
    List.takeWhile_append_dropWhile.symm, ?_, ?_⟩
  · intro byte member
    exact of_decide_eq_true (List.all_eq_true.1 List.all_takeWhile byte member)
  · intro byte first
    have stops := List.head?_dropWhile_not (Continues ·) bytes
    rw [Option.mem_def.1 first] at stops
    exact of_decide_eq_false stops

theorem exists_attempt {bytes : List UInt8} (someBytes : bytes ≠ []) :
    ∃ segment result rest, bytes = segment ++ rest ∧ Attempt segment result rest := by
  obtain ⟨front, rest, rfl, continues, ends⟩ := exists_front bytes
  by_cases long : 10 ≤ front.length
  · refine ⟨front.take 10, _, front.drop 10 ++ rest, ?_, .exhausted _ ?_ ?_⟩
    · rw [← List.append_assoc, List.take_append_drop]
    · rw [List.length_take, Nat.min_eq_left long]
    · exact fun byte member => continues byte (List.mem_of_mem_take member)
  cases rest with
  | cons last rest =>
    refine ⟨front ++ [last], _, rest, by simp, .number rest ⟨front, last, rfl, ?_, continues, ?_⟩⟩
    · exact Nat.not_le.1 long
    · exact ends last rfl
  | nil =>
    rw [List.append_nil] at someBytes
    by_cases few : front.length ≤ 4
    · exact ⟨front, _, [], rfl, .torn someBytes few continues⟩
    · exact ⟨front, _, [], rfl, .tornBeyond (Nat.not_le.1 few) (Nat.not_le.1 long) continues⟩

/-! ## Attempt after attempt -/

theorem exists_segmented (bytes : List UInt8) : ∃ pieces, Segmented bytes pieces := by
  -- The induction is on the length, since a segment is not a single byte.
  induction length : bytes.length using Nat.strong_induction_on generalizing bytes with
  | _ count ih =>
    by_cases nothing : bytes = []
    · exact ⟨[], nothing ▸ .nil⟩
    obtain ⟨segment, result, rest, rfl, attempt⟩ := exists_attempt nothing
    have shorter : rest.length < count := by
      have someBytes := List.length_pos_iff.2 attempt.ne_nil
      rw [List.length_append] at length
      omega
    obtain ⟨later, segmented⟩ := ih rest.length shorter rest rfl
    exact ⟨_, .cons attempt segmented⟩

namespace Segmented

variable {bytes : List UInt8} {pieces : List (List UInt8 × Except Failure UInt32)}

theorem flatMap_eq (segmented : Segmented bytes pieces) : pieces.flatMap Prod.fst = bytes := by
  induction segmented with
  | nil => rfl
  | cons _ _ ih => rw [List.flatMap_cons, ih]

theorem length_le (segmented : Segmented bytes pieces) : pieces.length ≤ bytes.length := by
  induction segmented with
  | nil => exact Nat.le_refl 0
  | cons attempt _ ih =>
    have someBytes := List.length_pos_iff.2 attempt.ne_nil
    rw [List.length_cons, List.length_append]
    omega

theorem segment_bounds (segmented : Segmented bytes pieces) :
    ∀ piece ∈ pieces, piece.1 ≠ [] ∧ piece.1.length ≤ 10 := by
  induction segmented with
  | nil => exact nofun
  | cons attempt _ ih => exact List.forall_mem_cons.2 ⟨⟨attempt.ne_nil, attempt.length_le⟩, ih⟩

/-- What an attempt takes is decided by the bytes in front of it, and so is the whole cut. -/
theorem unique {others : List (List UInt8 × Except Failure UInt32)}
    (first : Segmented bytes pieces) (second : Segmented bytes others) : pieces = others := by
  induction first generalizing others with
  | nil =>
    generalize nothing : ([] : List UInt8) = bytes at second
    cases second with
    | nil => rfl
    | cons attempt => exact absurd (List.append_eq_nil_iff.1 nothing.symm).1 attempt.ne_nil
  | @cons segment rest result later attempt _ ih =>
    generalize whole : segment ++ rest = bytes at second
    cases second with
    | nil => exact absurd (List.append_eq_nil_iff.1 whole).1 attempt.ne_nil
    | @cons segment' rest' result' later' attempt' segmented' =>
      have read := attempt.readVarint
      rw [whole, attempt'.readVarint, Prod.mk.injEq] at read
      obtain ⟨rfl, behind⟩ := read
      obtain rfl := Item.eq_of_map_byte behind
      rw [List.append_cancel_right whole, ih segmented']

end Segmented

end Varint

open Varint

namespace ByteSource

section

variable {σ : Type} [ByteSource σ]

def afterAttempts (source : σ) (count : Nat) : σ :=
  Calls.final source (ReadCall.runAll source (List.replicate count .varint))

@[simp] theorem afterAttempts_zero (source : σ) : afterAttempts source 0 = source := rfl

@[simp] theorem afterAttempts_succ (source : σ) (count : Nat) :
    afterAttempts source (count + 1) = afterAttempts (readVarint source).2 count := rfl

theorem afterAttempts_add (source : σ) (first second : Nat) :
    afterAttempts source (first + second) = afterAttempts (afterAttempts source first) second := by
  induction first generalizing source with
  | zero => simp
  | succ first ih => rw [Nat.add_right_comm, afterAttempts_succ, afterAttempts_succ, ih]

end

variable {σ : Type} [ByteSource σ] [ItemSource σ] {source : σ}

open ItemSource

/-- The attempts to read a number from a source follow the pieces: each takes its segment and
ends as told, and behind the last of them there is nothing but regular ends. -/
structure Visits (source : σ) (pieces : List (List UInt8 × Except Failure UInt32)) : Prop where
  takes (earlier later : List (List UInt8 × Except Failure UInt32)) (segment : List UInt8)
    (result : Except Failure UInt32) : pieces = earlier ++ (segment, result) :: later →
    ∃ after, readVarint (afterAttempts source earlier.length) = (result, after) ∧
      items (afterAttempts source earlier.length) =
        (segment ++ later.flatMap Prod.fst).map .byte ∧
      items after = (later.flatMap Prod.fst).map .byte
  ended (count : Nat) : pieces.length ≤ count →
    (readVarint (afterAttempts source count)).1 = .error (.unexpectedEnd 0) ∧
      items (afterAttempts source count) = []
  cleanEnd_iff (count : Nat) :
    (∃ failure, (readVarint (afterAttempts source count)).1 = .error failure ∧
      failure.isCleanEnd) ↔ pieces.length ≤ count

theorem readVarint_of_spent (spent : items source = []) :
    ∃ after, readVarint source = (.error (.unexpectedEnd 0), after) ∧ items after = [] := by
  apply exists_readVarint_of_items
  rw [spent]
  exact readVarint_nil (List.forall_mem_nil _) (by decide : ([] : List UInt8).length < 10)

theorem readVarint_of_attempt {segment rest : List UInt8} {result : Except Failure UInt32}
    (attempt : Attempt segment result rest) (holds : items source = (segment ++ rest).map .byte) :
    ∃ after, readVarint source = (result, after) ∧ items after = rest.map .byte := by
  apply exists_readVarint_of_items
  rw [holds]
  exact attempt.readVarint

theorem items_afterAttempts_of_spent (spent : items source = []) (count : Nat) :
    items (afterAttempts source count) = [] := by
  induction count generalizing source with
  | zero => exact spent
  | succ count ih =>
    obtain ⟨after, read, still⟩ := readVarint_of_spent spent
    rw [afterAttempts_succ, read]
    exact ih still

section

variable {bytes : List UInt8} {earlier later pieces : List (List UInt8 × Except Failure UInt32)}

theorem items_afterAttempts (segmented : Segmented bytes (earlier ++ later))
    (holds : items source = bytes.map .byte) :
    ∃ rest, Segmented rest later ∧
      items (afterAttempts source earlier.length) = rest.map .byte := by
  induction earlier generalizing source bytes with
  | nil => exact ⟨bytes, segmented, holds⟩
  | cons piece earlier ih =>
    cases segmented with
    | cons attempt segmented =>
      obtain ⟨after, read, left⟩ := readVarint_of_attempt attempt holds
      rw [List.length_cons, afterAttempts_succ, read]
      exact ih segmented left

theorem exists_readVarint_afterAttempts {segment : List UInt8} {result : Except Failure UInt32}
    (segmented : Segmented bytes (earlier ++ (segment, result) :: later))
    (holds : items source = bytes.map .byte) :
    ∃ rest after, Attempt segment result rest ∧ Segmented rest later ∧
      items (afterAttempts source earlier.length) = (segment ++ rest).map .byte ∧
      readVarint (afterAttempts source earlier.length) = (result, after) ∧
      items after = rest.map .byte := by
  obtain ⟨bytes, segmented, before⟩ := items_afterAttempts segmented holds
  cases segmented with
  | cons attempt segmented =>
    obtain ⟨after, read, left⟩ := readVarint_of_attempt attempt before
    exact ⟨_, after, attempt, segmented, before, read, left⟩

theorem items_afterAttempts_eq_nil (segmented : Segmented bytes pieces)
    (holds : items source = bytes.map .byte) {count : Nat} (all : pieces.length ≤ count) :
    items (afterAttempts source count) = [] := by
  obtain ⟨more, rfl⟩ := Nat.exists_eq_add_of_le all
  rw [← List.append_nil pieces] at segmented
  obtain ⟨rest, nothing, left⟩ := items_afterAttempts segmented holds
  cases nothing
  rw [afterAttempts_add]
  exact items_afterAttempts_of_spent left more

theorem length_le_of_isCleanEnd (segmented : Segmented bytes pieces)
    (holds : items source = bytes.map .byte) {count : Nat} {failure : Failure}
    (failed : (readVarint (afterAttempts source count)).1 = .error failure)
    (clean : failure.isCleanEnd) : pieces.length ≤ count := by
  by_contra within
  have within : count < pieces.length := Nat.not_le.1 within
  obtain ⟨earlier, ⟨segment, result⟩, later, rfl, rfl⟩ :
      ∃ earlier piece later, pieces = earlier ++ piece :: later ∧ earlier.length = count := by
    refine ⟨pieces.take count, pieces[count], pieces.drop (count + 1), ?_, ?_⟩
    · rw [← List.drop_eq_getElem_cons within, List.take_append_drop]
    · rw [List.length_take, Nat.min_eq_left (Nat.le_of_lt within)]
  obtain ⟨rest, after, attempt, _, _, read, _⟩ := exists_readVarint_afterAttempts segmented holds
  rw [read] at failed
  cases failed
  exact attempt.not_isCleanEnd clean

theorem visits_of_segmented (segmented : Segmented bytes pieces)
    (holds : items source = bytes.map .byte) : Visits source pieces := by
  constructor
  case takes =>
    rintro earlier later segment result rfl
    obtain ⟨rest, after, _, segmented, before, read, left⟩ :=
      exists_readVarint_afterAttempts segmented holds
    obtain rfl := segmented.flatMap_eq
    exact ⟨after, read, before, left⟩
  case ended =>
    intro count all
    have spent := items_afterAttempts_eq_nil segmented holds all
    obtain ⟨after, read, _⟩ := readVarint_of_spent spent
    exact ⟨congrArg Prod.fst read, spent⟩
  case cleanEnd_iff =>
    intro count
    constructor
    · rintro ⟨failure, failed, clean⟩
      exact length_le_of_isCleanEnd segmented holds failed clean
    · intro all
      obtain ⟨after, read, _⟩ :=
        readVarint_of_spent (items_afterAttempts_eq_nil segmented holds all)
      exact ⟨_, congrArg Prod.fst read, rfl⟩

end

end ByteSource

/-- Attempts that go on after every failure cut a byte string into non-empty segments of at most
ten bytes, and the string can be cut so in one way only. With as many attempts as there are
segments, hence with no more than there are bytes, everything is taken; the regular end comes
next, not before, and then always. A buffer may have any shape, and a script may cut the bytes
into any chunks and hold them up anywhere. -/
theorem attempts_visit_segments (bytes : List UInt8) :
    ∃ pieces, Segmented bytes pieces ∧ (∀ others, Segmented bytes others → others = pieces) ∧
      pieces.flatMap Prod.fst = bytes ∧
      (∀ piece ∈ pieces, piece.1 ≠ [] ∧ piece.1.length ≤ 10) ∧
      pieces.length ≤ bytes.length ∧
      (∀ buffer : ReadBuffer, buffer.contents = bytes → ByteSource.Visits buffer pieces) ∧
      (∀ script : Script, script.items = bytes.map .byte →
        ByteSource.Visits (Blocking.mk script) pieces) ∧
      (∀ script : Script, script.items = bytes.map .byte →
        ByteSource.Visits (Polled.mk script) pieces) := by
  obtain ⟨pieces, segmented⟩ := exists_segmented bytes
  refine ⟨pieces, segmented, fun others again => again.unique segmented, segmented.flatMap_eq,
    segmented.segment_bounds, segmented.length_le, ?_, ?_, ?_⟩
  · rintro buffer rfl
    exact ByteSource.visits_of_segmented segmented rfl
  · exact fun script holds => ByteSource.visits_of_segmented segmented holds
  · exact fun script holds => ByteSource.visits_of_segmented segmented holds

/-- A number, ten bytes that do not end one, another number, and one that is torn off: from two
buffers in a chain, and from a script that is interrupted among the ten bytes. -/
theorem attempts_visit_segments_mixed :
    let bytes : List UInt8 :=
      [0x05, 0xff, 0xff, 0xff, 0xff, 0xff, 0xff, 0xff, 0xff, 0xff, 0xff, 0x81, 0x00, 0x80, 0x80]
    let pieces : List (List UInt8 × Except Failure UInt32) :=
      [([0x05], .ok 5), (List.replicate 10 0xff, .error (.malformed 10)), ([0x81, 0x00], .ok 1),
        ([0x80, 0x80], .error (.unexpectedEnd 2))]
    let buffer : ReadBuffer := .chained (.plain (bytes.take 4)) (.cursor bytes 4)
    let script : Script :=
      [.chunk (bytes.take 3), .fault (.ofKind .interrupted), .chunk (bytes.drop 3)]
    Segmented bytes pieces ∧ buffer.contents = bytes ∧ ByteSource.Visits buffer pieces ∧
      script.items = bytes.map .byte ∧ ByteSource.Visits (Blocking.mk script) pieces := by
  intro bytes pieces buffer script
  have number : Attempt [0x05] (.ok 5) (bytes.drop 1) :=
    .number _ ⟨[], 0x05, rfl, by decide, nofun, by decide⟩
  have exhausted : Attempt (List.replicate 10 0xff) (.error (.malformed 10)) (bytes.drop 11) :=
    .exhausted _ rfl (by decide +kernel)
  have padded : Attempt [0x81, 0x00] (.ok 1) (bytes.drop 13) :=
    .number _ ⟨[0x81], 0x00, rfl, by decide, by decide +kernel, by decide⟩
  have torn : Attempt [0x80, 0x80] (.error (.unexpectedEnd 2)) [] :=
    .torn nofun (by decide) (by decide +kernel)
  have segmented : Segmented bytes pieces :=
    .cons number (.cons exhausted (.cons padded (.cons torn .nil)))
  obtain ⟨others, _, unique, _, _, _, fromBuffer, fromScript, _⟩ := attempts_visit_segments bytes
  obtain rfl := unique pieces segmented
  have contents : buffer.contents = bytes := by decide
  have items : script.items = bytes.map .byte := by decide
  exact ⟨segmented, contents, fromBuffer buffer contents, items, fromScript script items⟩

end CompactInt
