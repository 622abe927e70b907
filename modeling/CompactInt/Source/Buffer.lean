import CompactInt.Source.Basic

/-! Buffers that are read from the front. Taking a byte from a buffer with nothing left is an
overrun; reading asks first. -/

set_option autoImplicit false

namespace CompactInt

inductive ReadBuffer where
  | plain (bytes : List UInt8)
  /-- The bytes from a position on, which may lie behind the last of them. -/
  | cursor (bytes : List UInt8) (position : Nat)
  | limited (limit : Nat) (inner : ReadBuffer)
  | chained (first second : ReadBuffer)
  deriving DecidableEq, Repr

namespace ReadBuffer

def remaining : ReadBuffer → Nat
  | plain bytes => bytes.length
  | cursor bytes position => bytes.length - position
  | limited limit inner => min limit inner.remaining
  | chained first second => first.remaining + second.remaining

def hasRemaining : ReadBuffer → Bool
  | plain bytes => !bytes.isEmpty
  | cursor bytes position => position < bytes.length
  | limited limit inner => limit != 0 && inner.hasRemaining
  | chained first second => first.hasRemaining || second.hasRemaining

def contents : ReadBuffer → List UInt8
  | plain bytes => bytes
  | cursor bytes position => bytes.drop position
  | limited limit inner => inner.contents.take limit
  | chained first second => first.contents ++ second.contents

def take? : ReadBuffer → Option (UInt8 × ReadBuffer)
  | plain [] => none
  | plain (byte :: rest) => some (byte, plain rest)
  | cursor bytes position => bytes[position]?.map fun byte => (byte, cursor bytes (position + 1))
  | limited 0 _ => none
  | limited (limit + 1) inner => inner.take?.map fun (byte, rest) => (byte, limited limit rest)
  | chained first second =>
    if first.hasRemaining then first.take?.map fun (byte, rest) => (byte, chained rest second)
    else second.take?.map fun (byte, rest) => (byte, chained first rest)

def nextByte (buffer : ReadBuffer) : Except Failure (Option UInt8) × ReadBuffer :=
  if buffer.hasRemaining then
    match buffer.take? with
    | some (byte, rest) => (.ok (some byte), rest)
    | none => (.error .overrun, buffer)
  else (.ok none, buffer)

theorem hasRemaining_iff {buffer : ReadBuffer} : buffer.hasRemaining ↔ 0 < buffer.remaining := by
  induction buffer with
  | plain bytes => cases bytes <;> simp [hasRemaining, remaining]
  | cursor bytes position => simp only [hasRemaining, remaining, decide_eq_true_eq]; omega
  | limited limit inner ih =>
    simp only [hasRemaining, remaining, Bool.and_eq_true, bne_iff_ne, ih]
    omega
  | chained first second firstIh secondIh =>
    simp only [hasRemaining, remaining, Bool.or_eq_true, firstIh, secondIh]
    omega

theorem length_contents (buffer : ReadBuffer) : buffer.contents.length = buffer.remaining := by
  induction buffer with
  | plain bytes => rfl
  | cursor bytes position => exact List.length_drop
  | limited limit inner ih => simp only [contents, remaining, List.length_take, ih]
  | chained first second firstIh secondIh =>
    simp only [contents, remaining, List.length_append, firstIh, secondIh]

theorem contents_of_take? {buffer rest : ReadBuffer} {byte : UInt8}
    (taken : buffer.take? = some (byte, rest)) : buffer.contents = byte :: rest.contents := by
  induction buffer generalizing rest with
  | plain bytes =>
    cases bytes with
    | nil => cases taken
    | cons head tail => cases taken; rfl
  | cursor bytes position =>
    simp only [take?, Option.map_eq_some_iff, Prod.mk.injEq] at taken
    obtain ⟨head, found, rfl, rfl⟩ := taken
    obtain ⟨inside, rfl⟩ := List.getElem?_eq_some_iff.1 found
    exact List.drop_eq_getElem_cons inside
  | limited limit inner ih =>
    cases limit with
    | zero => cases taken
    | succ limit =>
      simp only [take?, Option.map_eq_some_iff, Prod.mk.injEq] at taken
      obtain ⟨⟨head, tail⟩, found, rfl, rfl⟩ := taken
      simp only [contents, ih found, List.take_succ_cons]
  | chained first second firstIh secondIh =>
    simp only [take?] at taken
    split at taken
    · simp only [Option.map_eq_some_iff, Prod.mk.injEq] at taken
      obtain ⟨⟨head, tail⟩, found, rfl, rfl⟩ := taken
      simp only [contents, firstIh found, List.cons_append]
    · next spent =>
      simp only [Option.map_eq_some_iff, Prod.mk.injEq] at taken
      obtain ⟨⟨head, tail⟩, found, rfl, rfl⟩ := taken
      -- The second buffer is only taken from when the first has nothing left.
      have noneLeft : first.contents = [] := by
        rw [hasRemaining_iff] at spent
        rw [← List.length_eq_zero_iff, length_contents]
        omega
      simp only [contents, secondIh found, noneLeft, List.nil_append]

/-- Taking a byte after asking for one is never an overrun. -/
theorem exists_take?_of_hasRemaining {buffer : ReadBuffer} (more : buffer.hasRemaining) :
    ∃ byte rest, buffer.take? = some (byte, rest) := by
  induction buffer with
  | plain bytes =>
    cases bytes with
    | nil => cases more
    | cons byte rest => exact ⟨byte, plain rest, rfl⟩
  | cursor bytes position =>
    have inside : position < bytes.length := by
      simpa only [hasRemaining, decide_eq_true_eq] using more
    refine ⟨bytes[position], cursor bytes (position + 1), ?_⟩
    rw [take?, List.getElem?_eq_getElem inside, Option.map_some]
  | limited limit inner ih =>
    simp only [hasRemaining, Bool.and_eq_true, bne_iff_ne] at more
    obtain ⟨limit, rfl⟩ := Nat.exists_eq_succ_of_ne_zero more.1
    obtain ⟨byte, rest, taken⟩ := ih more.2
    exact ⟨byte, limited limit rest, by rw [take?, taken, Option.map_some]⟩
  | chained first second firstIh secondIh =>
    by_cases front : first.hasRemaining
    · obtain ⟨byte, rest, taken⟩ := firstIh front
      exact ⟨byte, chained rest second, by rw [take?, if_pos front, taken, Option.map_some]⟩
    · simp only [hasRemaining, Bool.or_eq_true] at more
      obtain ⟨byte, rest, taken⟩ := secondIh (more.resolve_left front)
      exact ⟨byte, chained first rest, by rw [take?, if_neg front, taken, Option.map_some]⟩

theorem remaining_of_take? {buffer rest : ReadBuffer} {byte : UInt8}
    (taken : buffer.take? = some (byte, rest)) : buffer.remaining = rest.remaining + 1 := by
  rw [← length_contents, ← length_contents, contents_of_take? taken, List.length_cons]

theorem remaining_nextByte_le (buffer : ReadBuffer) :
    buffer.nextByte.2.remaining ≤ buffer.remaining := by
  simp only [nextByte]
  split
  · split
    · next taken => rw [remaining_of_take? taken]; exact Nat.le_add_right _ 1
    · exact Nat.le_refl _
  · exact Nat.le_refl _

theorem remaining_nextByte_lt (buffer : ReadBuffer) {byte : UInt8}
    (given : buffer.nextByte.1 = .ok (some byte)) :
    buffer.nextByte.2.remaining < buffer.remaining := by
  simp only [nextByte] at given ⊢
  split at given
  · next more =>
    simp only [more, ↓reduceIte]
    split at given
    · next taken => rw [remaining_of_take? taken]; exact Nat.lt_add_one _
    · cases given
  · cases given

end ReadBuffer

instance : ByteSource ReadBuffer where
  next := ReadBuffer.nextByte
  left := ReadBuffer.remaining
  left_next_le := ReadBuffer.remaining_nextByte_le
  left_next_lt buffer _ := buffer.remaining_nextByte_lt

end CompactInt
