import CompactInt.Varint.Decoder

/-! Sources of bytes, and reading numbers from them. A call that fails gives nothing back: the bytes
it took stay taken. -/

set_option autoImplicit false

namespace CompactInt

class ByteSource (σ : Type) where
  /-- The next byte, or none at an end. -/
  next : σ → Except Failure (Option UInt8) × σ
  left : σ → Nat
  left_next_le (source : σ) : left (next source).2 ≤ left source
  left_next_lt (source : σ) (byte : UInt8) :
    (next source).1 = .ok (some byte) → left (next source).2 < left source

namespace ByteSource

variable {σ : Type} [ByteSource σ]

def finishVarint (decoder : Varint.Decoder) (source : σ) : Except Failure UInt32 × σ :=
  match next source with
  | (.error failure, rest) => (.error failure, rest)
  | (.ok none, rest) => (.error decoder.endFailure, rest)
  | (.ok (some byte), rest) =>
    match _step : (decoder.push byte).1 with
    | .error failure => (.error failure, rest)
    | .ok (some value) => (.ok value, rest)
    | .ok none => finishVarint (decoder.push byte).2 rest
termination_by Varint.maxGroups + Varint.discardWindow - decoder.read
decreasing_by
  have := Varint.Decoder.read_lt_of_push_none ‹_›
  simp only [Varint.Decoder.push_snd, Varint.Decoder.read_absorb]
  omega

def readVarint (source : σ) : Except Failure UInt32 × σ := finishVarint {} source

def readShort (source : σ) : Except Failure UInt16 × σ :=
  match next source with
  | (.error failure, rest) => (.error failure, rest)
  | (.ok none, rest) => (.error (.unexpectedEnd 0), rest)
  | (.ok (some high), rest) =>
    match next rest with
    | (.error failure, rest) => (.error failure, rest)
    | (.ok none, rest) => (.error (.unexpectedEnd 1), rest)
    | (.ok (some low), rest) => (PackedShort.unpack high low, rest)

theorem finishVarint_fault (decoder : Varint.Decoder) {source rest : σ} {failure : Failure}
    (given : next source = (.error failure, rest)) :
    finishVarint decoder source = (.error failure, rest) := by
  rw [finishVarint, given]

theorem finishVarint_end (decoder : Varint.Decoder) {source rest : σ}
    (given : next source = (.ok none, rest)) :
    finishVarint decoder source = (.error decoder.endFailure, rest) := by
  rw [finishVarint, given]

theorem finishVarint_byte (decoder : Varint.Decoder) {source rest : σ} {byte : UInt8}
    (given : next source = (.ok (some byte), rest)) :
    finishVarint decoder source =
      match (decoder.push byte).1 with
      | .error failure => (.error failure, rest)
      | .ok (some value) => (.ok value, rest)
      | .ok none => finishVarint (decoder.absorb byte) rest := by
  rw [finishVarint, given]
  dsimp only
  split
  · next failure step => rw [step]
  · next value step => rw [step]
  · next step => rw [step, Varint.Decoder.push_snd]

theorem left_finishVarint_le (decoder : Varint.Decoder) (source : σ) :
    left (finishVarint decoder source).2 ≤ left source := by
  fun_induction finishVarint decoder source with
  | case1 decoder source failure rest given =>
    have := left_next_le source; rw [given] at this; exact this
  | case2 decoder source rest given =>
    have := left_next_le source; rw [given] at this; exact this
  | case3 decoder source byte rest given failure step =>
    have := left_next_le source; rw [given] at this; exact this
  | case4 decoder source byte rest given value step =>
    have := left_next_le source; rw [given] at this; exact this
  | case5 decoder source byte rest given step ih =>
    have := left_next_le source; rw [given] at this; exact Nat.le_trans ih this

theorem left_finishVarint_lt (decoder : Varint.Decoder) (source : σ) {value : UInt32}
    (success : (finishVarint decoder source).1 = .ok value) :
    left (finishVarint decoder source).2 < left source := by
  fun_cases finishVarint decoder source with
  | case1 failure rest given => simp [finishVarint, given] at success
  | case2 rest given => simp [finishVarint, given] at success
  | case3 byte rest given failure step =>
    have := left_next_lt source byte; simp only [given, forall_const] at this; exact this
  | case4 byte rest given value step =>
    have := left_next_lt source byte; simp only [given, forall_const] at this; exact this
  | case5 byte rest given step =>
    have := left_next_lt source byte; simp only [given, forall_const] at this
    exact Nat.lt_of_le_of_lt (left_finishVarint_le _ rest) this

theorem left_readVarint_lt {source rest : σ} {value : UInt32}
    (success : readVarint source = (.ok value, rest)) : left rest < left source := by
  have := left_finishVarint_lt {} source (congrArg Prod.fst success)
  rwa [show finishVarint {} source = _ from success] at this

def readVarints (source : σ) : List UInt32 × Failure :=
  match _result : readVarint source with
  | (.error failure, _) => ([], failure)
  | (.ok value, rest) =>
    let (values, failure) := readVarints rest
    (value :: values, failure)
termination_by left source
decreasing_by
  exact left_readVarint_lt ‹_›

end ByteSource

inductive Item where
  | byte (value : UInt8)
  | stop
  | fault (error : IoError)
  deriving DecidableEq, Repr

def Item.answer : Item → Except Failure (Option UInt8)
  | .byte value => .ok (some value)
  | .stop => .ok none
  | .fault error => .error (.io error)

/-- Gives every item as it is, and an end when none is left. -/
def Item.next : List Item → Except Failure (Option UInt8) × List Item
  | [] => (.ok none, [])
  | item :: rest => (item.answer, rest)

instance : ByteSource (List Item) where
  next := Item.next
  left := List.length
  left_next_le items := by cases items <;> simp [Item.next]
  left_next_lt items byte := by cases items <;> simp [Item.next]

end CompactInt
