import CompactInt.Source.Buffer
import CompactInt.Source.Call

/-! Sources as lists of items. A source answers like the list of the items it has still to give, so
what is read depends on that list alone. -/

set_option autoImplicit false

namespace CompactInt

namespace Item

def isByte : Item → Bool
  | byte _ => true
  | _ => false

def byteCount (items : List Item) : Nat := items.countP isByte

theorem byteCount_append (first second : List Item) :
    byteCount (first ++ second) = byteCount first + byteCount second := List.countP_append

@[simp] theorem byteCount_map_byte (bytes : List UInt8) :
    byteCount (bytes.map byte) = bytes.length := by
  rw [byteCount, List.countP_map]
  exact List.countP_eq_length.2 fun _ _ => rfl

theorem eq_of_map_byte {first second : List UInt8} (same : first.map byte = second.map byte) :
    first = second :=
  (List.map_inj_right fun _ _ => byte.inj).1 same

end Item

class ItemSource (σ : Type) [ByteSource σ] where
  items : σ → List Item
  next_items (source : σ) : (ByteSource.next source).map id items = Item.next (items source)

/-- A source of items whose measure is the number of bytes among them. -/
class ByteCounted (σ : Type) [ByteSource σ] extends ItemSource σ where
  left_eq (source : σ) : ByteSource.left source = Item.byteCount (items source)

instance : ItemSource (List Item) where
  items := id
  next_items _ := rfl

theorem ReadBuffer.next_contents (buffer : ReadBuffer) :
    buffer.nextByte.map id (fun rest => rest.contents.map Item.byte) =
      Item.next (buffer.contents.map .byte) := by
  by_cases more : buffer.hasRemaining
  · obtain ⟨byte, rest, taken⟩ := exists_take?_of_hasRemaining more
    rw [nextByte, if_pos more, taken, contents_of_take? taken]
    rfl
  · have noneLeft : buffer.contents = [] := by
      rw [hasRemaining_iff] at more
      rw [← List.length_eq_zero_iff, length_contents]
      omega
    rw [nextByte, if_neg more, noneLeft]
    simp only [Prod.map_apply, noneLeft]
    rfl

instance : ByteCounted ReadBuffer where
  items buffer := buffer.contents.map .byte
  next_items := ReadBuffer.next_contents
  left_eq buffer := by rw [Item.byteCount_map_byte, ReadBuffer.length_contents]; rfl

namespace ByteSource

variable {σ : Type} [ByteSource σ] [ItemSource σ]

open ItemSource

theorem next_of_items {source : σ} {answer : Except Failure (Option UInt8)} {rest : σ}
    (given : next source = (answer, rest)) :
    next (items source) = (answer, items rest) := by
  have same := next_items source
  rw [given] at same
  exact same.symm

theorem finishVarint_items (decoder : Varint.Decoder) (source : σ) :
    (finishVarint decoder source).map id items = finishVarint decoder (items source) := by
  fun_induction finishVarint decoder source with
  | case1 decoder source failure rest given =>
    rw [finishVarint_fault decoder (next_of_items given)]; rfl
  | case2 decoder source rest given =>
    rw [finishVarint_end decoder (next_of_items given)]; rfl
  | case3 decoder source byte rest given failure step =>
    rw [finishVarint_byte decoder (next_of_items given), step]; rfl
  | case4 decoder source byte rest given value step =>
    rw [finishVarint_byte decoder (next_of_items given), step]; rfl
  | case5 decoder source byte rest given step ih =>
    rw [finishVarint_byte decoder (next_of_items given), step, ih, Varint.Decoder.push_snd]

theorem readVarint_items (source : σ) :
    (readVarint source).map id items = readVarint (items source) :=
  finishVarint_items {} source

theorem readShort_items (source : σ) :
    (readShort source).map id items = readShort (items source) := by
  unfold readShort
  rcases first : next source with ⟨failure | _ | high, rest⟩
  · rw [next_of_items first]; rfl
  · rw [next_of_items first]; rfl
  · rw [next_of_items first]
    dsimp only
    rcases second : next rest with ⟨failure | _ | low, rest⟩
    all_goals
      rw [next_of_items second]
      rfl

end ByteSource

namespace ReadCall

variable {σ : Type} [ByteSource σ] [ItemSource σ]

theorem run_items (source : σ) (call : ReadCall) :
    (run source call).map id ItemSource.items = run (ItemSource.items source) call := by
  cases call with
  | byte =>
    rcases given : ByteSource.next source with ⟨answer, rest⟩
    simp only [run, given, ByteSource.next_of_items given]
    rfl
  | varint => simp only [run, ← ByteSource.readVarint_items source, Prod.map]; rfl
  | short => simp only [run, ← ByteSource.readShort_items source, Prod.map]; rfl

theorem runAll_items (source : σ) (calls : List ReadCall) :
    (runAll source calls).map (Prod.map id ItemSource.items) =
      runAll (ItemSource.items source) calls :=
  Calls.run_map run_items source calls

theorem runAll_left {τ : Type} [ByteSource τ] [ByteCounted τ] (source : τ)
    (calls : List ReadCall) :
    (runAll source calls).map (Prod.map id ByteSource.left) =
      (runAll (ItemSource.items source) calls).map (Prod.map id Item.byteCount) := by
  -- What is left of a source is a number of the list that stands for it.
  have counted : Prod.map id Item.byteCount ∘ Prod.map id ItemSource.items =
      (Prod.map id ByteSource.left : Except Failure Reading × τ → _) := by
    funext step
    exact Prod.ext rfl (ByteCounted.left_eq step.2).symm
  rw [← runAll_items, List.map_map, counted]

end ReadCall

end CompactInt
