import CompactInt.Proofs.Source.Items
import CompactInt.Source.Script

/-! Delivery in pieces. How bytes are cut, and how often a delivery was interrupted or not ready,
leaves no trace in the items, and so none in anything read byte by byte. -/

set_option autoImplicit false

namespace CompactInt

namespace Delivery

/-- What one delivery takes off the items to come. -/
inductive Takes : Delivery → List Item → List Item → Prop where
  | bytes {given : List UInt8} {rest : List Item} :
      given ≠ [] → Takes (.data given) (given.map .byte ++ rest) rest
  | stop {rest : List Item} : Takes (.data []) (.stop :: rest) rest
  | finished : Takes (.data []) [] []
  | fault {error : IoError} {rest : List Item} :
      ¬ error.isInterruption → Takes (.fault error) (.fault error :: rest) rest
  | interrupted {error : IoError} {rest : List Item} :
      error.isInterruption → Takes (.fault error) rest rest
  | notReady {rest : List Item} : Takes .notReady rest rest

variable {before after : List Item}

theorem Takes.next_of_empty (taken : Takes (.data []) before after) :
    Item.next before = (.ok none, after) := by
  cases taken with
  | bytes someGiven => exact absurd rfl someGiven
  | stop => rfl
  | finished => rfl

theorem Takes.next_of_byte {byte : UInt8} (taken : Takes (.data [byte]) before after) :
    Item.next before = (.ok (some byte), after) := by
  cases taken with
  | bytes => rfl

theorem Takes.next_of_fault {error : IoError} (taken : Takes (.fault error) before after)
    (final : ¬ error.isInterruption) : Item.next before = (.error (.io error), after) := by
  cases taken with
  | fault => rfl
  | interrupted again => exact absurd again final

theorem Takes.eq_of_interruption {error : IoError} (taken : Takes (.fault error) before after)
    (again : error.isInterruption) : before = after := by
  cases taken with
  | fault final => exact absurd again final
  | interrupted => rfl

theorem Takes.eq_of_notReady (taken : Takes .notReady before after) : before = after := by
  cases taken with
  | notReady => rfl

theorem Takes.cut {limit : Nat} (positive : 0 < limit) {bytes : List UInt8}
    (taken : Takes (.data bytes) before after) :
    Takes (.data (bytes.take limit)) before ((bytes.drop limit).map .byte ++ after) := by
  cases taken with
  | bytes someGiven =>
    have someTaken : bytes.take limit ≠ [] := by
      rw [ne_eq, List.take_eq_nil_iff, not_or]
      exact ⟨Nat.ne_of_gt positive, someGiven⟩
    have split : bytes.map .byte ++ after =
        (bytes.take limit).map .byte ++ ((bytes.drop limit).map .byte ++ after) := by
      rw [← List.append_assoc, ← List.map_append, List.take_append_drop]
    rw [split]
    exact .bytes someTaken
  | stop => rw [List.take_nil, List.drop_nil]; exact .stop
  | finished => rw [List.take_nil, List.drop_nil]; exact .finished

end Delivery

class ItemReader (ρ : Type) [Reader ρ] where
  items : ρ → List Item
  takes_request {limit : Nat} (positive : 0 < limit) (reader : ρ) :
    (Reader.request limit reader).1.Takes (items reader) (items (Reader.request limit reader).2)
  size_request_le (limit : Nat) (reader : ρ) : (Reader.request limit reader).1.size ≤ limit
  left_eq (reader : ρ) : Reader.left reader = Item.byteCount (items reader)

namespace Reader

variable {ρ : Type} [Reader ρ] [ItemReader ρ]

open ItemReader

theorem takes_of_request {limit : Nat} (positive : 0 < limit) {reader rest : ρ}
    {delivery : Delivery} (given : request limit reader = (delivery, rest)) :
    delivery.Takes (items reader) (items rest) := by
  have taken := takes_request positive reader
  rwa [given] at taken

/-- Asking again after a delivery of nothing leaves the items as they are. -/
theorem nextByte_items (reader : ρ) :
    (nextByte reader).map id items = Item.next (items reader) := by
  fun_induction nextByte reader with
  | case1 reader rest given => exact (takes_of_request Nat.one_pos given).next_of_empty.symm
  | case2 reader byte tail rest given =>
    -- No reader delivers more than it was asked for, so nothing is lost with the tail.
    have single := size_request_le 1 reader
    rw [given] at single
    have nothing : tail.length ≤ 0 := Nat.le_of_succ_le_succ single
    obtain rfl : tail = [] := List.eq_nil_of_length_eq_zero (Nat.le_zero.1 nothing)
    exact (takes_of_request Nat.one_pos given).next_of_byte.symm
  | case3 reader error rest given again ih =>
    rw [ih, (takes_of_request Nat.one_pos given).eq_of_interruption again]
  | case4 reader error rest given final =>
    exact ((takes_of_request Nat.one_pos given).next_of_fault final).symm
  | case5 reader rest given ih =>
    rw [ih, (takes_of_request Nat.one_pos given).eq_of_notReady]

instance : ByteCounted ρ where
  items := items
  next_items := nextByte_items
  left_eq := left_eq

end Reader

namespace Script

theorem eventItems_chunk {bytes : List UInt8} (someBytes : bytes ≠ []) :
    eventItems (.chunk bytes) = bytes.map .byte := by
  cases bytes with
  | nil => exact absurd rfl someBytes
  | cons byte rest => rfl

theorem items_cons (event : ScriptEvent) (rest : Script) :
    items (event :: rest) = eventItems event ++ items rest := rfl

theorem items_chunk (bytes : List UInt8) (someBytes : bytes ≠ []) (rest : Script) :
    items (.chunk bytes :: rest) = bytes.map .byte ++ items rest := by
  rw [items_cons, eventItems_chunk someBytes]

theorem items_after_chunk (limit : Nat) (bytes : List UInt8) (rest : Script) :
    items (if bytes.drop limit = [] then rest else .chunk (bytes.drop limit) :: rest) =
      (bytes.drop limit).map .byte ++ items rest := by
  split
  · next spent => rw [spent]; rfl
  · next someLeft => exact items_chunk _ someLeft rest

theorem takes_chunk (bytes : List UInt8) (rest : Script) :
    Delivery.Takes (.data bytes) (items (.chunk bytes :: rest)) (items rest) := by
  cases bytes with
  | nil => exact .stop
  | cons byte tail => exact .bytes (List.cons_ne_nil byte tail)

theorem takes_advance {limit : Nat} (positive : 0 < limit) (script : Script) :
    (advance limit script).1.Takes script.items (advance limit script).2.items := by
  match script with
  | [] => exact .finished
  | .chunk bytes :: rest =>
    rw [advance, items_after_chunk]
    exact (takes_chunk bytes rest).cut positive
  | .fault error :: rest =>
    rw [items_cons, eventItems]
    by_cases again : error.isInterruption
    · rw [if_pos again]; exact .interrupted again
    · rw [if_neg again]; exact .fault again
  | .notReady :: rest => exact .notReady

theorem size_advance_le (limit : Nat) (script : Script) :
    (advance limit script).1.size ≤ limit := by
  match script with
  | [] => exact Nat.zero_le _
  | .chunk bytes :: rest => exact List.length_take_le limit bytes
  | .fault error :: rest => exact Nat.zero_le _
  | .notReady :: rest => exact Nat.zero_le _

theorem items_awaitReady (script : Script) : items (awaitReady script) = items script := by
  induction script with
  | nil => rfl
  | cons event rest ih =>
    cases event with
    | notReady => exact ih
    | _ => rfl

theorem byteCount_items (script : Script) : Item.byteCount script.items = script.size := by
  induction script with
  | nil => rfl
  | cons event rest ih =>
    rw [items_cons, Item.byteCount_append, ih]
    cases event with
    | chunk bytes =>
      cases bytes with
      | nil => rfl
      | cons byte tail =>
        rw [eventItems_chunk (List.cons_ne_nil _ _), Item.byteCount_map_byte, size]
    | fault error =>
      rw [eventItems]
      split <;> exact Nat.zero_add _
    | notReady => exact Nat.zero_add _

end Script

instance : ItemReader Blocking where
  items reader := reader.script.items
  -- A blocking reader first waits, which its items do not show.
  takes_request positive reader := by
    have taken := Script.takes_advance positive reader.script.awaitReady
    rwa [Script.items_awaitReady] at taken
  size_request_le limit reader := Script.size_advance_le limit _
  left_eq reader := (Script.byteCount_items reader.script).symm

instance : ItemReader Polled where
  items reader := reader.script.items
  takes_request positive reader := Script.takes_advance positive reader.script
  size_request_le limit reader := Script.size_advance_le limit reader.script
  left_eq reader := (Script.byteCount_items reader.script).symm

/-- Scripts that amount to the same items cannot be told apart by reading: every call of a
sequence has the same result and leaves the same number of bytes, on a blocking reader and on
a polled one. -/
theorem runAll_eq_of_items_eq {first second : Script} (same : first.items = second.items)
    (calls : List ReadCall) :
    (ReadCall.runAll (Blocking.mk first) calls).map (Prod.map id ByteSource.left) =
        (ReadCall.runAll (Polled.mk second) calls).map (Prod.map id ByteSource.left) ∧
      (ReadCall.runAll (Blocking.mk first) calls).map (Prod.map id ByteSource.left) =
        (ReadCall.runAll (Blocking.mk second) calls).map (Prod.map id ByteSource.left) := by
  simp only [ReadCall.runAll_left]
  have blocking : ∀ script : Script, ItemSource.items (Blocking.mk script) = script.items :=
    fun _ => rfl
  have polled : ItemSource.items (Polled.mk second) = second.items := rfl
  rw [blocking, blocking, polled, same]
  exact ⟨rfl, rfl⟩

/-- One value cut by an interruption, an end and a wait, against one in a single chunk. -/
theorem runAll_eq_of_items_eq_interrupted :
    let first : Script :=
      [.chunk [0xac], .fault (.ofKind .interrupted), .chunk [0x02, 0x81], .chunk [], .chunk [0x01]]
    let second : Script :=
      [.chunk [0xac, 0x02, 0x81], .notReady, .chunk [], .notReady, .chunk [0x01]]
    let calls : List ReadCall := [.varint, .varint, .byte, .short]
    first.items = second.items ∧
      (ReadCall.runAll (Blocking.mk first) calls).map (Prod.map id ByteSource.left) =
        (ReadCall.runAll (Polled.mk second) calls).map (Prod.map id ByteSource.left) :=
  have same := by decide
  ⟨same, (runAll_eq_of_items_eq same _).1⟩

end CompactInt
