import CompactInt.Proofs.Source.Delivery
import CompactInt.Proofs.Varint.Accumulation
import CompactInt.Proofs.Varint.Encoding

/-! What is read as one number, told from the items alone. The tenth byte that announces another
one ends the attempt; before that the first other item decides. -/

set_option autoImplicit false

namespace CompactInt

open Varint

namespace ByteSource

section

variable {lead : List UInt8} (continues : ∀ byte ∈ lead, Continues byte) (rest : List Item)

include continues

theorem finishVarint_lead (decoder : Decoder)
    (room : decoder.read + lead.length < maxGroups + discardWindow) :
    finishVarint decoder (lead.map .byte ++ rest) =
      finishVarint (lead.foldl Decoder.absorb decoder) rest := by
  induction lead generalizing decoder with
  | nil => rfl
  | cons byte lead ih =>
    rw [List.length_cons] at room
    have step := decoder.push_continues (continues byte List.mem_cons_self) (by omega)
    rw [List.map_cons, List.cons_append, finishVarint_byte decoder rfl, step]
    refine ih (fun byte member => continues byte (List.mem_cons_of_mem _ member)) _ ?_
    rw [Decoder.read_absorb]
    omega

theorem readVarint_lead (few : lead.length < 10) :
    ∃ decoder : Decoder, decoder.Collected lead ∧
      readVarint (lead.map .byte ++ rest) = finishVarint decoder rest := by
  refine ⟨lead.foldl Decoder.absorb {}, Decoder.collected_nil.foldl lead, ?_⟩
  exact finishVarint_lead continues rest {} (by rwa [Nat.zero_add])

theorem readVarint_last (few : lead.length < 10) {last : UInt8} (ends : ¬ Continues last) :
    readVarint (lead.map .byte ++ .byte last :: rest) =
      (.ok (UInt32.ofNat (groupSum ((lead ++ [last]).take 5))), rest) := by
  obtain ⟨decoder, collected, same⟩ := readVarint_lead continues (.byte last :: rest) few
  have word : (decoder.absorb last).result = UInt32.ofNat (groupSum ((lead ++ [last]).take 5)) := by
    rw [← UInt32.toNat_inj, (collected.absorb last).result_eq, UInt32.toNat_ofNat']
    rfl
  rw [same, finishVarint_byte decoder rfl, Decoder.push_last decoder ends, word]

theorem readVarint_exhausted (nine : lead.length = 9) {byte : UInt8} (more : Continues byte) :
    readVarint (lead.map .byte ++ .byte byte :: rest) = (.error (.malformed 10), rest) := by
  obtain ⟨decoder, collected, same⟩ := readVarint_lead continues (.byte byte :: rest) (by omega)
  have full : decoder.read = 9 := collected.read_eq.trans nine
  have lastChance : maxGroups + discardWindow ≤ decoder.read + 1 := by rw [full]; decide
  rw [same, finishVarint_byte decoder rfl, Decoder.push_exhausted decoder more lastChance, full]

theorem readVarint_stop (few : lead.length < 10) :
    readVarint (lead.map .byte ++ .stop :: rest) =
      (.error (if lead.length ≤ 4 then .unexpectedEnd lead.length else .malformed lead.length),
        rest) := by
  obtain ⟨decoder, collected, same⟩ := readVarint_lead continues (.stop :: rest) few
  rw [same, finishVarint_end decoder rfl, collected.endFailure_eq]

omit rest in
theorem readVarint_nil (few : lead.length < 10) :
    readVarint (lead.map .byte : List Item) =
      (.error (if lead.length ≤ 4 then .unexpectedEnd lead.length else .malformed lead.length),
        []) := by
  obtain ⟨decoder, collected, same⟩ := readVarint_lead continues [] few
  rw [List.append_nil] at same
  rw [same, finishVarint_end decoder rfl, collected.endFailure_eq]

theorem readVarint_fault (few : lead.length < 10) (error : IoError) :
    readVarint (lead.map .byte ++ .fault error :: rest) = (.error (.io error), rest) := by
  obtain ⟨decoder, _, same⟩ := readVarint_lead continues (.fault error :: rest) few
  rw [same, finishVarint_fault decoder rfl]

end

theorem readVarint_isValue {bytes : List UInt8} (isValue : IsValue bytes) (rest : List Item) :
    readVarint (bytes.map .byte ++ rest) = (.ok (denoted bytes), rest) := by
  obtain ⟨lead, last, rfl, few, continues, ends⟩ := isValue
  have read := readVarint_last continues rest few ends
  rw [denoted_take] at read
  rw [← read, List.map_append, List.append_assoc]
  rfl

theorem readVarint_encode (value : UInt32) (rest : List Item) :
    readVarint ((encode value).map .byte ++ rest) = (.ok value, rest) := by
  rw [readVarint_isValue (isValue_encode value), denoted_encode]

end ByteSource

namespace Item

/-- The bytes at the front that announce another one, up to the first item that does not. -/
def lead : List Item → List UInt8
  | .byte value :: rest => if Continues value then value :: lead rest else []
  | _ => []

theorem continues_of_mem_lead {items : List Item} {byte : UInt8} (member : byte ∈ lead items) :
    Continues byte := by
  fun_induction lead items with
  | case1 value rest continues ih =>
    rcases List.mem_cons.1 member with rfl | later
    · exact continues
    · exact ih later
  | case2 value rest ends => cases member
  | case3 items other => cases member

theorem lead_map_byte_append {front : List UInt8} (continues : ∀ byte ∈ front, Continues byte)
    (items : List Item) : lead (front.map .byte ++ items) = front ++ lead items := by
  induction front with
  | nil => rfl
  | cons byte front ih =>
    obtain ⟨first, others⟩ := List.forall_mem_cons.1 continues
    simp [lead, first, ih others]

theorem lead_append_drop (items : List Item) :
    (lead items).map .byte ++ items.drop (lead items).length = items := by
  fun_induction lead items with
  | case1 value rest continues ih =>
    rw [List.map_cons, List.length_cons, List.drop_succ_cons, List.cons_append, ih]
  | case2 value rest ends => rfl
  | case3 items other => rfl

theorem not_continues_of_getElem?_lead {items : List Item} {byte : UInt8}
    (behind : items[(lead items).length]? = some (.byte byte)) : ¬ Continues byte := by
  fun_induction lead items with
  | case1 value rest continues ih => exact ih behind
  | case2 value rest ends => cases behind; exact ends
  | case3 items other =>
    cases items with
    | nil => cases behind
    | cons item rest => cases behind; exact absurd rfl (other byte rest)

theorem lead_append_cons {items : List Item} {item : Item}
    (behind : items[(lead items).length]? = some item) :
    (lead items).map .byte ++ item :: items.drop ((lead items).length + 1) = items := by
  obtain ⟨inside, rfl⟩ := List.getElem?_eq_some_iff.1 behind
  rw [← List.drop_eq_getElem_cons inside, lead_append_drop]

theorem lead_eq_of_getElem?_eq_none {items : List Item}
    (behind : items[(lead items).length]? = none) : (lead items).map .byte = items := by
  have nothing : items.drop (lead items).length = [] :=
    List.drop_eq_nil_of_le (List.getElem?_eq_none_iff.1 behind)
  have all := lead_append_drop items
  rwa [nothing, List.append_nil] at all

theorem take_lead_append_cons {items : List Item} {count : Nat}
    (within : count < (lead items).length) :
    ((lead items).take count).map .byte ++ .byte (lead items)[count] :: items.drop (count + 1) =
      items := by
  -- The leading bytes behind the place are still in front of the first other item.
  have later : items.drop (count + 1) =
      ((lead items).drop (count + 1)).map .byte ++ items.drop (lead items).length := by
    conv_lhs => rw [← lead_append_drop items]
    rw [List.drop_append_of_le_length (by rwa [List.length_map]), List.map_drop]
  calc ((lead items).take count).map .byte ++ .byte (lead items)[count] :: items.drop (count + 1)
      = ((lead items).take count ++
            (lead items)[count] :: (lead items).drop (count + 1)).map .byte ++
          items.drop (lead items).length := by
        rw [later, List.map_append, List.map_cons, List.append_assoc, List.cons_append]
    _ = (lead items).map .byte ++ items.drop (lead items).length := by
        rw [← List.drop_eq_getElem_cons within, List.take_append_drop]
    _ = items := lead_append_drop items

section

variable {items : List Item}

theorem readVarint_of_exhausted (long : 10 ≤ (lead items).length) :
    ByteSource.readVarint items = (.error (.malformed 10), items.drop 10) := by
  have within : 9 < (lead items).length := long
  have nine : ((lead items).take 9).length = 9 := by
    rw [List.length_take, Nat.min_eq_left (Nat.le_of_lt within)]
  have read := ByteSource.readVarint_exhausted
    (fun byte member => continues_of_mem_lead (List.mem_of_mem_take member)) (items.drop 10) nine
    (continues_of_mem_lead (List.getElem_mem within))
  rwa [take_lead_append_cons within] at read

theorem readVarint_of_last (few : (lead items).length ≤ 9) {last : UInt8}
    (behind : items[(lead items).length]? = some (.byte last)) :
    ByteSource.readVarint items =
      (.ok (UInt32.ofNat (groupSum ((lead items ++ [last]).take 5))),
        items.drop ((lead items).length + 1)) := by
  have read := ByteSource.readVarint_last (fun _ => continues_of_mem_lead)
    (items.drop ((lead items).length + 1)) (Nat.lt_succ_of_le few)
    (not_continues_of_getElem?_lead behind)
  rwa [lead_append_cons behind] at read

theorem readVarint_of_end (few : (lead items).length ≤ 9)
    (behind : items[(lead items).length]? = some .stop ∨ items[(lead items).length]? = none) :
    ByteSource.readVarint items =
      (.error (if (lead items).length ≤ 4 then .unexpectedEnd (lead items).length
        else .malformed (lead items).length), items.drop ((lead items).length + 1)) := by
  rcases behind with stop | noneLeft
  · have read := ByteSource.readVarint_stop (fun _ => continues_of_mem_lead)
      (items.drop ((lead items).length + 1)) (Nat.lt_succ_of_le few)
    rwa [lead_append_cons stop] at read
  -- Behind the last item the list answers as if an end stood there.
  · have continues : ∀ byte ∈ lead items, Continues byte := fun _ => continues_of_mem_lead
    have read := ByteSource.readVarint_nil continues (Nat.lt_succ_of_le few)
    have spent : items.drop ((lead items).length + 1) = [] :=
      List.drop_eq_nil_of_le (Nat.le_succ_of_le (List.getElem?_eq_none_iff.1 noneLeft))
    rwa [lead_eq_of_getElem?_eq_none noneLeft, ← spent] at read

theorem readVarint_of_fault (few : (lead items).length ≤ 9) {error : IoError}
    (behind : items[(lead items).length]? = some (.fault error)) :
    ByteSource.readVarint items = (.error (.io error), items.drop ((lead items).length + 1)) := by
  have read := ByteSource.readVarint_fault (fun _ => continues_of_mem_lead)
    (items.drop ((lead items).length + 1)) (Nat.lt_succ_of_le few) error
  rwa [lead_append_cons behind] at read

end

/-- What reading one number from the items has to come to. The number of leading bytes and the
item behind them tell the result and the items that are left. -/
structure ReadsVarint (items : List Item) (result : Except Failure UInt32) (rest : List Item) :
    Prop where
  exhausted : 10 ≤ (lead items).length →
    result = .error (.malformed 10) ∧ rest = items.drop 10
  complete (last : UInt8) : (lead items).length ≤ 9 →
    items[(lead items).length]? = some (.byte last) →
    last < 128 ∧
    (∃ value : UInt32, result = .ok value ∧
      value.toNat = (∑ i ∈ Finset.range (min ((lead items).length + 1) 5),
        ((lead items ++ [last]).getD i 0).toNat % 128 * 2 ^ (7 * i)) % 2 ^ 32) ∧
    rest = items.drop ((lead items).length + 1)
  ended : (lead items).length ≤ 9 →
    items[(lead items).length]? = some .stop ∨ items[(lead items).length]? = none →
    result = .error (if (lead items).length ≤ 4 then .unexpectedEnd (lead items).length
      else .malformed (lead items).length) ∧
    rest = items.drop ((lead items).length + 1)
  failed (error : IoError) : (lead items).length ≤ 9 →
    items[(lead items).length]? = some (.fault error) →
    result = .error (.io error) ∧ rest = items.drop ((lead items).length + 1)
  cleanEnd_iff : (∃ failure, result = .error failure ∧ failure.isCleanEnd) ↔
    items[0]? = some .stop ∨ items[0]? = none

theorem endFailure_eq_cleanEnd {count : Nat}
    (clean : (if count ≤ 4 then Failure.unexpectedEnd count else .malformed count) =
      .unexpectedEnd 0) : count = 0 := by
  split at clean
  · exact Failure.unexpectedEnd.inj clean
  · cases clean

theorem ended_of_readVarint_error {items : List Item} (few : (lead items).length ≤ 9)
    {failure : Failure} (failed : (ByteSource.readVarint items).1 = .error failure)
    (noFault : ∀ error, failure ≠ .io error) :
    items[(lead items).length]? = some .stop ∨ items[(lead items).length]? = none := by
  cases behind : items[(lead items).length]? with
  | none => exact .inr rfl
  | some item =>
    cases item with
    | stop => exact .inl rfl
    | byte last => rw [readVarint_of_last few behind] at failed; cases failed
    | fault error =>
      rw [readVarint_of_fault few behind] at failed
      exact absurd (Except.error.inj failed).symm (noFault error)

theorem isCleanEnd_readVarint_iff (items : List Item) :
    (∃ failure, (ByteSource.readVarint items).1 = .error failure ∧ failure.isCleanEnd) ↔
      items[0]? = some .stop ∨ items[0]? = none := by
  simp only [Failure.isCleanEnd_iff, exists_eq_right]
  constructor
  · intro clean
    rcases Nat.lt_or_ge 9 (lead items).length with long | few
    · rw [readVarint_of_exhausted long] at clean
      cases clean
    · -- Only an end can be clean, and then it stands at the front.
      have ended := ended_of_readVarint_error few clean nofun
      rw [readVarint_of_end few ended] at clean
      rwa [endFailure_eq_cleanEnd (Except.error.inj clean)] at ended
  · intro ended
    have nothing : lead items = [] := by
      match items with
      | [] | .stop :: _ | .fault _ :: _ => rfl
      | .byte _ :: _ => simp at ended
    have noneRead : (lead items).length = 0 := by rw [nothing]; rfl
    rw [readVarint_of_end (by omega) (noneRead ▸ ended), noneRead]
    rfl

theorem readVarint_reads (items : List Item) :
    ReadsVarint items (ByteSource.readVarint items).1 (ByteSource.readVarint items).2 where
  exhausted long := by rw [readVarint_of_exhausted long]; exact ⟨rfl, rfl⟩
  complete last few behind := by
    rw [readVarint_of_last few behind]
    refine ⟨?_, ⟨_, rfl, ?_⟩, rfl⟩
    · exact UInt8.not_le.1 (not_continues_of_getElem?_lead behind)
    · rw [UInt32.toNat_ofNat', groupSum_take_eq_sum, List.length_append, List.length_singleton]
  ended few behind := by rw [readVarint_of_end few behind]; exact ⟨rfl, rfl⟩
  failed error few behind := by rw [readVarint_of_fault few behind]; exact ⟨rfl, rfl⟩
  cleanEnd_iff := isCleanEnd_readVarint_iff items

end Item

namespace ItemSource

variable {σ : Type} [ByteSource σ] [ItemSource σ]

theorem readVarint_reads (source : σ) :
    Item.ReadsVarint (items source) (ByteSource.readVarint source).1
      (items (ByteSource.readVarint source).2) := by
  have read := Item.readVarint_reads (items source)
  rwa [← ByteSource.readVarint_items source] at read

end ItemSource

/-- Every source reads a number as its items tell: a list of items, a buffer, and a script that
is delivered to a blocking or to a polled reader. -/
theorem readVarint_classified :
    (∀ items : List Item,
      Item.ReadsVarint items (ByteSource.readVarint items).1 (ByteSource.readVarint items).2) ∧
    (∀ buffer : ReadBuffer,
      Item.ReadsVarint (buffer.contents.map .byte) (ByteSource.readVarint buffer).1
        ((ByteSource.readVarint buffer).2.contents.map .byte)) ∧
    (∀ script : Script,
      Item.ReadsVarint script.items (ByteSource.readVarint (Blocking.mk script)).1
        (ByteSource.readVarint (Blocking.mk script)).2.script.items) ∧
    (∀ script : Script,
      Item.ReadsVarint script.items (ByteSource.readVarint (Polled.mk script)).1
        (ByteSource.readVarint (Polled.mk script)).2.script.items) :=
  ⟨Item.readVarint_reads, ItemSource.readVarint_reads,
    fun script => ItemSource.readVarint_reads (Blocking.mk script),
    fun script => ItemSource.readVarint_reads (Polled.mk script)⟩

end CompactInt
