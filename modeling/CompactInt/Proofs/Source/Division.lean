import CompactInt.Proofs.Source.Decoding

/-! The numbers at the front of a source, and the items behind them from which none can be read. -/

set_option autoImplicit false

namespace CompactInt

open Varint

namespace ByteSource

section

variable {σ : Type} [ByteSource σ]

theorem readVarints_failure {source after : σ} {failure : Failure}
    (read : readVarint source = (.error failure, after)) : readVarints source = ([], failure) := by
  rw [readVarints]
  split
  · next found => rw [read] at found; cases found; rfl
  · next found => rw [read] at found; cases found

theorem readVarints_number {source after : σ} {value : UInt32}
    (read : readVarint source = (.ok value, after)) :
    readVarints source = (value :: (readVarints after).1, (readVarints after).2) := by
  rw [readVarints]
  split
  · next found => rw [read] at found; cases found
  · next found => rw [read] at found; cases found; rfl

variable [ItemSource σ]

theorem readVarint_of_items {source after : σ} {result : Except Failure UInt32}
    (read : readVarint source = (result, after)) :
    readVarint (ItemSource.items source) = (result, ItemSource.items after) := by
  rw [← readVarint_items, read]
  rfl

theorem exists_readVarint_of_items {source : σ} {result : Except Failure UInt32}
    {later : List Item} (read : readVarint (ItemSource.items source) = (result, later)) :
    ∃ after, readVarint source = (result, after) ∧ ItemSource.items after = later := by
  rw [← readVarint_items] at read
  obtain ⟨same, moved⟩ := Prod.mk.inj read
  exact ⟨_, Prod.ext same rfl, moved⟩

theorem readVarints_items (source : σ) :
    readVarints (ItemSource.items source) = readVarints source := by
  fun_induction readVarints source with
  | case1 source failure after read =>
    exact readVarints_failure (readVarint_of_items read)
  | case2 source value after read values failure found ih =>
    rw [readVarints_number (readVarint_of_items read), ih, found]

end

end ByteSource

namespace Item

theorem exists_isValue_of_readVarint {items rest : List Item} {value : UInt32}
    (read : ByteSource.readVarint items = (.ok value, rest)) :
    ∃ bytes, IsValue bytes ∧ value = denoted bytes ∧ items = bytes.map .byte ++ rest := by
  rcases Nat.lt_or_ge 9 (lead items).length with long | few
  · rw [readVarint_of_exhausted long] at read
    cases read
  · cases behind : items[(lead items).length]? with
    | none => rw [readVarint_of_end few (.inr behind)] at read; cases read
    | some item =>
      cases item with
      | stop => rw [readVarint_of_end few (.inl behind)] at read; cases read
      | fault error => rw [readVarint_of_fault few behind] at read; cases read
      | byte last =>
        rw [readVarint_of_last few behind, denoted_take] at read
        obtain ⟨rfl, rfl⟩ : denoted (lead items ++ [last]) = value ∧ _ = rest := by
          simpa only [Prod.mk.injEq, Except.ok.injEq] using read
        refine ⟨lead items ++ [last], ⟨lead items, last, rfl, Nat.lt_succ_of_le few,
          fun _ => continues_of_mem_lead, not_continues_of_getElem?_lead behind⟩, rfl, ?_⟩
        conv_lhs => rw [← lead_append_cons behind]
        rw [List.map_append, List.append_assoc]
        rfl

/-- A list of items as the bytes of numbers, one number behind the other, and a rest from which
no number can be read. -/
structure Division (items : List Item) (numbers : List (List UInt8)) (rest : List Item)
    (failure : Failure) : Prop where
  items_eq : items = numbers.flatten.map .byte ++ rest
  isValue : ∀ bytes ∈ numbers, IsValue bytes
  stuck : (ByteSource.readVarint rest).1 = .error failure

theorem Division.nil {rest : List Item} {failure : Failure}
    (stuck : (ByteSource.readVarint rest).1 = .error failure) : Division rest [] rest failure :=
  ⟨rfl, nofun, stuck⟩

theorem Division.cons {items rest : List Item} {numbers : List (List UInt8)} {failure : Failure}
    {bytes : List UInt8} (isValue : IsValue bytes) (later : Division items numbers rest failure) :
    Division (bytes.map .byte ++ items) (bytes :: numbers) rest failure where
  items_eq := by
    rw [later.items_eq, List.flatten_cons, List.map_append, List.append_assoc]
  isValue := List.forall_mem_cons.2 ⟨isValue, later.isValue⟩
  stuck := later.stuck

theorem exists_division (items : List Item) :
    ∃ numbers rest failure, Division items numbers rest failure := by
  fun_induction ByteSource.readVarints items with
  | case1 items failure after read =>
    exact ⟨[], items, failure, .nil (congrArg Prod.fst read)⟩
  | case2 items value after read values failure found ih =>
    obtain ⟨bytes, isValue, _, rfl⟩ := exists_isValue_of_readVarint read
    obtain ⟨numbers, rest, failure, later⟩ := ih
    exact ⟨bytes :: numbers, rest, failure, later.cons isValue⟩

namespace Division

variable {items rest : List Item} {bytes : List UInt8} {numbers : List (List UInt8)}
  {failure : Failure}

theorem readVarint_nil (division : Division items [] rest failure) :
    items = rest ∧ (ByteSource.readVarint items).1 = .error failure := by
  obtain rfl := division.items_eq
  exact ⟨rfl, division.stuck⟩

theorem readVarint_cons (division : Division items (bytes :: numbers) rest failure) :
    ∃ later, ByteSource.readVarint items = (.ok (denoted bytes), later) ∧
      Division later numbers rest failure := by
  obtain ⟨rfl, isValue, stuck⟩ := division
  obtain ⟨first, others⟩ := List.forall_mem_cons.1 isValue
  refine ⟨numbers.flatten.map .byte ++ rest, ?_, rfl, others, stuck⟩
  rw [List.flatten_cons, List.map_append, List.append_assoc]
  exact ByteSource.readVarint_isValue first _

theorem readVarints (division : Division items numbers rest failure) :
    ByteSource.readVarints items = (numbers.map denoted, failure) := by
  induction numbers generalizing items with
  | nil =>
    obtain ⟨_, stuck⟩ := division.readVarint_nil
    exact ByteSource.readVarints_failure (Prod.ext stuck rfl)
  | cons bytes numbers ih =>
    obtain ⟨later, read, division⟩ := division.readVarint_cons
    rw [ByteSource.readVarints_number read, ih division]
    rfl

theorem take_flatten {bytes : List UInt8}
    (division : Division (bytes.map .byte) numbers rest failure) :
    bytes.take numbers.flatten.length = numbers.flatten := by
  have front := congrArg (List.take numbers.flatten.length) division.items_eq
  rw [← List.map_take, List.take_left' (List.length_map _)] at front
  exact eq_of_map_byte front

end Division

end Item

theorem ReadBuffer.isCleanEnd_iff {buffer after : ReadBuffer} {failure : Failure}
    (read : ByteSource.readVarint buffer = (.error failure, after)) :
    failure.isCleanEnd ↔ ¬ buffer.hasRemaining := by
  have clean := Item.isCleanEnd_readVarint_iff (ItemSource.items buffer)
  have noneLeft : ¬ buffer.hasRemaining ↔ buffer.contents = [] := by
    rw [hasRemaining_iff, ← length_contents, List.length_pos_iff, ne_eq, not_not]
  rw [ByteSource.readVarint_of_items read] at clean
  simp only [Except.error.injEq, exists_eq_left'] at clean
  rw [clean, noneLeft]
  show (buffer.contents.map Item.byte)[0]? = _ ∨ (buffer.contents.map Item.byte)[0]? = _ ↔ _
  cases buffer.contents <;> simp

end CompactInt
