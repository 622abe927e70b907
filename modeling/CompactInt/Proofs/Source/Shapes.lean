import CompactInt.Proofs.Source.Delivery

/-! Reading from buffers of any shape. Every read asks the buffer before it takes a byte, and has
the result that it has on a stream with the same contents. -/

set_option autoImplicit false

namespace CompactInt

namespace Script

/-- The script of a stream that delivers bytes at once, and nothing if there are none. -/
def ofBytes (bytes : List UInt8) : Script := if bytes = [] then [] else [.chunk bytes]

theorem items_ofBytes (bytes : List UInt8) : (ofBytes bytes).items = bytes.map .byte := by
  unfold ofBytes
  split
  · next nothing => rw [nothing]; rfl
  · next someBytes => exact (items_chunk bytes someBytes []).trans (List.append_nil _)

end Script

/-! ## No read overruns a source of items -/

theorem Varint.Decoder.endFailure_ne_overrun (decoder : Decoder) :
    decoder.endFailure ≠ .overrun := by
  unfold endFailure
  split
  · simp
  · simp

theorem Varint.Decoder.push_ne_overrun (decoder : Decoder) (byte : UInt8) :
    (decoder.push byte).1 ≠ .error .overrun := by
  unfold push
  dsimp only
  split
  · simp
  · split
    · simp
    · simp

theorem PackedShort.unpack_ne_overrun (high low : UInt8) :
    unpack high low ≠ .error .overrun := by
  unfold unpack
  dsimp only
  split
  · simp
  · simp

theorem Item.next_ne_overrun (items : List Item) : (next items).1 ≠ .error .overrun := by
  match items with
  | [] | .byte _ :: _ | .stop :: _ | .fault _ :: _ => simp [next, answer]

namespace ByteSource

variable {σ : Type} [ByteSource σ] [ItemSource σ]

theorem next_ne_overrun (source : σ) : (next source).1 ≠ .error .overrun := by
  have same := congrArg Prod.fst (ItemSource.next_items source)
  exact fun overrun => Item.next_ne_overrun _ (same.symm.trans overrun)

theorem failure_ne_overrun {source rest : σ} {failure : Failure}
    (given : next source = (.error failure, rest)) : failure ≠ .overrun := by
  rintro rfl
  exact next_ne_overrun source (congrArg Prod.fst given)

theorem finishVarint_ne_overrun (decoder : Varint.Decoder) (source : σ) :
    (finishVarint decoder source).1 ≠ .error .overrun := by
  fun_induction finishVarint decoder source with
  | case1 decoder source failure rest given =>
    exact mt Except.error.inj (failure_ne_overrun given)
  | case2 decoder source rest given =>
    exact mt Except.error.inj decoder.endFailure_ne_overrun
  | case3 decoder source byte rest given failure step =>
    rintro overrun
    obtain rfl := Except.error.inj overrun
    exact decoder.push_ne_overrun byte step
  | case4 decoder source byte rest given value step => simp
  | case5 decoder source byte rest given step ih => exact ih

theorem readShort_ne_overrun (source : σ) : (readShort source).1 ≠ .error .overrun := by
  unfold readShort
  split
  · next given => exact mt Except.error.inj (failure_ne_overrun given)
  · simp
  · split
    · next given => exact mt Except.error.inj (failure_ne_overrun given)
    · simp
    · exact PackedShort.unpack_ne_overrun _ _

end ByteSource

namespace ReadCall

variable {σ : Type} [ByteSource σ] [ItemSource σ]

omit [ByteSource σ] [ItemSource σ] in
theorem map_ne_overrun {α : Type} {result : Except Failure α} {wrap : α → Reading}
    (sound : result ≠ .error .overrun) : result.map wrap ≠ .error .overrun := by
  cases result with
  | error failure => exact fun overrun => sound (congrArg _ (Except.error.inj overrun))
  | ok value => simp [Except.map]

theorem run_ne_overrun (source : σ) (call : ReadCall) :
    (run source call).1 ≠ .error .overrun := by
  cases call with
  | byte => exact map_ne_overrun (ByteSource.next_ne_overrun source)
  | varint => exact map_ne_overrun (ByteSource.finishVarint_ne_overrun {} source)
  | short => exact map_ne_overrun (ByteSource.readShort_ne_overrun source)

theorem runAll_ne_overrun (source : σ) (calls : List ReadCall) :
    ∀ step ∈ runAll source calls, step.1 ≠ .error .overrun :=
  Calls.forall_mem_run (P := fun result : Except Failure Reading => result ≠ .error .overrun)
    run_ne_overrun source calls

end ReadCall

/-- Whatever its shape, a buffer is never overrun by a sequence of reads, and every read has the
result that it has on a stream with the contents of the buffer as its only chunk, and leaves as
many bytes. -/
theorem runAll_buffer_eq_stream (buffer : ReadBuffer) (calls : List ReadCall) :
    (∀ step ∈ ReadCall.runAll buffer calls, step.1 ≠ .error .overrun) ∧
      (ReadCall.runAll buffer calls).map (Prod.map id ReadBuffer.remaining) =
        (ReadCall.runAll (Blocking.mk (.ofBytes buffer.contents)) calls).map
          (Prod.map id ByteSource.left) := by
  constructor
  · exact ReadCall.runAll_ne_overrun buffer calls
  · have stream : ItemSource.items (Blocking.mk (.ofBytes buffer.contents)) =
        ItemSource.items buffer := Script.items_ofBytes buffer.contents
    calc (ReadCall.runAll buffer calls).map (Prod.map id ByteSource.left)
        = (ReadCall.runAll (ItemSource.items buffer) calls).map (Prod.map id Item.byteCount) :=
          ReadCall.runAll_left buffer calls
      _ = (ReadCall.runAll (Blocking.mk (.ofBytes buffer.contents)) calls).map
            (Prod.map id ByteSource.left) := by
          rw [ReadCall.runAll_left, stream]

example :
    let buffer : ReadBuffer :=
      .limited 3 (.chained (.cursor [0xff, 0xac] 1) (.plain [0x02, 0x80, 1]))
    (ReadCall.runAll buffer [.varint, .short, .byte]).map (Prod.map id ReadBuffer.remaining) =
      [(.ok (.varint 300), 1), (.error (.unexpectedEnd 1), 0), (.ok (.byte none), 0)] := by
  cbv

end CompactInt
