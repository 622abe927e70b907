import CompactInt.Proofs.PackedShort
import CompactInt.Proofs.Sink.Acceptance
import CompactInt.Proofs.Sink.AllOrNothing
import CompactInt.Proofs.Source.Decoding
import CompactInt.Proofs.Varint.Encoding

/-! Records of mixed form, written one after the other and read back. Reading a record takes exactly
the bytes that writing it puts out, whatever follows them. -/

set_option autoImplicit false

namespace CompactInt

inductive Record where
  | varint (value : UInt32)
  | short (value : UInt16) (small : value ≤ PackedShort.maxValue)
  deriving DecidableEq, Repr

namespace Record

def bytes : Record → List UInt8
  | varint value => Varint.encode value
  | short value _ => [(value >>> 8).toUInt8, value.toUInt8]

def bytesOf (records : List Record) : List UInt8 := records.flatMap bytes

def writeCall : Record → WriteCall
  | varint value => .varint value
  | short value _ => .short value

inductive WrittenBy : Record → BufferCall → Prop where
  | checked (record : Record) : WrittenBy record (.checked record.writeCall)
  | putVarint (value : UInt32) : WrittenBy (.varint value) (.putVarint value)
  | putShort (value : UInt16) (small : value ≤ PackedShort.maxValue) :
      WrittenBy (.short value small) (.putShort value)

def readCall : Record → ReadCall
  | varint _ => .varint
  | short _ _ => .short

def reading : Record → Reading
  | varint value => .varint value
  | short value _ => .short value

theorem output_writeCall (record : Record) : record.writeCall.output = .ok record.bytes := by
  cases record with
  | varint value => rfl
  | short value small => exact PackedShort.pack_of_le small

theorem output_of_writtenBy {record : Record} {call : BufferCall}
    (written : record.WrittenBy call) : call.output = .ok record.bytes := by
  cases written with
  | checked => exact output_writeCall record
  | putVarint value => rfl
  | putShort value small => exact PackedShort.pack_of_le small

theorem bytesOf_cons (record : Record) (records : List Record) :
    bytesOf (record :: records) = record.bytes ++ bytesOf records := rfl

/-! ## Writing -/

theorem runAll_buffer {records : List Record} {calls : List BufferCall}
    (written : List.Forall₂ WrittenBy records calls) (buffer : WriteBuffer)
    (fits : buffer.fits (bytesOf records).length) :
    (∀ step ∈ BufferCall.runAll buffer calls, step.1 = .ok ()) ∧
      (Calls.final buffer (BufferCall.runAll buffer calls)).content =
        buffer.content ++ bytesOf records := by
  induction written generalizing buffer with
  | nil => exact ⟨nofun, (List.append_nil _).symm⟩
  | @cons record call records calls first later ih =>
    rw [bytesOf_cons, List.length_append] at fits
    -- The room that the first record leaves is the room that the later ones need.
    have course := BufferCall.run_of_fits (output_of_writtenBy first)
      (WriteBuffer.fits_of_fits_add fits)
    obtain ⟨success, content⟩ := ih (buffer.append record.bytes) (WriteBuffer.fits_append fits)
    rw [BufferCall.runAll, Calls.run_cons, course]
    refine ⟨List.forall_mem_cons.2 ⟨rfl, success⟩, ?_⟩
    rw [WriteBuffer.content_append, List.append_assoc, ← bytesOf_cons] at content
    exact content

variable {κ : Type} [ByteSink κ] [PrefixSink κ]

theorem run_writeCall (record : Record) (sink : κ) :
    WriteCall.run sink record.writeCall = ByteSink.writeBytes record.bytes sink :=
  WriteCall.run_of_accepted sink (output_writeCall record)

theorem written_run_of_success (record : Record) (sink : κ)
    (success : (WriteCall.run sink record.writeCall).1 = .ok ()) :
    PrefixSink.written (WriteCall.run sink record.writeCall).2 =
      PrefixSink.written sink ++ record.bytes := by
  rw [run_writeCall] at success ⊢
  exact PrefixSink.written_of_success success

theorem written_runAll_of_success (records : List Record) (sink : κ)
    (success : ∀ step ∈ WriteCall.runAll sink (records.map writeCall), step.1 = .ok ()) :
    PrefixSink.written (Calls.final sink (WriteCall.runAll sink (records.map writeCall))) =
      PrefixSink.written sink ++ bytesOf records := by
  induction records generalizing sink with
  | nil => exact (List.append_nil _).symm
  | cons record records ih =>
    rw [List.map_cons, WriteCall.runAll, Calls.run_cons] at success ⊢
    obtain ⟨first, later⟩ := List.forall_mem_cons.1 success
    rw [Calls.final_cons, bytesOf_cons, ← List.append_assoc,
      ← written_run_of_success record sink first]
    exact ih _ later

theorem success_of_ready (Ready : Nat → κ → Prop)
    (accepts : ∀ (bytes : List UInt8) (more : Nat) (sink : κ), Ready (bytes.length + more) sink →
      (ByteSink.writeBytes bytes sink).1 = .ok () ∧ Ready more (ByteSink.writeBytes bytes sink).2)
    (records : List Record) (sink : κ) (ready : Ready (bytesOf records).length sink) :
    ∀ step ∈ WriteCall.runAll sink (records.map writeCall), step.1 = .ok () := by
  induction records generalizing sink with
  | nil => exact nofun
  | cons record records ih =>
    rw [bytesOf_cons, List.length_append] at ready
    obtain ⟨success, stillReady⟩ := accepts record.bytes _ sink ready
    rw [List.map_cons, WriteCall.runAll, Calls.run_cons, run_writeCall]
    exact List.forall_mem_cons.2 ⟨success, ih _ stillReady⟩

/-! ## Reading -/

theorem run_readCall (record : Record) (rest : List Item) :
    ReadCall.run (record.bytes.map .byte ++ rest) record.readCall = (.ok record.reading, rest) := by
  cases record with
  | varint value =>
    rw [readCall, ReadCall.run, bytes, ByteSource.readVarint_encode]
    rfl
  | short value small =>
    have read : ByteSource.readShort ((short value small).bytes.map Item.byte ++ rest) =
        (PackedShort.unpack (value >>> 8).toUInt8 value.toUInt8, rest) := rfl
    rw [readCall, ReadCall.run, read, PackedShort.unpack_halves small]
    rfl

theorem runAll_items (records : List Record) (rest : List Item) :
    (ReadCall.runAll ((bytesOf records).map .byte ++ rest) (records.map readCall)).map Prod.fst =
        records.map (fun record => .ok record.reading) ∧
      Calls.final ((bytesOf records).map .byte ++ rest)
        (ReadCall.runAll ((bytesOf records).map .byte ++ rest) (records.map readCall)) = rest := by
  induction records with
  | nil => exact ⟨rfl, rfl⟩
  | cons record records ih =>
    obtain ⟨results, left⟩ := ih
    rw [bytesOf_cons, List.map_append, List.append_assoc, List.map_cons, ReadCall.runAll,
      Calls.run_cons, run_readCall]
    exact ⟨congrArg (_ :: ·) results, left⟩

variable {σ : Type} [ByteSource σ] [ItemSource σ]

open ItemSource

theorem runAll_source (records : List Record) {source : σ} {rest : List Item}
    (holds : items source = (bytesOf records).map .byte ++ rest) :
    (ReadCall.runAll source (records.map readCall)).map Prod.fst =
        records.map (fun record => .ok record.reading) ∧
      items (Calls.final source (ReadCall.runAll source (records.map readCall))) = rest := by
  -- The run on the source is the run on its items, step by step.
  have viewed := ReadCall.runAll_items source (records.map readCall)
  obtain ⟨results, left⟩ := runAll_items records rest
  rw [← holds] at results left
  have moved := Calls.final_map items source (ReadCall.runAll source (records.map readCall))
  constructor
  · rw [← results, ← viewed, List.map_map]
    rfl
  · rw [← moved, viewed, left]

/-- Wherever the bytes stand in front of something, the calls of the records give exactly the
records and leave exactly what follows. -/
structure ReadBack (records : List Record) (written : List UInt8) : Prop where
  buffer (source : ReadBuffer) (tail : List UInt8) : source.contents = written ++ tail →
    (ReadCall.runAll source (records.map readCall)).map Prod.fst =
        records.map (fun record => .ok record.reading) ∧
      (Calls.final source (ReadCall.runAll source (records.map readCall))).contents = tail
  blocking (script : Script) (rest : List Item) : script.items = written.map .byte ++ rest →
    (ReadCall.runAll (Blocking.mk script) (records.map readCall)).map Prod.fst =
        records.map (fun record => .ok record.reading) ∧
      (Calls.final (Blocking.mk script)
        (ReadCall.runAll (Blocking.mk script) (records.map readCall))).script.items = rest
  polled (script : Script) (rest : List Item) : script.items = written.map .byte ++ rest →
    (ReadCall.runAll (Polled.mk script) (records.map readCall)).map Prod.fst =
        records.map (fun record => .ok record.reading) ∧
      (Calls.final (Polled.mk script)
        (ReadCall.runAll (Polled.mk script) (records.map readCall))).script.items = rest

theorem readBack_bytesOf (records : List Record) : ReadBack records (bytesOf records) where
  buffer source tail holds := by
    have viewed : items source = (bytesOf records).map .byte ++ tail.map .byte := by
      rw [← List.map_append, ← holds]
      rfl
    obtain ⟨results, left⟩ := runAll_source records viewed
    exact ⟨results, Item.eq_of_map_byte left⟩
  blocking script rest holds := by
    have viewed : items (Blocking.mk script) = (bytesOf records).map .byte ++ rest := holds
    exact runAll_source records viewed
  polled script rest holds := by
    have viewed : items (Polled.mk script) = (bytesOf records).map .byte ++ rest := holds
    exact runAll_source records viewed

theorem success_of_willing (records : List Record) (writer : Writer)
    (willing : ∀ event ∈ writer.script, event.Willing) :
    ∀ step ∈ WriteCall.runAll writer (records.map writeCall), step.1 = .ok () := by
  -- Willingness does not depend on how many bytes are still to come.
  apply success_of_ready (fun _ sink => ∀ event ∈ sink.script, event.Willing)
  · exact fun bytes _ sink => Writer.writeAll_of_willing bytes sink
  · exact willing

theorem success_of_room (records : List Record) (sink : Allotment)
    (room : (bytesOf records).length ≤ sink.room) :
    ∀ step ∈ WriteCall.runAll sink (records.map writeCall), step.1 = .ok () := by
  apply success_of_ready (fun needed sink => needed ≤ sink.room)
  · intro bytes more sink enough
    have course : ByteSink.writeBytes bytes sink = _ := Allotment.writeEach_eq bytes sink
    rw [course]
    exact ⟨if_pos (Nat.le_of_add_right_le enough), Nat.le_sub_of_add_le' enough⟩
  · exact room

end Record

/-- Records written in order to a sink with room for them, by any of the calls that write them,
are read back in order from in front of whatever follows. A writer or an allotment has put the
records out whenever all calls succeeded. -/
theorem readBack_of_written (records : List Record) :
    (∀ (buffer : WriteBuffer) (calls : List BufferCall),
      List.Forall₂ Record.WrittenBy records calls →
      buffer.fits (Record.bytesOf records).length →
      (∀ step ∈ BufferCall.runAll buffer calls, step.1 = .ok ()) ∧
        ∃ written, Record.ReadBack records written ∧
          (Calls.final buffer (BufferCall.runAll buffer calls)).content =
            buffer.content ++ written) ∧
    (∀ writer : Writer,
      ((∀ event ∈ writer.script, event.Willing) →
        ∀ step ∈ WriteCall.runAll writer (records.map Record.writeCall), step.1 = .ok ()) ∧
      ((∀ step ∈ WriteCall.runAll writer (records.map Record.writeCall), step.1 = .ok ()) →
        ∃ written, Record.ReadBack records written ∧
          (Calls.final writer (WriteCall.runAll writer (records.map Record.writeCall))).written =
            writer.written ++ written)) ∧
    (∀ sink : Allotment,
      ((Record.bytesOf records).length ≤ sink.room →
        ∀ step ∈ WriteCall.runAll sink (records.map Record.writeCall), step.1 = .ok ()) ∧
      ((∀ step ∈ WriteCall.runAll sink (records.map Record.writeCall), step.1 = .ok ()) →
        ∃ written, Record.ReadBack records written ∧
          (Calls.final sink (WriteCall.runAll sink (records.map Record.writeCall))).written =
            sink.written ++ written)) := by
  have readable := Record.readBack_bytesOf records
  refine ⟨?_, ?_, ?_⟩
  · intro buffer calls written fits
    obtain ⟨success, content⟩ := Record.runAll_buffer written buffer fits
    exact ⟨success, _, readable, content⟩
  · intro writer
    refine ⟨Record.success_of_willing records writer, fun success => ⟨_, readable, ?_⟩⟩
    exact Record.written_runAll_of_success records writer success
  · intro sink
    refine ⟨Record.success_of_room records sink, fun success => ⟨_, readable, ?_⟩⟩
    exact Record.written_runAll_of_success records sink success

/-- Three records across the joint of two storages, read back around an interruption. -/
theorem readBack_of_written_chained :
    let records : List Record := [.varint 300, .short 258 (by decide), .varint 4294967295]
    let buffer : WriteBuffer := .chained (.empty 3 7)
    let calls : List BufferCall :=
      [.putVarint 300, .checked (.short 258), .checked (.varint 4294967295)]
    let script : Script :=
      [.chunk [0xac, 0x02, 0x01, 0x02, 0xff], .fault (.ofKind .interrupted),
        .chunk [0xff, 0xff, 0xff, 0x0f, 0x80]]
    let reads := ReadCall.runAll (Blocking.mk script) (records.map Record.readCall)
    (∀ step ∈ BufferCall.runAll buffer calls, step.1 = .ok ()) ∧
      (Calls.final buffer (BufferCall.runAll buffer calls)).content =
        [0xac, 0x02, 0x01, 0x02, 0xff, 0xff, 0xff, 0xff, 0x0f] ∧
      reads.map Prod.fst = [.ok (.varint 300), .ok (.short 258), .ok (.varint 4294967295)] ∧
      (Calls.final (Blocking.mk script) reads).script.items = [.byte 0x80] := by
  intro records buffer calls script reads
  have content : (Calls.final buffer (BufferCall.runAll buffer calls)).content =
      [0xac, 0x02, 0x01, 0x02, 0xff, 0xff, 0xff, 0xff, 0x0f] := by cbv
  have ways : List.Forall₂ Record.WrittenBy records calls :=
    .cons (.putVarint 300) (.cons (.checked _) (.cons (.checked _) .nil))
  obtain ⟨success, written, readable, added⟩ :=
    (readBack_of_written records).1 buffer calls ways (by cbv)
  obtain rfl : _ = written := content.symm.trans added
  exact ⟨success, content, readable.blocking script [.byte 0x80] (by decide)⟩

end CompactInt
