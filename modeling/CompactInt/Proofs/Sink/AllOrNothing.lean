import CompactInt.Proofs.Sink.Output
import CompactInt.Sink.Buffer

/-! Writes to buffers do all of their work or none: a call is rejected by its argument, refused for
want of room, or carried out as a whole. -/

set_option autoImplicit false

namespace CompactInt

namespace WriteBuffer

theorem fits_iff {count : Nat} {buffer : WriteBuffer} :
    buffer.fits count ↔ ∀ room ∈ buffer.room, count ≤ room := by
  unfold fits
  cases buffer.room with
  | none => simp
  | some room => simp

theorem fits_or_short (count : Nat) (buffer : WriteBuffer) :
    buffer.fits count ∨ ∃ room ∈ buffer.room, room < count := by
  rw [fits_iff]
  cases buffer.room with
  | none => exact .inl nofun
  | some room =>
    rcases Nat.lt_or_ge room count with short | enough
    · exact .inr ⟨room, rfl, short⟩
    · exact .inl fun _ same => Option.some.inj same ▸ enough

theorem fits_of_fits_add {count more : Nat} {buffer : WriteBuffer}
    (fits : buffer.fits (count + more)) : buffer.fits count := by
  rw [fits_iff] at fits ⊢
  exact fun room bound => Nat.le_of_add_right_le (fits room bound)

theorem fits_append {added : List UInt8} {more : Nat} {buffer : WriteBuffer}
    (fits : buffer.fits (added.length + more)) : (buffer.append added).fits more := by
  rw [fits_iff] at fits ⊢
  rw [room_append]
  intro room bound
  obtain ⟨earlier, known, rfl⟩ := Option.map_eq_some_iff.1 bound
  have := fits earlier known
  omega

theorem put_of_fits {added : List UInt8} {buffer : WriteBuffer} (fits : buffer.fits added.length) :
    buffer.put added = (.ok (), buffer.append added) := if_pos fits

theorem put_of_short {added : List UInt8} {buffer : WriteBuffer} {room : Nat}
    (bound : buffer.room = some room) (short : room < added.length) :
    buffer.put added = (.error .overrun, buffer) := by
  refine if_neg fun fits => ?_
  exact Nat.not_le.2 short (fits_iff.1 fits room bound)

theorem write_of_fits {added : List UInt8} {buffer : WriteBuffer}
    (fits : buffer.fits added.length) : buffer.write added = (.ok (), buffer.append added) := by
  unfold write
  split
  · next room bound =>
    rw [if_neg (Nat.not_lt.2 (fits_iff.1 fits room bound)), put_of_fits fits]
  · exact put_of_fits fits

theorem write_of_short {added : List UInt8} {buffer : WriteBuffer} {room : Nat}
    (bound : buffer.room = some room) (short : room < added.length) :
    buffer.write added = (.error (.io (tooSmall added.length room)), buffer) := by
  rw [write, bound]
  exact if_pos short

end WriteBuffer

namespace BufferCall

/-- The write with the same argument, whether it asks for room or not. -/
def toWrite : BufferCall → WriteCall
  | checked call => call
  | putVarint value => .varint value
  | putShort value => .short value

def Invalid (call : BufferCall) : Prop := call.toWrite.Invalid

/-- The failure of a call for want of room. Without a check it ends the program. -/
def shortage (needed room : Nat) : BufferCall → Failure
  | checked _ =>
    .io ⟨.writeZero, s!"buffer too small: need {needed} bytes but has {room}"⟩
  | putVarint _ | putShort _ => .overrun

theorem output_toWrite (call : BufferCall) : call.toWrite.output = call.output := by
  cases call <;> rfl

theorem output_of_invalid {call : BufferCall} (invalid : call.Invalid) :
    ∃ fault, call.output = .error (.invalidArgument fault) := by
  rw [← output_toWrite]
  exact WriteCall.output_of_invalid invalid

theorem output_of_valid {call : BufferCall} (valid : ¬ call.Invalid) :
    ∃ bytes, call.output = .ok bytes := by
  rw [← output_toWrite]
  exact WriteCall.output_of_valid valid

theorem output_eq_ok_iff {call : BufferCall} {bytes : List UInt8} :
    call.output = .ok bytes ↔ call.toWrite.Emits bytes := by
  rw [← output_toWrite, WriteCall.output_eq_ok_iff]

theorem run_checked (buffer : WriteBuffer) (call : WriteCall) :
    run buffer (checked call) =
      match call.output with
      | .ok bytes => buffer.write bytes
      | .error failure => (.error failure, buffer) :=
  WriteCall.run_eq (fun _ _ => rfl) buffer call

section

variable {call : BufferCall} {buffer : WriteBuffer}

theorem run_of_rejected {failure : Failure} (output : call.output = .error failure) :
    run buffer call = (.error failure, buffer) := by
  cases call with
  | checked call => rw [run_checked, show call.output = _ from output]
  | putVarint value => cases output
  | putShort value =>
    rw [run, WriteBuffer.putShort, show PackedShort.pack value = _ from output]

theorem run_of_fits {bytes : List UInt8} (output : call.output = .ok bytes)
    (fits : buffer.fits bytes.length) : run buffer call = (.ok (), buffer.append bytes) := by
  cases call with
  | checked call =>
    rw [run_checked, show call.output = _ from output]
    exact WriteBuffer.write_of_fits fits
  | putVarint value =>
    obtain rfl := Except.ok.inj output
    exact WriteBuffer.put_of_fits fits
  | putShort value =>
    rw [run, WriteBuffer.putShort, show PackedShort.pack value = _ from output]
    exact WriteBuffer.put_of_fits fits

theorem run_of_short {bytes : List UInt8} {room : Nat} (output : call.output = .ok bytes)
    (bound : buffer.room = some room) (short : room < bytes.length) :
    run buffer call = (.error (call.shortage bytes.length room), buffer) := by
  cases call with
  | checked call =>
    rw [run_checked, show call.output = _ from output]
    exact WriteBuffer.write_of_short bound short
  | putVarint value =>
    obtain rfl := Except.ok.inj output
    exact WriteBuffer.put_of_short bound short
  | putShort value =>
    rw [run, WriteBuffer.putShort, show PackedShort.pack value = _ from output]
    exact WriteBuffer.put_of_short bound short

end

/-- A call is rejected whatever the room, or it fits and adds the bytes that stand for its
argument, or nothing happens. -/
structure AllOrNothing (call : BufferCall) (before : WriteBuffer) (result : Except Failure Unit)
    (after : WriteBuffer) : Prop where
  rejected : call.Invalid → ∃ fault, result = .error (.invalidArgument fault)
  decided : ¬ call.Invalid → ∃ bytes, call.toWrite.Emits bytes ∧ call.output = .ok bytes ∧
    (result = .ok () ↔ ∀ room ∈ before.room, bytes.length ≤ room) ∧
    (result = .ok () → after.content = before.content ++ bytes ∧
      after.room.map (· + bytes.length) = before.room) ∧
    (∀ room ∈ before.room, room < bytes.length →
      result = .error (call.shortage bytes.length room))
  unchanged : result ≠ .ok () → after = before

theorem room_append_add {bytes : List UInt8} {buffer : WriteBuffer}
    (fits : ∀ room ∈ buffer.room, bytes.length ≤ room) :
    (buffer.append bytes).room.map (· + bytes.length) = buffer.room := by
  rw [WriteBuffer.room_append, Option.map_map]
  cases bound : buffer.room with
  | none => rfl
  | some room => exact congrArg some (Nat.sub_add_cancel (fits room bound))

theorem run_cases (buffer : WriteBuffer) (call : BufferCall) :
    (call.Invalid ∧ ∃ fault, call.output = .error (.invalidArgument fault) ∧
      run buffer call = (.error (.invalidArgument fault), buffer)) ∨
    (¬ call.Invalid ∧ ∃ bytes, call.output = .ok bytes ∧ buffer.fits bytes.length ∧
      run buffer call = (.ok (), buffer.append bytes)) ∨
    (¬ call.Invalid ∧ ∃ bytes, call.output = .ok bytes ∧ ∃ room ∈ buffer.room,
      room < bytes.length ∧
      run buffer call = (.error (call.shortage bytes.length room), buffer)) := by
  by_cases invalid : call.Invalid
  · obtain ⟨fault, output⟩ := output_of_invalid invalid
    exact .inl ⟨invalid, fault, output, run_of_rejected output⟩
  · obtain ⟨bytes, output⟩ := output_of_valid invalid
    rcases WriteBuffer.fits_or_short bytes.length buffer with fits | ⟨room, bound, short⟩
    · exact .inr (.inl ⟨invalid, bytes, output, fits, run_of_fits output fits⟩)
    · exact .inr (.inr ⟨invalid, bytes, output, room, bound, short,
        run_of_short output bound short⟩)

theorem run_allOrNothing (buffer : WriteBuffer) (call : BufferCall) :
    AllOrNothing call buffer (run buffer call).1 (run buffer call).2 := by
  rcases run_cases buffer call with ⟨invalid, fault, _, course⟩ |
    ⟨valid, bytes, output, fits, course⟩ | ⟨valid, bytes, output, room, bound, short, course⟩
  · rw [course]
    constructor
    case rejected => exact fun _ => ⟨fault, rfl⟩
    case decided => exact fun valid => absurd invalid valid
    case unchanged => exact fun _ => rfl
  -- The call fits: it succeeds, and a want of room is out of the question.
  · rw [WriteBuffer.fits_iff] at fits
    rw [course]
    constructor
    case rejected => exact fun invalid => absurd invalid valid
    case decided =>
      intro _
      refine ⟨bytes, output_eq_ok_iff.1 output, output, ⟨fun _ => fits, fun _ => rfl⟩, ?_, ?_⟩
      · intro _
        exact ⟨WriteBuffer.content_append bytes buffer, room_append_add fits⟩
      · intro room bound short
        exact absurd (fits room bound) (Nat.not_le.2 short)
    case unchanged => exact fun failed => absurd rfl failed
  -- The room is short: the failure names it, and the buffer has no other.
  · rw [course]
    constructor
    case rejected => exact fun invalid => absurd invalid valid
    case decided =>
      intro _
      refine ⟨bytes, output_eq_ok_iff.1 output, output, ⟨nofun, fun fits => ?_⟩, nofun, ?_⟩
      · exact absurd (fits room bound) (Nat.not_le.2 short)
      · intro other same _
        obtain rfl : room = other := Option.some.inj (bound.symm.trans same)
        rfl
    case unchanged => exact fun _ => rfl

def added (call : BufferCall) : Except Failure Unit → List UInt8
  | .ok () => call.output.toOption.getD []
  | .error _ => []

def delivered (calls : List BufferCall) (steps : List (Except Failure Unit × WriteBuffer)) :
    List UInt8 :=
  (calls.zip steps).flatMap fun (call, result, _) => call.added result

theorem content_run (buffer : WriteBuffer) (call : BufferCall) :
    (run buffer call).2.content = buffer.content ++ call.added (run buffer call).1 := by
  rcases run_cases buffer call with ⟨_, fault, _, course⟩ | ⟨_, bytes, output, _, course⟩ |
    ⟨_, bytes, output, room, _, _, course⟩
  · rw [course]; exact (List.append_nil _).symm
  · rw [course, WriteBuffer.content_append, added, output]
    rfl
  · rw [course]; exact (List.append_nil _).symm

theorem content_runAll (buffer : WriteBuffer) (calls : List BufferCall) :
    (Calls.final buffer (runAll buffer calls)).content =
      buffer.content ++ delivered calls (runAll buffer calls) := by
  induction calls generalizing buffer with
  | nil => exact (List.append_nil _).symm
  | cons call calls ih =>
    have later := ih (run buffer call).2
    simp only [runAll, Calls.run_cons, Calls.final_cons] at later ⊢
    rw [later, content_run, List.append_assoc]
    rfl

/-- Every call of a run does all of its work or none, and at every moment the content is the
one at the start followed by the outputs of the calls that have succeeded. -/
theorem runAll_allOrNothing (buffer : WriteBuffer) :
    (∀ (earlier : List BufferCall) (call : BufferCall) (later : List BufferCall),
      ∃ result after,
        runAll buffer (earlier ++ call :: later) =
          runAll buffer earlier ++ (result, after) :: runAll after later ∧
        AllOrNothing call (Calls.final buffer (runAll buffer earlier)) result after) ∧
    (∀ calls : List BufferCall,
      (Calls.final buffer (runAll buffer calls)).content =
        buffer.content ++ delivered calls (runAll buffer calls)) := by
  refine ⟨fun earlier call later => ?_, content_runAll buffer⟩
  refine ⟨_, _, ?_, run_allOrNothing (Calls.final buffer (runAll buffer earlier)) call⟩
  rw [runAll, Calls.run_append, Calls.run_cons]
  rfl

end BufferCall

end CompactInt
