import CompactInt.Proofs.Sink.Output
import CompactInt.Sink.Writer

/-! What sinks that take bytes piecemeal have taken: a front part of what was offered, and the whole
of it exactly when the write succeeds. -/

set_option autoImplicit false

namespace CompactInt

/-- A sink that takes a front part of every text, and all of it when the write succeeds. -/
class PrefixSink (κ : Type) [ByteSink κ] where
  written : κ → List UInt8
  writeByte_eq (byte : UInt8) (sink : κ) :
    ByteSink.writeByte byte sink = ByteSink.writeBytes [byte] sink
  written_writeBytes (bytes : List UInt8) (sink : κ) : ∃ count,
    written (ByteSink.writeBytes bytes sink).2 = written sink ++ bytes.take count ∧
      ((ByteSink.writeBytes bytes sink).1 = .ok () ↔ bytes.length ≤ count)

variable {κ : Type} [ByteSink κ] [PrefixSink κ]

theorem PrefixSink.written_of_success {bytes : List UInt8} {sink : κ}
    (success : (ByteSink.writeBytes bytes sink).1 = .ok ()) :
    written (ByteSink.writeBytes bytes sink).2 = written sink ++ bytes := by
  obtain ⟨count, taken, whole⟩ := written_writeBytes bytes sink
  rw [taken, List.take_of_length_le (whole.1 success)]

namespace WriteCall

variable {call : WriteCall} (sink : κ)

theorem run_of_rejected {failure : Failure} (output : call.output = .error failure) :
    run sink call = (.error failure, sink) := by
  rw [run_eq PrefixSink.writeByte_eq, output]

theorem run_of_accepted {text : List UInt8} (output : call.output = .ok text) :
    run sink call = ByteSink.writeBytes text sink := by
  rw [run_eq PrefixSink.writeByte_eq, output]

end WriteCall

namespace WriteEvent

def Willing : WriteEvent → Prop
  | accept count => 0 < count
  | fault error => error.isInterruption

def refusal? : WriteEvent → Option IoError
  | accept 0 => some ⟨.writeZero, "failed to write whole buffer"⟩
  | accept (_ + 1) => none
  | fault error => if error.isInterruption then none else some error

def allowance : WriteEvent → Nat
  | accept count => count
  | fault _ => 0

def total : List WriteEvent → Nat
  | [] => 0
  | event :: events => event.allowance + total events

theorem total_cons (event : WriteEvent) (events : List WriteEvent) :
    total (event :: events) = event.allowance + total events := rfl

theorem willing_iff {event : WriteEvent} : event.Willing ↔ event.refusal? = none := by
  match event with
  | accept 0 => exact ⟨nofun, nofun⟩
  | accept (_ + 1) => exact ⟨fun _ => rfl, fun _ => Nat.succ_pos _⟩
  | fault error => simp [Willing, refusal?]

end WriteEvent

namespace Writer

/-! ## One event after the other -/

theorem offer_accept (bytes : List UInt8) (count : Nat) (rest : List WriteEvent)
    (written : List UInt8) :
    offer bytes ⟨.accept count :: rest, written⟩ =
      (.ok (min count bytes.length), ⟨rest, written ++ bytes.take count⟩) := rfl

theorem offer_fault (bytes : List UInt8) (error : IoError) (rest : List WriteEvent)
    (written : List UInt8) :
    offer bytes ⟨.fault error :: rest, written⟩ = (.error error, ⟨rest, written⟩) := rfl

theorem writeAll_nil (writer : Writer) : writeAll [] writer = (.ok (), writer) := by
  rw [writeAll, dif_pos rfl]

section

variable {bytes : List UInt8} (someLeft : bytes ≠ [])

include someLeft

theorem writeAll_offer (writer : Writer) :
    writeAll bytes writer =
      match writer.offer bytes with
      | (.error error, after) =>
        if error.isInterruption then writeAll bytes after else (.error (.io error), after)
      | (.ok 0, after) => (.error (.io nothingAccepted), after)
      | (.ok (count + 1), after) => writeAll (bytes.drop (count + 1)) after := by
  rw [writeAll, dif_neg someLeft]
  split
  all_goals
    next given => rw [given]

variable (rest : List WriteEvent) (written : List UInt8)

theorem writeAll_willing {event : WriteEvent} (willing : event.Willing) :
    writeAll bytes ⟨event :: rest, written⟩ =
      writeAll (bytes.drop event.allowance) ⟨rest, written ++ bytes.take event.allowance⟩ := by
  rw [writeAll_offer someLeft]
  cases event with
  | accept count =>
    have positive : 0 < min count bytes.length :=
      Nat.lt_min.2 ⟨willing, List.length_pos_iff.2 someLeft⟩
    obtain ⟨taken, same⟩ := Nat.exists_eq_add_one.2 positive
    -- An allowance beyond the last byte leaves nothing, like one that is used up.
    have left : bytes.drop (taken + 1) = bytes.drop count := by
      rw [← same, ← List.drop_eq_drop_min]
    rw [offer_accept, same, WriteEvent.allowance, ← left]
  | fault error =>
    rw [offer_fault, WriteEvent.allowance, List.take_zero, List.append_nil, List.drop_zero]
    exact if_pos willing

theorem writeAll_refused {event : WriteEvent} {error : IoError}
    (refused : event.refusal? = some error) :
    writeAll bytes ⟨event :: rest, written⟩ = (.error (.io error), ⟨rest, written⟩) := by
  rw [writeAll_offer someLeft]
  match event with
  | .accept 0 =>
    obtain rfl : nothingAccepted = error := Option.some.inj refused
    rw [offer_accept, Nat.zero_min, List.take_zero, List.append_nil]
  | .fault fault =>
    rw [WriteEvent.refusal?] at refused
    split at refused
    · cases refused
    · next final =>
      obtain rfl := Option.some.inj refused
      rw [offer_fault]
      exact if_neg final

end

/-- Behind its script a writer is a buffer that grows without bound. -/
theorem writeAll_unscripted (bytes written : List UInt8) :
    writeAll bytes ⟨[], written⟩ = (.ok (), ⟨[], written ++ bytes⟩) := by
  by_cases someLeft : bytes = []
  · rw [someLeft, writeAll_nil, List.append_nil]
  · obtain ⟨count, length⟩ := Nat.exists_eq_add_one.2 (List.length_pos_iff.2 someLeft)
    rw [writeAll_offer someLeft, offer, length]
    dsimp only
    rw [← length, List.drop_length, writeAll_nil]

theorem writeVarint_clear (value : UInt32) (stale : List UInt8) :
    ByteSink.writeVarint value (clear ⟨[], stale⟩) = (.ok (), ⟨[], Varint.encode value⟩) :=
  writeAll_unscripted (Varint.encode value) []

theorem writeShort_blank (value : UInt16) :
    ByteSink.writeShort value blank =
      match PackedShort.pack value with
      | .ok bytes => (.ok (), ⟨[], bytes⟩)
      | .error failure => (.error failure, blank) := by
  rw [ByteSink.writeShort]
  cases PackedShort.pack value with
  | ok bytes => exact writeAll_unscripted bytes []
  | error failure => rfl

/-! ## The whole write -/

/-- The course of a write on the events that it used. Each of them came while something was
left, and each let the write go on, up to the one that ended it. -/
structure Course (text : List UInt8) (before : Writer) (used : List WriteEvent)
    (result : Except Failure Unit) (after : Writer) : Prop where
  script_eq : before.script = used ++ after.script
  inNeed (lead : List WriteEvent) (event : WriteEvent) (rest : List WriteEvent) :
    used = lead ++ event :: rest → WriteEvent.total lead < text.length
  complete : result = .ok () →
    (∀ event ∈ used, event.Willing) ∧ after.written = before.written ++ text ∧
      (text.length ≤ WriteEvent.total used ∨ after.script = [])
  refused (failure : Failure) : result = .error failure →
    ∃ lead event error, used = lead ++ [event] ∧ (∀ event ∈ lead, event.Willing) ∧
      event.refusal? = some error ∧ failure = .io error ∧
      after.written = before.written ++ text.take (WriteEvent.total lead)

theorem course_nothing (writer : Writer) : Course [] writer [] (.ok ()) writer where
  script_eq := rfl
  inNeed lead _ _ shape := absurd shape.symm (List.append_ne_nil_of_right_ne_nil lead nofun)
  complete _ := ⟨nofun, (List.append_nil _).symm, .inl (Nat.zero_le _)⟩
  refused _ := nofun

theorem course_unscripted (text written : List UInt8) :
    Course text ⟨[], written⟩ [] (.ok ()) ⟨[], written ++ text⟩ where
  script_eq := rfl
  inNeed lead _ _ shape := absurd shape.symm (List.append_ne_nil_of_right_ne_nil lead nofun)
  complete _ := ⟨nofun, rfl, .inr rfl⟩
  refused _ := nofun

section

variable {text written : List UInt8} {event : WriteEvent} {rest : List WriteEvent}

theorem course_refused (someLeft : text ≠ []) {error : IoError}
    (refused : event.refusal? = some error) :
    Course text ⟨event :: rest, written⟩ [event] (.error (.io error)) ⟨rest, written⟩ where
  script_eq := rfl
  inNeed lead _ _ shape := by
    -- The only event stands in front, so nothing was let through before it.
    obtain rfl : lead = [] := by
      cases lead with
      | nil => rfl
      | cons _ lead => simp at shape
    exact List.length_pos_iff.2 someLeft
  complete := nofun
  refused _ same :=
    ⟨[], event, error, rfl, nofun, refused, (Except.error.inj same).symm, (List.append_nil _).symm⟩

theorem Course.willing_cons (someLeft : text ≠ []) (willing : event.Willing)
    {used : List WriteEvent} {result : Except Failure Unit} {after : Writer}
    (later : Course (text.drop event.allowance) ⟨rest, written ++ text.take event.allowance⟩ used
      result after) : Course text ⟨event :: rest, written⟩ (event :: used) result after where
  script_eq := congrArg (event :: ·) later.script_eq
  inNeed lead last back shape := by
    cases lead with
    | nil => exact List.length_pos_iff.2 someLeft
    | cons first lead =>
      have needed := later.inNeed lead last back (List.cons.inj shape).2
      obtain rfl := (List.cons.inj shape).1
      rw [List.length_drop] at needed
      rw [WriteEvent.total_cons]
      omega
  complete success := by
    obtain ⟨allWilling, taken, enough⟩ := later.complete success
    refine ⟨List.forall_mem_cons.2 ⟨willing, allWilling⟩, ?_, enough.imp_left fun enough => ?_⟩
    · rw [taken, List.append_assoc, List.take_append_drop]
    · rw [List.length_drop] at enough
      rw [WriteEvent.total_cons]
      omega
  refused failure failed := by
    obtain ⟨lead, last, error, shape, allWilling, refused, same, taken⟩ :=
      later.refused failure failed
    refine ⟨event :: lead, last, error, congrArg (event :: ·) shape,
      List.forall_mem_cons.2 ⟨willing, allWilling⟩, refused, same, ?_⟩
    rw [taken, List.append_assoc, ← List.take_add, WriteEvent.total_cons]

end

theorem exists_course (text : List UInt8) (writer : Writer) :
    ∃ used, Course text writer used (writeAll text writer).1 (writeAll text writer).2 := by
  obtain ⟨script, written⟩ := writer
  induction script generalizing text written with
  | nil =>
    rw [writeAll_unscripted]
    exact ⟨[], course_unscripted text written⟩
  | cons event rest ih =>
    by_cases someLeft : text = []
    · subst someLeft; rw [writeAll_nil]; exact ⟨[], course_nothing _⟩
    cases refused : event.refusal? with
    | none =>
      have willing := WriteEvent.willing_iff.2 refused
      obtain ⟨used, later⟩ := ih (text.drop event.allowance) (written ++ text.take event.allowance)
      rw [writeAll_willing someLeft rest written willing]
      exact ⟨event :: used, later.willing_cons someLeft willing⟩
    | some error =>
      rw [writeAll_refused someLeft rest written refused]
      exact ⟨[event], course_refused someLeft refused⟩

theorem written_writeAll (bytes : List UInt8) (writer : Writer) :
    ∃ count, (writeAll bytes writer).2.written = writer.written ++ bytes.take count ∧
      ((writeAll bytes writer).1 = .ok () ↔ bytes.length ≤ count) := by
  obtain ⟨used, course⟩ := exists_course bytes writer
  cases result : (writeAll bytes writer).1 with
  | ok =>
    obtain ⟨_, taken, _⟩ := course.complete result
    exact ⟨bytes.length, by rw [taken, List.take_length], fun _ => Nat.le_refl _, fun _ => rfl⟩
  | error failure =>
    obtain ⟨lead, event, error, shape, _, _, _, taken⟩ := course.refused failure result
    have short := course.inNeed lead event [] shape
    exact ⟨_, taken, nofun, fun enough => absurd enough (Nat.not_le.2 short)⟩

theorem writeAll_of_willing (bytes : List UInt8) (writer : Writer)
    (willing : ∀ event ∈ writer.script, event.Willing) :
    (writeAll bytes writer).1 = .ok () ∧
      ∀ event ∈ (writeAll bytes writer).2.script, event.Willing := by
  obtain ⟨used, course⟩ := exists_course bytes writer
  rw [course.script_eq] at willing
  refine ⟨?_, fun event member => willing event (List.mem_append_right _ member)⟩
  cases result : (writeAll bytes writer).1 with
  | ok => rfl
  | error failure =>
    obtain ⟨lead, event, error, rfl, _, refused, _, _⟩ := course.refused failure result
    have member : event ∈ (lead ++ [event]) ++ (writeAll bytes writer).2.script := by simp
    rw [WriteEvent.willing_iff.1 (willing event member)] at refused
    cases refused

end Writer

instance : PrefixSink Writer where
  written := Writer.written
  writeByte_eq _ _ := rfl
  written_writeBytes := Writer.written_writeAll

namespace Allotment

theorem writeEach_eq (bytes : List UInt8) (sink : Allotment) :
    writeEach writeByte bytes sink =
      (if bytes.length ≤ sink.room then .ok () else .error (.io sink.fault),
        { sink with
          room := sink.room - bytes.length
          written := sink.written ++ bytes.take sink.room }) := by
  induction bytes generalizing sink with
  | nil => simp [writeEach]
  | cons byte rest ih =>
    rcases sink with ⟨_ | room, fault, written⟩
    · simp [writeEach, writeByte]
    · rw [writeEach, writeByte]
      dsimp only
      rw [ih]
      simp

theorem written_writeEach (bytes : List UInt8) (sink : Allotment) : ∃ count,
    (writeEach writeByte bytes sink).2.written = sink.written ++ bytes.take count ∧
      ((writeEach writeByte bytes sink).1 = .ok () ↔ bytes.length ≤ count) := by
  refine ⟨sink.room, ?_, ?_⟩
  · rw [writeEach_eq]
  · rw [writeEach_eq]
    exact ite_eq_left_iff.trans (by simp)

end Allotment

instance : PrefixSink Allotment where
  written := Allotment.written
  writeByte_eq byte sink := by
    rcases sink with ⟨_ | room, fault, written⟩ <;> rfl
  written_writeBytes := Allotment.written_writeEach

end CompactInt
