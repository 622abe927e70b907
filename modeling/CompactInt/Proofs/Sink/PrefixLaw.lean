import CompactInt.Proofs.Sink.Acceptance
import Mathlib.Data.List.TakeDrop

/-! Runs of writes to sinks that take bytes piecemeal. A call that fails has put out a front part of
its output, and the next call starts with the first byte of its own. -/

set_option autoImplicit false

namespace CompactInt.WriteCall

section

variable {κ : Type} [ByteSink κ] [PrefixSink κ]

open PrefixSink

def gain (before after : κ) : List UInt8 := (written after).drop (written before).length

def gains (sink : κ) : List (Except Failure Unit × κ) → List (List UInt8)
  | [] => []
  | (_, after) :: later => gain sink after :: gains after later

theorem gain_eq {before after : κ} {part : List UInt8}
    (grown : written after = written before ++ part) : gain before after = part := by
  rw [gain, grown, List.drop_left]

/-- A call gets a front part of the bytes that stand for its argument written, the whole of them
exactly when it succeeds, and a rejected argument does not reach the sink. -/
structure TakesPrefix (call : WriteCall) (before : κ) (result : Except Failure Unit)
    (after : κ) : Prop where
  rejected : call.Invalid → (∃ fault, result = .error (.invalidArgument fault)) ∧ after = before
  accepted : ¬ call.Invalid → ∃ text, call.Emits text ∧ call.output = .ok text ∧
    written after = written before ++ gain before after ∧ gain before after <+: text ∧
    (gain before after = text ↔ result = .ok ())

theorem run_takesPrefix (sink : κ) (call : WriteCall) :
    TakesPrefix call sink (run sink call).1 (run sink call).2 where
  rejected invalid := by
    obtain ⟨fault, output⟩ := output_of_invalid invalid
    rw [run_of_rejected sink output]
    exact ⟨⟨fault, rfl⟩, rfl⟩
  accepted valid := by
    obtain ⟨text, output⟩ := output_of_valid valid
    obtain ⟨count, grown, success⟩ := written_writeBytes text sink
    refine ⟨text, output_eq_ok_iff.1 output, output, ?_⟩
    rw [run_of_accepted sink output, gain_eq grown]
    exact ⟨grown, List.take_prefix count text, (List.take_eq_self_iff text).trans success.symm⟩

theorem written_run (sink : κ) (call : WriteCall) :
    written (run sink call).2 = written sink ++ gain sink (run sink call).2 := by
  have law := run_takesPrefix sink call
  by_cases invalid : call.Invalid
  · rw [(law.rejected invalid).2, gain, List.drop_length, List.append_nil]
  · obtain ⟨_, _, _, grown, _⟩ := law.accepted invalid
    exact grown

theorem written_runAll (sink : κ) (calls : List WriteCall) :
    written (Calls.final sink (runAll sink calls)) =
      written sink ++ (gains sink (runAll sink calls)).flatten := by
  induction calls generalizing sink with
  | nil => exact (List.append_nil _).symm
  | cons call calls ih =>
    have later := ih (run sink call).2
    simp only [runAll, Calls.run_cons, Calls.final_cons] at later ⊢
    rw [later, written_run, List.append_assoc]
    rfl

end

/-- On a writer the failure of a call is the first refusal in the script, and an invalid
argument uses no event. -/
structure OnWriter (call : WriteCall) (before : Writer) (result : Except Failure Unit)
    (after : Writer) : Prop extends TakesPrefix call before result after where
  course (text : List UInt8) : call.output = .ok text →
    ∃ used, Writer.Course text before used result after

structure OnAllotment (call : WriteCall) (before : Allotment) (result : Except Failure Unit)
    (after : Allotment) : Prop extends TakesPrefix call before result after where
  course (text : List UInt8) : call.output = .ok text →
    after = { before with
      room := before.room - text.length
      written := before.written ++ text.take before.room } ∧
    (result = .ok () ∨ before.room < text.length ∧ result = .error (.io before.fault))

theorem run_onWriter (writer : Writer) (call : WriteCall) :
    OnWriter call writer (run writer call).1 (run writer call).2 where
  toTakesPrefix := run_takesPrefix writer call
  course text output := by
    rw [run_of_accepted writer output]
    exact Writer.exists_course text writer

theorem run_onAllotment (sink : Allotment) (call : WriteCall) :
    OnAllotment call sink (run sink call).1 (run sink call).2 where
  toTakesPrefix := run_takesPrefix sink call
  course text output := by
    have course : ByteSink.writeBytes text sink = _ := Allotment.writeEach_eq text sink
    rw [run_of_accepted sink output, course]
    refine ⟨rfl, ?_⟩
    by_cases room : text.length ≤ sink.room
    · exact .inl (if_pos room)
    · exact .inr ⟨Nat.not_le.1 room, if_neg room⟩

/-- Whatever a writer answers and however much room an allotment has, every call of a run puts
out a front part of its output and ends as its sink tells, and these parts in order are what is
written in all. -/
theorem runAll_prefixes :
    (∀ (writer : Writer) (earlier : List WriteCall) (call : WriteCall) (later : List WriteCall),
      ∃ result after,
        runAll writer (earlier ++ call :: later) =
          runAll writer earlier ++ (result, after) :: runAll after later ∧
        OnWriter call (Calls.final writer (runAll writer earlier)) result after) ∧
    (∀ (sink : Allotment) (earlier : List WriteCall) (call : WriteCall) (later : List WriteCall),
      ∃ result after,
        runAll sink (earlier ++ call :: later) =
          runAll sink earlier ++ (result, after) :: runAll after later ∧
        OnAllotment call (Calls.final sink (runAll sink earlier)) result after) ∧
    (∀ (writer : Writer) (calls : List WriteCall),
      (Calls.final writer (runAll writer calls)).written =
        writer.written ++ (gains writer (runAll writer calls)).flatten) ∧
    (∀ (sink : Allotment) (calls : List WriteCall),
      (Calls.final sink (runAll sink calls)).written =
        sink.written ++ (gains sink (runAll sink calls)).flatten) := by
  refine ⟨fun writer earlier call later => ?_, fun sink earlier call later => ?_,
    written_runAll, written_runAll⟩
  · exact ⟨_, _, Calls.run_append_cons writer earlier call later,
      run_onWriter (Calls.final writer (runAll writer earlier)) call⟩
  · exact ⟨_, _, Calls.run_append_cons sink earlier call later,
      run_onAllotment (Calls.final sink (runAll sink earlier)) call⟩

end CompactInt.WriteCall
