import CompactInt.Sink.Basic

/-! Writers that may take only a part of what they are offered. The rest is offered again after
every partial acceptance and every interruption. -/

set_option autoImplicit false

namespace CompactInt

inductive WriteEvent where
  | accept (count : Nat)
  | fault (error : IoError)
  deriving DecidableEq, Repr

/-- Behind the last event of its script a writer takes everything. -/
structure Writer where
  script : List WriteEvent
  written : List UInt8 := []
  deriving DecidableEq, Repr

namespace Writer

def blank : Writer := { script := [] }

/-- Drops what was written; later calls go on as before. -/
def clear (writer : Writer) : Writer := { writer with written := [] }

def nothingAccepted : IoError := ⟨.writeZero, "failed to write whole buffer"⟩

def offer (bytes : List UInt8) (writer : Writer) : Except IoError Nat × Writer :=
  match writer.script with
  | [] => (.ok bytes.length, { writer with written := writer.written ++ bytes })
  | .accept count :: rest =>
    (.ok (min count bytes.length), ⟨rest, writer.written ++ bytes.take count⟩)
  | .fault error :: rest => (.error error, ⟨rest, writer.written⟩)

theorem offer_shrinks {bytes : List UInt8} {writer after : Writer} {count : Nat}
    (someLeft : bytes ≠ []) (taken : writer.offer bytes = (.ok count, after)) :
    after.script.length + (bytes.drop count).length < writer.script.length + bytes.length := by
  have positive := List.length_pos_iff.2 someLeft
  simp only [offer] at taken
  split at taken
  · next none =>
    obtain ⟨same, rfl⟩ := Prod.mk.inj taken
    obtain rfl := Except.ok.inj same
    simp only [none, List.drop_length, List.length_nil]
    omega
  · next head rest given =>
    obtain ⟨_, rfl⟩ := Prod.mk.inj taken
    simp only [given, List.length_cons, List.length_drop]
    omega
  · cases taken

theorem offer_error_shrinks {bytes : List UInt8} {writer after : Writer} {error : IoError}
    (failed : writer.offer bytes = (.error error, after)) :
    after.script.length < writer.script.length := by
  simp only [offer] at failed
  split at failed
  · cases failed
  · cases failed
  · next given =>
    obtain ⟨_, rfl⟩ := Prod.mk.inj failed
    simp only [given, List.length_cons, Nat.lt_add_one]

def writeAll (bytes : List UInt8) (writer : Writer) : Except Failure Unit × Writer :=
  if _done : bytes = [] then (.ok (), writer)
  else
    match _offer : writer.offer bytes with
    | (.error error, after) =>
      if error.isInterruption then writeAll bytes after else (.error (.io error), after)
    | (.ok 0, after) => (.error (.io nothingAccepted), after)
    | (.ok (count + 1), after) => writeAll (bytes.drop (count + 1)) after
termination_by writer.script.length + bytes.length
decreasing_by
  · exact Nat.add_lt_add_right (offer_error_shrinks ‹_›) _
  · exact offer_shrinks ‹_› ‹_›

end Writer

instance : ByteSink Writer where
  writeByte byte := Writer.writeAll [byte]
  writeBytes := Writer.writeAll

end CompactInt
