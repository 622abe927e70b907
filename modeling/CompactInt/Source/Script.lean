import CompactInt.Source.Reader

/-! Readers that follow a script. An empty chunk is an end for one request, and behind the last
event there is nothing but ends. -/

set_option autoImplicit false

namespace CompactInt

inductive ScriptEvent where
  | chunk (bytes : List UInt8)
  | fault (error : IoError)
  | notReady
  deriving DecidableEq, Repr

abbrev Script := List ScriptEvent

namespace Script

def advance (limit : Nat) : Script → Delivery × Script
  | [] => (.data [], [])
  | .chunk bytes :: rest =>
    (.data (bytes.take limit),
      if bytes.drop limit = [] then rest else .chunk (bytes.drop limit) :: rest)
  | .fault error :: rest => (.fault error, rest)
  | .notReady :: rest => (.notReady, rest)

def awaitReady (script : Script) : Script := script.dropWhile (· == .notReady)

def size : Script → Nat
  | [] => 0
  | .chunk bytes :: rest => bytes.length + size rest
  | _ :: rest => size rest

def eventItems : ScriptEvent → List Item
  | .chunk [] => [.stop]
  | .chunk bytes => bytes.map .byte
  | .fault error => if error.isInterruption then [] else [.fault error]
  | .notReady => []

/-- What a script amounts to for someone who reads byte by byte. -/
def items (script : Script) : List Item := script.flatMap eventItems

theorem size_advance (limit : Nat) (script : Script) :
    size (advance limit script).2 + (advance limit script).1.size = size script := by
  match script with
  | [] => rfl
  | .chunk bytes :: rest =>
    simp only [advance, size, Delivery.size]
    split
    · next spent => rw [List.length_take, Nat.min_eq_right (List.drop_eq_nil_iff.1 spent)]; omega
    · simp only [size, List.length_take, List.length_drop]; omega
  | .fault error :: rest => rfl
  | .notReady :: rest => rfl

theorem length_advance (limit : Nat) (script : Script)
    (empty : ∀ bytes, (advance limit script).1 ≠ .data bytes) :
    (advance limit script).2.length < script.length := by
  match script with
  | [] => exact absurd rfl (empty [])
  | .chunk bytes :: rest => exact absurd rfl (empty (bytes.take limit))
  | .fault error :: rest => exact Nat.lt_add_one rest.length
  | .notReady :: rest => exact Nat.lt_add_one rest.length

theorem size_awaitReady (script : Script) : size (awaitReady script) = size script := by
  induction script with
  | nil => rfl
  | cons event rest ih =>
    cases event with
    | notReady => exact ih
    | _ => rfl

theorem length_awaitReady_le (script : Script) : (awaitReady script).length ≤ script.length :=
  (List.dropWhile_suffix _).length_le

end Script

/-- A reader whose requests last until the delivering end is ready. -/
structure Blocking where
  script : Script
  deriving DecidableEq, Repr

def Blocking.request (limit : Nat) (reader : Blocking) : Delivery × Blocking :=
  let (delivery, rest) := reader.script.awaitReady.advance limit
  (delivery, ⟨rest⟩)

instance : Reader Blocking where
  request := Blocking.request
  left reader := reader.script.size
  delays reader := reader.script.length
  left_request limit reader := by
    simp only [Blocking.request, Script.size_advance, Script.size_awaitReady]
  delays_request limit reader empty :=
    Nat.lt_of_lt_of_le (Script.length_advance limit _ empty)
      (Script.length_awaitReady_le reader.script)

/-- A reader whose requests return at once, also with nothing. -/
structure Polled where
  script : Script
  deriving DecidableEq, Repr

def Polled.request (limit : Nat) (reader : Polled) : Delivery × Polled :=
  let (delivery, rest) := reader.script.advance limit
  (delivery, ⟨rest⟩)

instance : Reader Polled where
  request := Polled.request
  left reader := reader.script.size
  delays reader := reader.script.length
  left_request limit reader := Script.size_advance limit reader.script
  delays_request limit reader empty := Script.length_advance limit reader.script empty

end CompactInt
