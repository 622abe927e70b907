import CompactInt.Source.Basic

/-! Readers deliver bytes in pieces; read one byte at a time, every reader is a source. A delivery
of no bytes is an end. -/

set_option autoImplicit false

namespace CompactInt

inductive Delivery where
  | data (bytes : List UInt8)
  | fault (error : IoError)
  | notReady
  deriving DecidableEq, Repr

def Delivery.size : Delivery → Nat
  | data bytes => bytes.length
  | _ => 0

class Reader (ρ : Type) where
  request : Nat → ρ → Delivery × ρ
  left : ρ → Nat
  /-- A bound on the requests that can come to nothing from here on. -/
  delays : ρ → Nat
  left_request (limit : Nat) (reader : ρ) :
    left (request limit reader).2 + (request limit reader).1.size = left reader
  delays_request (limit : Nat) (reader : ρ) :
    (∀ bytes, (request limit reader).1 ≠ .data bytes) →
      delays (request limit reader).2 < delays reader

namespace Reader

variable {ρ : Type} [Reader ρ]

def nextByte (reader : ρ) : Except Failure (Option UInt8) × ρ :=
  match _delivery : request 1 reader with
  | (.data [], rest) => (.ok none, rest)
  | (.data (byte :: _), rest) => (.ok (some byte), rest)
  | (.fault error, rest) =>
    if error.isInterruption then nextByte rest else (.error (.io error), rest)
  | (.notReady, rest) => nextByte rest
termination_by delays reader
decreasing_by
  -- A request is repeated only if it brought no data, and then it used up a delay.
  all_goals
    have fewer := delays_request 1 reader
    rw [‹request 1 reader = _›] at fewer
    exact fewer (fun _ => nofun)

theorem left_nextByte_le (reader : ρ) : left (nextByte reader).2 ≤ left reader := by
  fun_induction nextByte reader with
  | case1 reader rest delivery | case2 reader byte tail rest delivery
  | case4 reader error rest delivery kept =>
    have := left_request 1 reader
    rw [delivery] at this
    exact Nat.le.intro this
  | case3 reader error rest delivery again ih | case5 reader rest delivery ih =>
    have := left_request 1 reader
    rw [delivery] at this
    exact Nat.le_trans ih (Nat.le.intro this)

theorem left_nextByte_lt (reader : ρ) {byte : UInt8}
    (given : (nextByte reader).1 = .ok (some byte)) : left (nextByte reader).2 < left reader := by
  fun_induction nextByte reader with
  | case1 reader rest delivery => cases given
  | case2 reader byte tail rest delivery =>
    have := left_request 1 reader
    rw [delivery] at this
    simp only [Delivery.size, List.length_cons] at this
    show left rest < left reader
    omega
  | case3 reader error rest delivery again ih | case5 reader rest delivery ih =>
    have := left_request 1 reader
    rw [delivery] at this
    exact Nat.lt_of_lt_of_le (ih given) (Nat.le.intro this)
  | case4 reader error rest delivery kept => cases given

instance : ByteSource ρ where
  next := nextByte
  left := left
  left_next_le := left_nextByte_le
  left_next_lt reader _ := left_nextByte_lt reader

end Reader

end CompactInt
