import CompactInt.Source.Reader

/-! Reading ahead. A request is served from what is held; the reader behind is asked only when
nothing is held, and directly for a request that is at least as large as the capacity. -/

set_option autoImplicit false

namespace CompactInt

structure ReadAhead (ρ : Type) where
  inner : ρ
  capacity : Nat
  held : List UInt8 := []
  deriving Repr

namespace ReadAhead

def ofReader? {ρ : Type} (capacity : Nat) (inner : ρ) : Option (ReadAhead ρ) :=
  if 0 < capacity ∧ capacity ≤ Memory.maxBytes then some { inner, capacity } else none

variable {ρ : Type} [Reader ρ]

def request (limit : Nat) (reader : ReadAhead ρ) : Delivery × ReadAhead ρ :=
  if reader.held ≠ [] then
    (.data (reader.held.take limit), { reader with held := reader.held.drop limit })
  else if reader.capacity ≤ limit then
    let (delivery, inner) := Reader.request limit reader.inner
    (delivery, { reader with inner })
  else
    match Reader.request reader.capacity reader.inner with
    | (.data bytes, inner) =>
      (.data (bytes.take limit), { reader with inner, held := bytes.drop limit })
    | (delivery, inner) => (delivery, { reader with inner })

def left (reader : ReadAhead ρ) : Nat := reader.held.length + Reader.left reader.inner

theorem left_request (limit : Nat) (reader : ReadAhead ρ) :
    left (request limit reader).2 + (request limit reader).1.size = left reader := by
  simp only [request]
  split
  · simp only [left, Delivery.size, List.length_drop, List.length_take]
    omega
  · next none =>
    split
    · have := Reader.left_request limit reader.inner
      simp only [left]
      omega
    · have := Reader.left_request reader.capacity reader.inner
      split
      · next bytes inner given =>
        rw [given] at this
        simp only [Delivery.size] at this
        simp only [left, Delivery.size, List.length_drop, List.length_take]
        simp only [ne_eq, Decidable.not_not] at none
        simp only [none, List.length_nil]
        omega
      · next delivery inner other given =>
        rw [given] at this
        simp only [left] at this ⊢
        omega

theorem delays_request (limit : Nat) (reader : ReadAhead ρ)
    (empty : ∀ bytes, (request limit reader).1 ≠ .data bytes) :
    Reader.delays (request limit reader).2.inner < Reader.delays reader.inner := by
  simp only [request] at empty ⊢
  split at empty
  · exact absurd rfl (empty _)
  · next none =>
    simp only [none, ↓reduceIte]
    split at empty
    · next direct =>
      simp only [direct, ↓reduceIte]
      exact Reader.delays_request limit reader.inner empty
    · next ahead =>
      simp only [ahead, ↓reduceIte]
      split at empty
      · exact absurd rfl (empty _)
      · next delivery inner other given =>
        have fewer := Reader.delays_request reader.capacity reader.inner
        simp only [given] at fewer ⊢
        exact fewer empty

end ReadAhead

instance {ρ : Type} [Reader ρ] : Reader (ReadAhead ρ) where
  request := ReadAhead.request
  left := ReadAhead.left
  delays reader := Reader.delays reader.inner
  left_request := ReadAhead.left_request
  delays_request := ReadAhead.delays_request

end CompactInt
