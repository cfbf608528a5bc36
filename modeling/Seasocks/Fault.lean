import Seasocks.Bytes

/-!
# Undefined behaviour

C++ gives no meaning to a read past the end of an array, to a null dereference or to what follows a
failed assertion. The model stops there: a program that reaches one of these ends in a `Fault`.
-/

namespace Seasocks

inductive Fault where
  /-- A read or a write outside the bytes it may touch. -/
  | outOfRange
  /-- A subtraction of a larger `size_t` from a smaller one. -/
  | underflow
  | assertion
  /-- A use of a pointer that is null or whose object is gone. -/
  | badPointer
deriving DecidableEq, Repr

/-- The checked meaning of `memory[ptr]`. -/
def byteAt (memory : Bytes) (ptr : Nat) : Except Fault UInt8 :=
  match memory[ptr]? with
  | some byte => .ok byte
  | none => .error .outOfRange

/-- The checked meaning of `a - b` on `size_t`. -/
def subtract (a b : Nat) : Except Fault Nat :=
  if b ≤ a then .ok (a - b) else .error .underflow

theorem byteAt_of_lt {memory : Bytes} {ptr : Nat} (h : ptr < memory.length) :
    byteAt memory ptr = .ok memory[ptr] := by
  simp [byteAt, h]

theorem byteAt_of_ge {memory : Bytes} {ptr : Nat} (h : memory.length ≤ ptr) :
    byteAt memory ptr = .error .outOfRange := by
  simp [byteAt, h]

/-- A computation that returns has returned from its first part. -/
theorem ok_of_bind_eq_ok {ε α β : Type} {x : Except ε α} {f : α → Except ε β} {b : β}
    (h : (x >>= f) = .ok b) : ∃ a, x = .ok a ∧ f a = .ok b := by
  cases x with
  | error e => cases h
  | ok a => exact ⟨a, rfl, h⟩

end Seasocks
