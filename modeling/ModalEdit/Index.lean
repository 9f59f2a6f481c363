/-!
# Machine indices

Hosts count characters with 64-bit words. The library computes with unbounded numbers; the
operations here say when a computation on words would leave their range. `Index.add`, `Index.sub`
and `Index.mul` are of indices, `Index.move` is of an index by a signed distance.
-/

namespace ModalEdit.Index

/-- How a computation leaves the range. -/
inductive Fault where
  | overflow
  | underflow
  deriving DecidableEq, Repr

/-- The number of indices. -/
def bound : Nat := 18446744073709551616

/-- The sum of two indices. -/
def add (a b : Nat) : Except Fault Nat :=
  if a + b < bound then .ok (a + b) else .error .overflow

/-- The difference of two indices. -/
def sub (a b : Nat) : Except Fault Nat :=
  if b ≤ a then .ok (a - b) else .error .underflow

/-- The product of two indices. -/
def mul (a b : Nat) : Except Fault Nat :=
  if a * b < bound then .ok (a * b) else .error .overflow

/-- An index moved by a signed distance, as a signed word. -/
def move (a : Nat) (distance : Int) : Except Fault Int :=
  let moved := (a : Int) + distance
  if moved < -(bound / 2 : Nat) then .error .underflow
  else if (bound / 2 : Nat) ≤ moved then .error .overflow
  else .ok moved

theorem add_eq_ok {a b : Nat} (h : a + b < bound) : add a b = .ok (a + b) := by
  simp [add, h]

theorem sub_eq_ok {a b : Nat} (h : b ≤ a) : sub a b = .ok (a - b) := by
  simp [sub, h]

theorem mul_eq_ok {a b : Nat} (h : a * b < bound) : mul a b = .ok (a * b) := by
  simp [mul, h]

theorem move_eq_ok {a : Nat} {distance : Int} (hlow : -(bound / 2 : Nat) ≤ (a : Int) + distance)
    (hhigh : (a : Int) + distance < (bound / 2 : Nat)) : move a distance = .ok (a + distance) := by
  simp only [move]
  rw [if_neg (Int.not_lt.2 hlow), if_neg (Int.not_le.2 hhigh)]

/-- A computation goes on from a result in the range. -/
@[simp] theorem ok_bind {α β : Type} (a : α) (f : α → Except Fault β) :
    (Except.ok a >>= f) = f a := rfl

@[simp] theorem pure_eq_ok {α : Type} (a : α) : (pure a : Except Fault α) = .ok a := rfl

end ModalEdit.Index
