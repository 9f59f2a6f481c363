/-!
# Counts

Counts are kept up to a limit. A larger number typed or composed counts as the limit.
-/

namespace ModalEdit.Count

/-- The largest count. -/
def limit : Nat := 4294967295

/-- The count after one more digit is typed. -/
def push (count : Option Nat) (digit : Nat) : Nat :=
  min (count.getD 0 * 10 + digit) limit

/-- The product of two counts. -/
def times (a b : Nat) : Nat :=
  min (a * b) limit

/-- The digit a character stands for. -/
def digit? (c : Char) : Option Nat :=
  if '0' ≤ c ∧ c ≤ '9' then some (c.toNat - '0'.toNat) else none

/-- Saturation and accumulation commute: pushing digits saturates the number they spell. -/
theorem push_min (n d : Nat) : push (some (min n limit)) d = min (n * 10 + d) limit := by
  simp only [push, Option.getD_some]
  omega

end ModalEdit.Count
