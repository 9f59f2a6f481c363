/-!
# Ranges

A motion or a text object answers with a range: where it began, where it landed, and how much of the
text between is meant. The two ends may come in either order.
-/

namespace ModalEdit

/-- How much a range takes beyond the characters between its ends. -/
inductive Extent where
  /-- Nothing: the upper end is left out. -/
  | exclusive
  /-- The character at the upper end. -/
  | inclusive
  /-- All of every line it touches. -/
  | linewise
  deriving DecidableEq, Repr

/-- The ends of a range and its extent. -/
structure Range where
  start : Nat
  stop : Nat
  extent : Extent
  deriving DecidableEq, Repr

namespace Range

def exclusive (start stop : Nat) : Range := ⟨start, stop, .exclusive⟩

def inclusive (start stop : Nat) : Range := ⟨start, stop, .inclusive⟩

def linewise (start stop : Nat) : Range := ⟨start, stop, .linewise⟩

end Range

end ModalEdit
