import ModalEdit.Text.Position

/-!
# Edits and changes

An edit asks for a replacement by index. A change reports a replacement that was made, with the
positions it had in the text just before.
-/

namespace ModalEdit

/-- A request to replace the characters `start..stop`. -/
structure Edit where
  start : Nat
  stop : Nat
  text : Text
  deriving DecidableEq, Repr

/-- A replacement that was made. Positions are those of the text before it. -/
structure Change where
  start : Position
  stop : Position
  text : Text
  deriving DecidableEq, Repr

namespace Edit

/-- Insert a text at an index. -/
def insertion (i : Nat) (text : Text) : Edit := ⟨i, i, text⟩

/-- Remove the characters `start..stop`. -/
def deletion (start stop : Nat) : Edit := ⟨start, stop, []⟩

/-- The text after the edit; ends outside the text are clamped. -/
def apply (e : Edit) (t : Text) : Text :=
  t.splice e.start e.stop e.text

/-- The change an edit makes to a text. -/
def change (e : Edit) (t : Text) : Change :=
  ⟨.ofIndex t e.start, .ofIndex t (max e.start e.stop), e.text⟩

/-- The ends are ordered and in a text of some length. -/
def Within (e : Edit) (length : Nat) : Prop :=
  e.start ≤ e.stop ∧ e.stop ≤ length

end Edit

end ModalEdit
