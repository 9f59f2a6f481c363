import ModalEdit.Selection

/-!
# Modes

The mode decides what a key means.
-/

namespace ModalEdit

/-- The mode of a session. -/
inductive Mode where
  /-- Keys move and command. -/
  | normal
  /-- Keys are typed into the text. -/
  | insert
  /-- Motions extend a selection. -/
  | visual (kind : VisualKind)
  /-- An operator waits for its motion or text object. -/
  | operatorPending
  /-- Labels are shown and one of them is awaited. -/
  | jump
  deriving DecidableEq, Repr

namespace Mode

/-- The name shown to the user. -/
def name : Mode → String
  | normal => "NORMAL"
  | insert => "INSERT"
  | visual .charwise => "VISUAL"
  | visual .linewise => "VISUAL LINE"
  | operatorPending => "PENDING"
  | jump => "JUMP"

/-- One of the two visual modes. -/
def isVisual : Mode → Bool
  | visual _ => true
  | _ => false

end Mode

end ModalEdit
