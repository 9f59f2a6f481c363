import ModalEdit.Text.Lines

/-!
# Selections

A selection is half-open: it holds the characters between its ends. The anchor stays put while the
active end follows the cursor, and a selection with equal ends is a plain cursor.
-/

namespace ModalEdit

/-- The two ends of a selection, in either order. -/
structure Selection where
  anchor : Nat
  active : Nat
  deriving DecidableEq, Repr, Inhabited

namespace Selection

/-- The empty selection at an index. -/
def cursor (i : Nat) : Selection := ⟨i, i⟩

/-- The selection is a plain cursor. -/
def isEmpty (s : Selection) : Bool := s.anchor == s.active

/-- The lower end. -/
def start (s : Selection) : Nat := min s.anchor s.active

/-- The upper end. -/
def stop (s : Selection) : Nat := max s.anchor s.active

/-- Both ends lie in a text of some length. -/
def Within (s : Selection) (length : Nat) : Prop :=
  s.anchor ≤ length ∧ s.active ≤ length

theorem start_le_stop (s : Selection) : s.start ≤ s.stop := by
  simp only [start, stop]; omega

end Selection

/-- Whether a selection is of characters or of whole lines. -/
inductive VisualKind where
  | charwise
  | linewise
  deriving DecidableEq, Repr

/-- The ends of a visual selection. Both lie on characters and belong to it. -/
structure Endpoints where
  anchor : Nat
  cursor : Nat
  deriving DecidableEq, Repr

/-- The half-open selection that shows a visual selection: from end to end of the characters, or of
the lines. -/
def Endpoints.selection (e : Endpoints) (kind : VisualKind) (t : Text) : Selection :=
  match kind with
  | .charwise =>
    if e.anchor ≤ e.cursor then ⟨e.anchor, min (e.cursor + 1) t.length⟩
    else ⟨min (e.anchor + 1) t.length, e.cursor⟩
  | .linewise =>
    let anchorLine := t.lineOf e.anchor
    let cursorLine := t.lineOf e.cursor
    if anchorLine ≤ cursorLine then ⟨t.lineStart anchorLine, t.lineEnd cursorLine⟩
    else ⟨t.lineEnd anchorLine, t.lineStart cursorLine⟩

/-- The visual selection of the characters in a non-empty selection. -/
def Selection.endpoints (s : Selection) : Endpoints :=
  if s.anchor < s.active then ⟨s.anchor, s.active - 1⟩ else ⟨s.anchor - 1, s.active⟩

end ModalEdit
