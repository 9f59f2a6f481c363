import ModalEdit.Edit
import ModalEdit.Range

/-!
# Regions

A region is what a range comes to in a text: ordered ends inside the text, with the inclusive
character or the whole lines taken in. An exclusive range that ends in column 0 of a later line
stops before the line break, so that deleting a last word leaves the line break alone.
-/

namespace ModalEdit

/-- The characters `start..stop` an operator works on. -/
structure Region where
  start : Nat
  stop : Nat
  /-- The region is of whole lines. -/
  linewise : Bool
  /-- It is of whole lines and holds the last line of the text. -/
  lastLine : Bool
  deriving DecidableEq, Repr

namespace Region

/-- The upper end of an exclusive range: the end of the line before, when `stop` starts a line after
that of `start`. -/
def exclusiveStop (t : Text) (start stop : Nat) : Nat :=
  let pos := Position.ofIndex t stop
  if start < stop ∧ pos.col = 0 ∧ t.lineOf start < pos.line then
    max (t.lineEnd (pos.line - 1)) start
  else stop

/-- The region of a range. -/
def ofRange (t : Text) (r : Range) : Region :=
  let start := min (min r.start r.stop) t.length
  let stop := min (max r.start r.stop) t.length
  match r.extent with
  | .linewise =>
    let last := t.lineOf stop
    { start := t.lineStart (t.lineOf start)
      stop := min (t.lineEnd last + 1) t.length
      linewise := true
      lastLine := t.lastLine ≤ last }
  | .inclusive => ⟨start, min (stop + 1) t.length, false, false⟩
  | .exclusive => ⟨start, exclusiveStop t start stop, false, false⟩

/-- The region holds no character. -/
def isEmpty (r : Region) : Bool :=
  r.start == r.stop

/-- There is nothing to operate on. The empty last line after a line break is still a line. -/
def isVoid (r : Region) : Bool :=
  r.isEmpty && !(r.linewise && 0 < r.start)

/-- The text as a register keeps it: each line ends in a line break, the last line of the text
included. -/
def registerText (r : Region) (t : Text) : Text :=
  t.slice r.start r.stop ++ if r.lastLine then ['\n'] else []

/-- The edit that removes the region. Removing the last lines takes the line break before them, so
that no empty line is left. -/
def deletion (r : Region) : Edit :=
  if r.lastLine && 0 < r.start then .deletion (r.start - 1) r.stop
  else .deletion r.start r.stop

/-- The end of the text to remove when the region is changed: lines leave one empty line. -/
def changeStop (r : Region) : Nat :=
  if r.linewise && !r.lastLine && r.start < r.stop then r.stop - 1 else r.stop

end Region

end ModalEdit
