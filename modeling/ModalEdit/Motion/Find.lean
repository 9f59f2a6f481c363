import ModalEdit.Motion.Basic
import ModalEdit.Range
import ModalEdit.Text.Position

/-!
# Character search in a line

A search looks at the cursor's line only, strictly to one side of the cursor, and lands on the
`n`-th occurrence or one short of it.
-/

namespace ModalEdit

/-- The offsets at which a character occurs, in order. -/
def occurrences (c : Char) (cs : List Char) : List Nat :=
  cs.zipIdx.filterMap fun (d, i) => if d = c then some i else none

/-- The offset of the `n`-th occurrence of a character, counted from 1. -/
def nthOffset (c : Char) (n : Nat) (cs : List Char) : Option Nat :=
  (occurrences c cs)[n - 1]?

/-- The `n`-th occurrence that a search finds from a position. -/
def Find.hit (f : Find) (t : Text) (pos : Position) (n : Nat) : Option Nat :=
  if f.kind.backward then
    (nthOffset f.char n (t.slice (t.lineStart pos.line) pos.index).reverse).map
      (pos.index - 1 - ·)
  else
    (nthOffset f.char n (t.slice (pos.index + 1) (t.lineEnd pos.line))).map (pos.index + 1 + ·)

/-- Where the search lands for a given occurrence. -/
def FindKind.landing (k : FindKind) (hit : Nat) : Nat :=
  if k.till then (if k.backward then hit + 1 else hit - 1) else hit

/-- The range from a position to where the search lands; a forward search takes the character it
lands on. -/
def Find.range (f : Find) (t : Text) (pos : Position) (n : Nat) : Option Range :=
  (f.hit t pos n).map fun hit =>
    ⟨pos.index, f.kind.landing hit, if f.kind.backward then .exclusive else .inclusive⟩

/-- The range of a repeated search. A search that stops short and would stay in place goes for the
next occurrence. -/
def Find.rangeAgain (f : Find) (t : Text) (pos : Position) (n : Nat) : Option Range := do
  let range ← f.range t pos n
  if f.kind.till && range.stop == pos.index then f.range t pos (n + 1) else some range

end ModalEdit
