import ModalEdit.Text.Basic

/-!
# Bracket matching

Both ways of finding a bracket's partner, forward and backward, are one scan with a depth: an
opening character nests, a closing one unnests, and the scan ends at the first character that closes
more than was opened.
-/

namespace ModalEdit

/-- The offset of the first `close` that is not opened before it in the list, `depth` openings
deep. The list begins at offset `i`. -/
def unmatchedAfter (opening close : Char) : Nat → Nat → List Char → Option Nat
  | _, _, [] => none
  | i, depth, c :: cs =>
    if c = opening then unmatchedAfter opening close (i + 1) (depth + 1) cs
    else if c = close then
      match depth with
      | 0 => some i
      | depth + 1 => unmatchedAfter opening close (i + 1) depth cs
    else unmatchedAfter opening close (i + 1) depth cs

namespace Text

/-- The nearest `close` at or after an index that is not opened in between. -/
def unmatchedClose (t : Text) (i : Nat) (opening close : Char) : Option Nat :=
  unmatchedAfter opening close i 0 (t.drop i)

/-- The nearest `opening` before an index that is not closed in between. -/
def unmatchedOpen (t : Text) (i : Nat) (opening close : Char) : Option Nat :=
  (unmatchedAfter close opening 0 0 (t.backward i)).map (min i t.length - 1 - ·)

end Text

end ModalEdit
