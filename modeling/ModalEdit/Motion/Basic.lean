/-!
# Motions

The vocabulary of motions: where a cursor can be sent from where it stands.
-/

namespace ModalEdit

/-- A character search in a line: its direction, and whether it stops one short of the character. -/
structure FindKind where
  backward : Bool
  till : Bool
  deriving DecidableEq, Repr

namespace FindKind

/-- The search a key begins. -/
def ofKey : Char → Option FindKind
  | 'f' => some ⟨false, false⟩
  | 'F' => some ⟨true, false⟩
  | 't' => some ⟨false, true⟩
  | 'T' => some ⟨true, true⟩
  | _ => none

/-- The search in the other direction. -/
def reversed (k : FindKind) : FindKind :=
  { k with backward := !k.backward }

end FindKind

/-- A character search with its character. -/
structure Find where
  kind : FindKind
  char : Char
  deriving DecidableEq, Repr

/-- The column that vertical motions try to keep. -/
inductive PreferredColumn where
  | column (col : Nat)
  /-- The last column of every line. -/
  | lineEnd
  deriving DecidableEq, Repr

/-- The preferred column on a line whose last column is `last`. -/
def PreferredColumn.clamp (last : Nat) : PreferredColumn → Nat
  | column col => min col last
  | lineEnd => last

/-- A motion, without its count. -/
inductive Motion where
  | left
  | right
  | up
  | down
  | lineStart
  | firstNonBlank
  | lineEnd
  /-- To the start of a word further on. -/
  | nextWord (big : Bool)
  /-- To the end of a word. -/
  | wordEnd (big : Bool)
  /-- To the start of a word before. -/
  | prevWord (big : Bool)
  | find (find : Find)
  /-- The last search again, or with its direction reversed. -/
  | repeatFind (reverse : Bool)
  /-- To the line numbered by the count, or to the last line. -/
  | gotoLast
  /-- To the line numbered by the count, or to the first line. -/
  | gotoFirst
  /-- Up to the first non-blank character. -/
  | lineUp
  /-- Down to the first non-blank character. -/
  | lineDown
  /-- Down one line less than the count. -/
  | lineDownLess
  /-- To the matching bracket, or with a count to that percentage of the lines. -/
  | percent
  /-- To a mark, or to the first non-blank character of its line. -/
  | mark (name : Char) (linewise : Bool)
  /-- To a labelled match. -/
  | jump (target : Nat)
  /-- Over whole lines, as an operator typed twice. -/
  | wholeLines
  deriving DecidableEq, Repr

/-- Up or down by lines with the column kept. -/
def Motion.isVertical : Motion → Bool
  | up | down => true
  | _ => false

end ModalEdit
