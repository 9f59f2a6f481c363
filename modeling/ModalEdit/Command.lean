import ModalEdit.Motion.Basic
import ModalEdit.Selection
import ModalEdit.TextObject.Basic

/-!
# Commands

A run of keys comes to exactly one command. This module holds the commands and the tables of the
keys that begin them.
-/

namespace ModalEdit

/-- What is done to the range of a motion or text object. -/
inductive Operator where
  | change
  | delete
  | yank
  deriving DecidableEq, Repr

namespace Operator

/-- The operator a key begins. -/
def ofKey : Char → Option Operator
  | 'c' => some .change
  | 'd' => some .delete
  | 'y' => some .yank
  | _ => none

/-- The key of an operator; typed twice it takes whole lines. -/
def key : Operator → Char
  | change => 'c'
  | delete => 'd'
  | yank => 'y'

theorem ofKey_key (op : Operator) : ofKey op.key = some op := by
  cases op <;> rfl

end Operator

/-- Where text typed in Insert mode goes. -/
inductive Insertion where
  | atCursor
  | firstNonBlank
  | lineStart
  | afterCursor
  | lineEnd
  /-- On a new line below. -/
  | openBelow
  /-- On a new line above. -/
  | openAbove
  deriving DecidableEq, Repr

/-- A change of mode. -/
inductive Entry where
  | insert (place : Insertion)
  | visual (kind : VisualKind)
  deriving DecidableEq, Repr

/-- The change of mode a key begins in Normal mode. -/
def Entry.ofKey : Char → Option Entry
  | 'i' => some (.insert .atCursor)
  | 'I' => some (.insert .firstNonBlank)
  | 'a' => some (.insert .afterCursor)
  | 'A' => some (.insert .lineEnd)
  | 'o' => some (.insert .openBelow)
  | 'O' => some (.insert .openAbove)
  | 'v' => some (.visual .charwise)
  | 'V' => some (.visual .linewise)
  | _ => none

/-- One-key edits of Normal mode. -/
inductive QuickEdit where
  | putAfter
  | putBefore
  | deleteChar
  | deleteCharBefore
  | changeToLineEnd
  | deleteToLineEnd
  | substituteLine
  | substituteChar
  deriving DecidableEq, Repr

/-- One-key commands on a visual selection. -/
inductive SelectionCommand where
  | delete
  | change
  | changeLines
  | yank
  | yankLines
  | lowerCase
  | upperCase
  deriving DecidableEq, Repr

/-- The selection command of a key. -/
def SelectionCommand.ofKey : Char → Option SelectionCommand
  | 'd' | 'x' => some .delete
  | 'c' | 's' => some .change
  | 'C' | 'R' | 'S' => some .changeLines
  | 'y' => some .yank
  | 'Y' => some .yankLines
  | 'u' => some .lowerCase
  | 'U' => some .upperCase
  | _ => none

/-- Commands that are complete as soon as they are typed. -/
inductive Instant where
  | quick (edit : QuickEdit)
  | selection (command : SelectionCommand)
  | yankLine
  | undo
  | repeatChange
  | setMark (name : Char)
  deriving DecidableEq, Repr

namespace Instant

/-- The instant command of a key in Normal mode. -/
def ofKey : Char → Option Instant
  | 'u' => some .undo
  | 'p' => some (.quick .putAfter)
  | 'P' => some (.quick .putBefore)
  | 'x' => some (.quick .deleteChar)
  | 'X' => some (.quick .deleteCharBefore)
  | 'C' => some (.quick .changeToLineEnd)
  | 'D' => some (.quick .deleteToLineEnd)
  | 'Y' => some .yankLine
  | 'S' => some (.quick .substituteLine)
  | 's' => some (.quick .substituteChar)
  | '.' => some .repeatChange
  | _ => none

/-- The count when none is typed; a repeated change then keeps its own. -/
def defaultCount : Instant → Nat
  | repeatChange => 0
  | _ => 1

end Instant

/-- A complete command. -/
inductive Command where
  | motion (motion : Motion) (count : Nat)
  | enter (entry : Entry)
  /-- An operator, which waits for a motion or text object. -/
  | operator (op : Operator) (count : Option Nat)
  | object (object : TextObject) (scope : Scope) (count : Nat)
  | instant (instant : Instant) (count : Nat)
  /-- Replace characters by another one. -/
  | replace (char : Char) (count : Nat)
  deriving DecidableEq, Repr

/-- The motion of a key that needs no other. -/
def Motion.ofKey : Char → Option Motion
  | '0' => some .lineStart
  | 'w' => some (.nextWord false)
  | 'W' => some (.nextWord true)
  | 'e' => some (.wordEnd false)
  | 'E' => some (.wordEnd true)
  | 'b' => some (.prevWord false)
  | 'B' => some (.prevWord true)
  | 'h' => some .left
  | 'j' => some .down
  | 'k' => some .up
  | 'l' => some .right
  | '$' => some .lineEnd
  | '^' => some .firstNonBlank
  | 'G' => some .gotoLast
  | '-' => some .lineUp
  | '+' | '\n' => some .lineDown
  | '_' => some .lineDownLess
  | ';' => some (.repeatFind false)
  | ',' => some (.repeatFind true)
  | '%' => some .percent
  | _ => none

/-- The count when none is typed. For these motions 0 stands for no count. -/
def Motion.defaultCount : Motion → Nat
  | gotoLast | gotoFirst | percent => 0
  | _ => 1

end ModalEdit
