import ModalEdit.Command
import ModalEdit.Count
import ModalEdit.Jump
import ModalEdit.Mode

/-!
# Partial input

Keys arrive one at a time, and until they make a command they are held as partial input: a count, a
selected register, an operator, and a lookahead when the next key is an argument of the last one.
The labels that a jump shows are kept beside them.
-/

namespace ModalEdit

/-- What the next key is an argument of. -/
inductive Lookahead where
  /-- A character search. -/
  | find (kind : FindKind)
  /-- A key after `g`. -/
  | g
  | replace
  | register
  | setMark
  | gotoMark (linewise : Bool)
  | object (scope : Scope)
  | jumpSearch
  /-- A label, and the mode to go back to. -/
  | jumpLabel (resume : Mode)
  deriving DecidableEq, Repr

/-- An operator that waits, with the count typed before it. -/
structure PendingOperator where
  op : Operator
  count : Option Nat
  deriving DecidableEq, Repr

/-- The mode, the partial input and the labels of a jump. -/
structure Input where
  mode : Mode
  lookahead : Option Lookahead := none
  count : Option Nat := none
  operator : Option PendingOperator := none
  register : Option Char := none
  /-- The labels shown. -/
  jumpGroups : List JumpGroup := []
  deriving DecidableEq, Repr

namespace Input

/-- A mode with no partial input and no labels. -/
def idle (mode : Mode) : Input := { mode }

/-- Switch to a mode. All partial input is dropped; labels shown stay. -/
def switch (i : Input) (mode : Mode) : Input :=
  { mode, jumpGroups := i.jumpGroups }

/-- Wait for the motion or text object of an operator; a selected register stays selected. -/
def awaitMotion (i : Input) (op : Operator) (count : Option Nat) : Input :=
  { i.switch .operatorPending with operator := some ⟨op, count⟩, register := i.register }

/-- The product of the count typed and the operator's, one of them counting as 1 when only the other
was typed; `default` when neither was. -/
def composedCount (i : Input) (default : Nat) : Nat :=
  match i.count, i.operator.bind (·.count) with
  | none, none => default
  | count, opCount => Count.times (count.getD 1) (opCount.getD 1)

/-- The key is that of the operator which waits. -/
def doublesOperator (i : Input) (c : Char) : Bool :=
  i.mode == .operatorPending && i.operator.any (·.op.key == c)

end Input

/-- The lookahead a key begins. -/
def Lookahead.ofKey (c : Char) : Option Lookahead :=
  match FindKind.ofKey c, c with
  | some kind, _ => some (.find kind)
  | none, 'g' => some .g
  | none, 'r' => some .replace
  | none, 'm' => some .setMark
  | none, 'Q' => some .jumpSearch
  | none, '"' => some .register
  | none, '\'' => some (.gotoMark true)
  | none, '\x60' => some (.gotoMark false)
  | none, _ => none

end ModalEdit
