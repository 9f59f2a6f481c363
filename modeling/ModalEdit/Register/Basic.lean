import ModalEdit.Named
import ModalEdit.Text.Basic

/-!
# Registers

A write replaces what its register held. The register `"` is used when no name is selected. An
attached clipboard backs `*` and `+`: a write to one of them also sets the clipboard, a read takes
what the clipboard holds, and it may follow the writes to `"` as well.
-/

namespace ModalEdit

/-- What a register holds. -/
structure Register where
  /-- The text is of whole lines. -/
  linewise : Bool
  text : Text
  deriving DecidableEq, Repr

/-- All registers and the clipboard. -/
structure Registers where
  slots : Named Register := []
  /-- What the clipboard holds, attached or not. -/
  clipboard : Option Text := none
  attached : Bool := false
  /-- Writes to the unnamed register also set the clipboard. -/
  followUnnamed : Bool := false
  deriving DecidableEq, Repr

namespace Registers

/-- The name of the register used when none is selected. -/
def unnamed : Char := '"'

/-- The names an attached clipboard backs. -/
def isClipboard (name : Char) : Bool :=
  name == '*' || name == '+'

/-- Attach the clipboard, and say whether it follows the unnamed register. -/
def attach (r : Registers) (followUnnamed : Bool) : Registers :=
  { r with attached := true, followUnnamed }

/-- A write under this name reaches the clipboard. -/
def reachesClipboard (r : Registers) (name : Char) : Bool :=
  r.attached && (isClipboard name || (name == unnamed && r.followUnnamed))

/-- Replace what a register holds. -/
def write (r : Registers) (name : Char) (reg : Register) : Registers :=
  { r with
    slots := r.slots.set name reg
    clipboard := if r.reachesClipboard name then some reg.text else r.clipboard }

/-- The register a clipboard text is read as: of whole lines when it ends in a line break. -/
def ofClipboard (text : Text) : Register :=
  ⟨text.getLast? == some '\n', text⟩

/-- What a register holds, if it was ever written. -/
def read (r : Registers) (name : Char) : Option Register :=
  if r.attached && isClipboard name then r.clipboard.map ofClipboard
  else r.slots.get? name

/-- What an attached clipboard holds. -/
def attachedClipboard (r : Registers) : Option Text :=
  if r.attached then r.clipboard else none

/-- A register other than the clipboard's reads back what was written last. -/
theorem read_write (r : Registers) {name : Char} (reg : Register) (h : isClipboard name = false) :
    (r.write name reg).read name = some reg := by
  simp [read, write, h, Named.get?_set]

/-- Every register reads back a text that the clipboard takes for what it is. -/
theorem read_write_of_linewise (r : Registers) (name : Char) {reg : Register}
    (h : reg.linewise = (reg.text.getLast? == some '\n')) :
    (r.write name reg).read name = some reg := by
  cases hname : isClipboard name with
  | false => exact r.read_write reg hname
  | true =>
    cases hattached : r.attached with
    | false => simp [read, write, hattached, Named.get?_set]
    | true => simp [read, write, reachesClipboard, hname, hattached, ofClipboard, ← h]

end Registers

end ModalEdit
