import ModalEdit.Register.Basic
import ModalEdit.Text.Quoted

/-!
# The diagnostic text of the registers
-/

namespace ModalEdit

/-- A record in writing, its fields already written. -/
def describeRecord (name : String) (fields : List (String × List Char)) : List Char :=
  let parts := fields.map fun (field, value) => field.toList ++ [':', ' '] ++ value
  name.toList ++ [' ', '\x7b', ' '] ++ List.intercalate [',', ' '] parts ++ [' ', '\x7d']

/-- A truth value in writing. -/
def describeBool (b : Bool) : List Char :=
  (if b then "true" else "false").toList

/-- A register in writing. -/
def Register.describe (r : Register) : List Char :=
  describeRecord "Register"
    [("linewise", describeBool r.linewise), ("text", Quoted.text r.text)]

namespace Registers

/-- The slots in writing, the latest written first. -/
def describeSlots (slots : Named Register) : List Char :=
  let entries := slots.entries.map fun (name, r) => Quoted.char name ++ [':', ' '] ++ r.describe
  ['\x7b'] ++ List.intercalate [',', ' '] entries ++ ['\x7d']

/-- All registers in writing: the slots, whether a clipboard is attached, and whether it follows the
unnamed register. -/
def describe (r : Registers) : String :=
  String.ofList <| describeRecord "Registers"
    [("slots", describeSlots r.slots), ("clipboard", describeBool r.attached),
      ("mirror_unnamed", describeBool r.followUnnamed)]

end Registers

end ModalEdit
