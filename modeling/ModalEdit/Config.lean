/-!
# Settings
-/

namespace ModalEdit

/-- The settings of a session. -/
structure Config where
  /-- The labels of jump matches, in the order they are dealt. -/
  jumpLabels : List Char := "ABCDEFGHIJKLMNOPQRSTUVWXYZ".toList
  /-- A jump search disregards case. -/
  jumpIgnoreCase : Bool := true
  /-- An attached clipboard follows the unnamed register. -/
  followUnnamed : Bool := true
  deriving DecidableEq, Repr

end ModalEdit
