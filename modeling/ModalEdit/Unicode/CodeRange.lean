/-!
# Tables of code points

A character property beyond ASCII is a list of code point ranges, and a case mapping is a list of
shifted ranges. Each property answers for ASCII by itself, so a table starts at U+0080 and a look-up
of an ASCII character never walks it.
-/

namespace ModalEdit.Unicode

/-- The code points from `first` to `last`, both included. -/
structure CodeRange where
  first : Nat
  last : Nat
  deriving DecidableEq, Repr

/-- Whether the character lies in the range. -/
def CodeRange.holds (r : CodeRange) (c : Char) : Bool :=
  r.first ≤ c.toNat && c.toNat ≤ r.last

/-- Whether the character lies in one of the ranges. -/
def inRanges (table : List CodeRange) (c : Char) : Bool :=
  table.any (·.holds c)

/-- Every `step`-th code point from `first` to `last` maps to the one `offset` further on. -/
structure CaseShift where
  first : Nat
  last : Nat
  step : Nat
  offset : Int
  deriving DecidableEq, Repr

/-- Whether the shift maps the character. -/
def CaseShift.maps (s : CaseShift) (c : Char) : Bool :=
  s.first ≤ c.toNat && c.toNat ≤ s.last && (c.toNat - s.first) % s.step == 0

/-- The character `offset` code points further on. -/
def CaseShift.apply (s : CaseShift) (c : Char) : Char :=
  Char.ofNat (c.toNat + s.offset).toNat

/-- The characters a character expands to or shifts to, itself when no entry maps it. -/
def mapCase (expansions : List (Nat × List Nat)) (shifts : List CaseShift) (c : Char) :
    List Char :=
  match expansions.lookup c.toNat with
  | some codes => codes.map Char.ofNat
  | none =>
    match shifts.find? (·.maps c) with
    | some shift => [shift.apply c]
    | none => [c]

end ModalEdit.Unicode
