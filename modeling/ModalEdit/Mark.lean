import ModalEdit.Edit
import ModalEdit.Named

/-!
# Marks

Marks are named positions that follow the text loosely. A mark inside a replaced stretch is dropped,
a mark at or after its end moves by the lines the change adds or takes, and a mark before it stays.
Columns are never adjusted.
-/

namespace ModalEdit

/-- Named positions. -/
abbrev Marks := Named Position

namespace Change

/-- The position lies in the replaced stretch. -/
def covers (c : Change) (p : Position) : Bool :=
  !p.before c.start && p.before c.stop

/-- How many lines the change adds, negative if it takes some. -/
def addedLines (c : Change) : Int :=
  c.text.count '\n' - ((c.stop.line : Int) - c.start.line)

/-- How many lines a change adds before a position. -/
def shiftOf (c : Change) (p : Position) : Int :=
  if p.before c.stop then 0 else c.addedLines

/-- How many lines some changes together add before a position. -/
def addedBefore (p : Position) (changes : List Change) : Int :=
  changes.foldr (fun c lines => c.shiftOf p + lines) 0

end Change

/-- Where a position is after some changes, or none if one of them replaced it. `after` is the text
that the changes left. -/
def Position.afterChanges (p : Position) (after : Text) (changes : List Change) :
    Option Position :=
  if changes.any (·.covers p) then none
  else
    some (.ofLineCol after (p.line + Change.addedBefore p changes).toNat p.col)

/-- Where a position is after some changes, computed on machine indices. A change that ends on a
line before the one it starts on has no number of lines. -/
def Position.afterChangesChecked (p : Position) (after : Text) (changes : List Change) :
    Except Index.Fault (Option Position) := do
  for c in changes do
    if c.covers p then return none
    unless p.before c.stop do
      let _ ← Index.sub c.stop.line c.start.line
  return p.afterChanges after changes

namespace Marks

/-- The marks after a batch of changes that left the text `after`. -/
def applyChanges (marks : Marks) (after : Text) (changes : List Change) : Marks :=
  if changes.isEmpty then marks
  else marks.filterMap (·.afterChanges after changes)

/-- The marks after a batch of changes, computed on machine indices. -/
def applyChangesChecked (marks : Marks) (after : Text) (changes : List Change) :
    Except Index.Fault Marks := do
  for (_, p) in marks.entries do
    let _ ← p.afterChangesChecked after changes
  return marks.applyChanges after changes

end Marks

end ModalEdit
