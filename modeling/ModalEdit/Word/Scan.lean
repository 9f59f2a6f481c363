import ModalEdit.Index
import ModalEdit.Word.Basic

/-!
# Word scans on machine indices

The word steps as a program carries them out: index by index, with every index computed on machine
words. A run is scanned from an index to both sides, and a step is made of such scans. A loop here
stops at the same index for the same reason as the loop it stands for; what the steps amount to is
said by `Text.nextWordStart` and the functions beside it.
-/

namespace ModalEdit

/-! ## Loops over indices -/

/-- Back from an index while the one before is within, no further than `lo`. -/
def scanBack (within : Nat → Bool) (lo : Nat) : Nat → Except Index.Fault Nat
  | 0 => return 0
  | i + 1 => do
    if lo < i + 1 then
      let before ← Index.sub (i + 1) 1
      if within before then scanBack within lo i else return i + 1
    else return i + 1

/-- Ahead from an index while it is within, no further than `hi`. -/
def scanAhead (within : Nat → Bool) (hi i : Nat) : Except Index.Fault Nat := do
  if i < hi ∧ within i then
    let _ ← Index.add i 1
    scanAhead within hi (i + 1)
  else return i
termination_by hi - i

/-- Back from an index while it is within itself, no further than the start. -/
def scanOver (within : Nat → Bool) : Nat → Except Index.Fault Nat
  | 0 => return 0
  | i + 1 => do
    if within (i + 1) then
      let _ ← Index.sub (i + 1) 1
      scanOver within i
    else return i + 1

/-! ## Runs and steps -/

namespace Text

/-- The run that holds index `i`, within `lo..hi`, scanned to both sides. -/
def scanRun (t : Text) (big : Bool) (lo hi i : Nat) : Except Index.Fault (Option Run) := do
  if i < lo ∨ hi ≤ i then return none
  match t.classAt big i with
  | none => return none
  | some cls =>
    let same := fun j => t.classAt big j == some cls
    let start ← scanBack same lo i
    let stop ← scanAhead same hi (← Index.add i 1)
    return some ⟨start, stop, cls⟩

/-- There is white space at an index. -/
def spaceAt (t : Text) (big : Bool) (i : Nat) : Bool :=
  t.classAt big i == some .space

/-- The start of the next run, scanned run by run. -/
def scanNextStart (t : Text) (big : Bool) (i : Nat) : Except Index.Fault (Option Nat) := do
  match ← t.scanRun big 0 t.length i with
  | none => return none
  | some word =>
    if t.length ≤ word.stop then return some t.length
    if word.cls = .space then return some word.stop
    match ← t.scanRun big 0 t.length word.stop with
    | none => return some word.stop
    | some gap =>
      if gap.cls ≠ .space then return some word.stop
      return some (if t.length ≤ gap.stop then word.stop else gap.stop)

/-- The last character of the next run that is not white space, scanned from the next index on. -/
def scanNextEnd (t : Text) (big : Bool) (i : Nat) : Except Index.Fault (Option Nat) := do
  let first ← scanAhead (t.spaceAt big) t.length (← Index.add i 1)
  if t.length ≤ first then return none
  match ← t.scanRun big 0 t.length first with
  | none => return none
  | some word => return some (← Index.sub word.stop 1)

/-- The start of the last run before `i` that is not white space, scanned from the index before. -/
def scanPrevStart (t : Text) (big : Bool) (i : Nat) : Except Index.Fault (Option Nat) := do
  if i = 0 then return none
  let last ← scanOver (t.spaceAt big) (← Index.sub (min i t.length) 1)
  return (← t.scanRun big 0 t.length last).map (·.start)

end Text

/-! ## Repeated steps -/

/-- Up to `n` more steps from an index, ending early when a step fails or stays in place. -/
def scanMore (step : Nat → Except Index.Fault (Option Nat)) : Nat → Nat → Except Index.Fault Nat
  | 0, i => return i
  | n + 1, i => do
    match ← step i with
    | none => return i
    | some next => if next ≠ i then scanMore step n next else return i

/-- Where `count` steps from an index lead, at least one. Only the first one has to succeed. -/
def scanRepeat (step : Nat → Except Index.Fault (Option Nat)) (count i : Nat) :
    Except Index.Fault (Option Nat) := do
  match ← step i with
  | none => return none
  | some next => return some (← scanMore step (count - 1) next)

end ModalEdit
