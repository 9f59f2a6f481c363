import ModalEdit.Motion.Checked
import ModalEdit.TextObject.Range

/-!
# Text objects on machine indices

The text objects as a program carries them out: run by run, quote by quote and bracket by bracket,
with every index and line number computed on machine words. `TextObject.rangeChecked` gives the range
of an object, or the fault of the first computation that leaves the range of machine indices or asks
for a line that the text does not have; which range it is, `TextObject.range` says.
-/

namespace ModalEdit

namespace Text

/-- A line number, which has to be that of a line. -/
def existingLine (t : Text) (l : Nat) : Except Index.Fault Nat :=
  if l ≤ t.lastLine then .ok l else .error .overflow

/-! ## Words -/

/-- The run that holds an index, not crossing its line, scanned to both sides. -/
def scanRunInLine (t : Text) (big : Bool) (i : Nat) : Except Index.Fault (Option Run) := do
  let l ← t.existingLine (t.lineOf i)
  t.scanRun big (t.lineStart l) (← t.lineEndChecked l) i

/-- The `n`-th run after `run` in its line, or the line's last run, each sought where the one before
it stops. -/
def scanRunsAhead (t : Text) (big : Bool) : Nat → Run → Except Index.Fault Run
  | 0, run => return run
  | n + 1, run => do
    match ← t.scanRunInLine big run.stop with
    | none => return run
    | some next => scanRunsAhead t big n next

/-- The start of the white space directly before an index in its line, or the index itself. -/
def spaceBeforeChecked (t : Text) (big : Bool) (i : Nat) : Except Index.Fault Nat := do
  if t.lineStart (← t.existingLine (t.lineOf i)) < i then
    match ← t.scanRunInLine big (← Index.sub i 1) with
    | some run => return if run.cls = .space then run.start else i
    | none => return i
  else return i

/-- `count` runs of the cursor's line, or around a word twice as many, scanned one after the
other. -/
def wordObjectChecked (t : Text) (big : Bool) (scope : Scope) (count i : Nat) :
    Except Index.Fault (Option Range) := do
  match ← t.scanRunInLine big i with
  | none => return none
  | some first =>
    match scope with
    | .inner =>
      let last ← t.scanRunsAhead big (count - 1) first
      return some (.exclusive first.start last.stop)
    | .around =>
      let last ← t.scanRunsAhead big (Count.times count 2 - 1) first
      let start ←
        if first.cls ≠ .space ∧ last.cls ≠ .space then t.spaceBeforeChecked big first.start
        else pure first.start
      return some (.exclusive start last.stop)

/-! ## Quotes -/

/-- There is a quote at an index, with no backslash directly before it. -/
def quoteAtChecked (t : Text) (quote : Char) (i : Nat) : Except Index.Fault Bool := do
  if t[i]? ≠ some quote then return false
  if i = 0 then return true
  return t[← Index.sub i 1]? ≠ some '\\'

/-- The pair of quotes at an index, sought index by index to both sides in its line. -/
def quotePairChecked (t : Text) (quote : Char) (i : Nat) :
    Except Index.Fault (Option (Nat × Nat)) := do
  let l ← t.existingLine (t.lineOf i)
  let start := t.lineStart l
  let stop ← t.lineEndChecked l
  let isQuote := t.quoteAtChecked quote
  if ← isQuote i then
    let before ← (indices start i).filterM isQuote
    if before.length % 2 = 0 then
      return (← (indices (← Index.add i 1) stop).findM? isQuote).map (i, ·)
    else return (← (indices start i).reverse.findM? isQuote).map (·, i)
  else
    match ← (indices start i).reverse.findM? isQuote with
    | none => return none
    | some left => return (← (indices (← Index.add i 1) stop).findM? isQuote).map (left, ·)

/-! ## Brackets -/

/-- The pair of brackets at an index, sought index by index. -/
def bracketPairAtChecked (t : Text) (opening close : Char) (i : Nat) :
    Except Index.Fault (Option (Nat × Nat)) := do
  if t[i]? = some opening then
    return (← t.unmatchedAmong opening close 0 (indices (← Index.add i 1) t.length)).map (i, ·)
  else if t[i]? = some close then
    return (← t.unmatchedAmong close opening 0 (indices 0 i).reverse).map (·, i)
  else
    match ← t.unmatchedAmong close opening 0 (indices 0 i).reverse with
    | none => return none
    | some left =>
      return (← t.unmatchedAmong opening close 0 (indices (← Index.add left 1) t.length)).map
        (left, ·)

/-- The lines between two brackets, when the first ends its line and the second starts a later line
after at most blanks. -/
def linesBetweenChecked (t : Text) (left right : Nat) : Except Index.Fault (Option Range) := do
  if t[← Index.add left 1]? ≠ some '\n' then return none
  let first ← Index.add (t.lineOf left) 1
  let last ← t.existingLine (t.lineOf right)
  if last ≤ first then return none
  if (← t.firstNonBlankChecked last) ≠ right then return none
  let final ← t.existingLine (← Index.sub last 1)
  return some (.linewise (t.lineStart (← t.existingLine first)) (t.lineStart final))

end Text

/-! ## Objects -/

/-- What two delimiters mark off, computed on machine indices. -/
def Scope.betweenChecked (scope : Scope) (left right : Nat) : Except Index.Fault Range := do
  match scope with
  | .around => return .exclusive left (← Index.add right 1)
  | .inner => return .exclusive (← Index.add left 1) right

/-- The range of a text object around the cursor, computed on machine indices. -/
def TextObject.rangeChecked (o : TextObject) (t : Text) (scope : Scope) (count cursor : Nat) :
    Except Index.Fault (Option Range) := do
  match o with
  | word big => t.wordObjectChecked big scope (max count 1) cursor
  | quote q =>
    match ← t.quotePairChecked q cursor with
    | none => return none
    | some (left, right) => return some (← scope.betweenChecked left right)
  | bracket opening close =>
    match ← t.bracketPairAtChecked opening close cursor with
    | none => return none
    | some (left, right) =>
      match scope with
      | .around => return some (← scope.betweenChecked left right)
      | .inner =>
        match ← t.linesBetweenChecked left right with
        | some lines => return some lines
        | none => return some (← scope.betweenChecked left right)

end ModalEdit
