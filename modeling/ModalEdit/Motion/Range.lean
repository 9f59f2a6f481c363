import ModalEdit.Mark
import ModalEdit.Motion.Find
import ModalEdit.Text.Bracket
import ModalEdit.Word.Step

/-!
# The range of a motion

A motion is a pure function of the text, the cursor and a little context. It answers with a range,
or with none when it cannot be satisfied: nothing found, no room, no such mark. Which characters its
range takes in is fixed for each motion.
-/

namespace ModalEdit

/-- What a motion reads besides the text and the cursor. -/
structure MotionContext where
  marks : Marks := []
  lastFind : Option Find := none
  preferred : Option PreferredColumn := none
  deriving DecidableEq, Repr

namespace Text

/-- The line `n` lines up, or the first. None when there is no line above. -/
def lineAbove (line n : Nat) : Option Nat :=
  if line = 0 then none else some (line - n)

/-- The line `n` lines down, or the last. None when there is no line below. -/
def lineBelow (t : Text) (line n : Nat) : Option Nat :=
  if n = 0 then some line
  else if t.lastLine ≤ line then none
  else some (min (line + n) t.lastLine)

/-- A bracket's pair, and whether the bracket opens it. -/
def bracketPair : Char → Option (Char × Char × Bool)
  | '(' => some ('(', ')', true)
  | '[' => some ('[', ']', true)
  | '{' => some ('{', '}', true)
  | ')' => some ('(', ')', false)
  | ']' => some ('[', ']', false)
  | '}' => some ('{', '}', false)
  | _ => none

/-- The first bracket at or after an index. -/
def firstBracket (t : Text) (i : Nat) : Option Nat :=
  ((t.drop i).findIdx? fun c => (bracketPair c).isSome).map (i + ·)

/-- The partner of the bracket at an index. -/
def partner (t : Text) (i : Nat) : Option Nat := do
  let c ← t[i]?
  let (opening, close, opens) ← bracketPair c
  if opens then t.unmatchedClose (i + 1) opening close else t.unmatchedOpen i opening close

end Text

namespace Motion

/-- A range to the first non-blank character of a line. -/
def toLine (t : Text) (here line : Nat) : Range :=
  .linewise here (t.firstNonBlank line)

/-- A range to a line with the preferred column kept. -/
def toColumn (t : Text) (pos : Position) (preferred : Option PreferredColumn) (line : Nat) :
    Range :=
  let col := (preferred.getD (.column pos.col)).clamp (t.lastColumn line)
  .linewise pos.index (t.lineStart line + col)

/-- The line that a percentage of the lines comes to, rounded up. -/
def percentLine (t : Text) (percent : Nat) : Nat :=
  max ((percent * t.lineCount + 99) / 100) 1 - 1

/-- The range of a motion from the cursor. A count of 0 stands for no count. -/
def range (m : Motion) (t : Text) (ctx : MotionContext) (count cursor : Nat) : Option Range :=
  let pos := Position.ofIndex t cursor
  let here := pos.index
  let n := max count 1
  match m with
  | left => some (.exclusive here (t.lineStart pos.line + (pos.col - n)))
  | right =>
    some (.exclusive here (t.lineStart pos.line + min (pos.col + n) (t.lineLength pos.line)))
  | up => (Text.lineAbove pos.line n).map (toColumn t pos ctx.preferred)
  | down => (t.lineBelow pos.line n).map (toColumn t pos ctx.preferred)
  | lineStart => some (.exclusive here (t.lineStart pos.line))
  | firstNonBlank => some (.exclusive here (t.firstNonBlank pos.line))
  | lineEnd =>
    let line := min (pos.line + (n - 1)) t.lastLine
    if t.lineLength line = 0 then some (.exclusive here (t.lineStart line))
    else some (.inclusive here (t.lineEnd line - 1))
  | nextWord big =>
    (stepRepeat (toNextStart big) n (t.drop here)).map fun k => .exclusive here (here + k)
  | wordEnd big =>
    (stepRepeat (toNextEnd big) n (t.drop here)).map fun k => .inclusive here (here + k)
  | prevWord big =>
    (stepRepeat (toPrevStart big) n (t.backward here)).map fun k =>
      if big then .inclusive here (here - k) else .exclusive here (here - k)
  | find f => f.range t pos n
  | repeatFind reverse => do
    let last ← ctx.lastFind
    let kind := if reverse then last.kind.reversed else last.kind
    Find.rangeAgain { last with kind } t pos n
  | gotoLast =>
    some (toLine t here (if count = 0 then t.lastLine else min (count - 1) t.lastLine))
  | gotoFirst => some (toLine t here (min (count - 1) t.lastLine))
  | lineUp => (Text.lineAbove pos.line n).map (toLine t here)
  | lineDown => (t.lineBelow pos.line n).map (toLine t here)
  | lineDownLess => (t.lineBelow pos.line (n - 1)).map (toLine t here)
  | percent =>
    if count = 0 then
      ((t.firstBracket here).bind t.partner).map (.inclusive here)
    else some (toLine t here (min (percentLine t count) t.lastLine))
  | mark name linewise =>
    (ctx.marks.get? name).map fun p =>
      let target := Position.ofLineCol t p.line p.col
      if linewise then toLine t here target.line else .exclusive here target.index
  | jump target => if target < t.length then some (.inclusive here target) else none
  | wholeLines =>
    some (.linewise here (t.lineStart (min (pos.line + (n - 1)) t.lastLine)))

end Motion

end ModalEdit
