import ModalEdit.Motion.Range
import ModalEdit.Word.Scan

/-!
# Motions on machine indices

The motions as a program carries them out: index by index, with every index, line number and bracket
depth computed on machine words. `Motion.rangeChecked` gives the range of a motion, or the fault of
the first computation that leaves the range of machine indices; which range it is, `Motion.range`
says.
-/

namespace ModalEdit

/-- The indices `start..stop`, in order. -/
def indices (start stop : Nat) : List Nat :=
  List.range' start (stop - start)

namespace Text

/-- The index just past the last character of a line, computed on machine indices. -/
def lineEndChecked (t : Text) (l : Nat) : Except Index.Fault Nat :=
  Index.add (t.lineStart l) (t.lineLength l)

/-- The first character of a line that is no blank, sought index by index. -/
def firstNonBlankChecked (t : Text) (l : Nat) : Except Index.Fault Nat := do
  let start := t.lineStart l
  let stop ← t.lineEndChecked l
  let first := (indices start stop).find? fun i => !t[i]?.any isBlank
  return first.getD (max (stop - 1) start)

/-- The line some lines away, or the nearest one. None when there is no room in that direction. -/
def shiftedLine (t : Text) (line : Nat) (delta : Int) : Except Index.Fault (Option Nat) := do
  if delta = 0 then return some line
  let room ← if delta < 0 then pure line else Index.sub t.lastLine line
  if room = 0 then return none
  let steps := min delta.natAbs room
  if delta < 0 then return some (← Index.sub line steps)
  return some (← Index.add line steps)

/-- The first of some indices whose character closes more than was opened, `depth` openings deep. -/
def unmatchedAmong (t : Text) (opening close : Char) :
    Nat → List Nat → Except Index.Fault (Option Nat)
  | _, [] => return none
  | depth, i :: is =>
    match t[i]? with
    | none => unmatchedAmong t opening close depth is
    | some c =>
      if c = opening then do unmatchedAmong t opening close (← Index.add depth 1) is
      else if c = close then
        if depth = 0 then return some i
        else do unmatchedAmong t opening close (← Index.sub depth 1) is
      else unmatchedAmong t opening close depth is

/-- The first bracket at or after an index, with its pair and whether it opens it. -/
def bracketFrom (t : Text) (i : Nat) : Option (Nat × Char × Char × Bool) :=
  (indices i t.length).findSome? fun j => (t[j]?.bind bracketPair).map (j, ·)

/-- The partner of the first bracket at or after an index. -/
def partnerFrom (t : Text) (i : Nat) : Except Index.Fault (Option Nat) := do
  match t.bracketFrom i with
  | none => return none
  | some (j, opening, close, opens) =>
    if opens then t.unmatchedAmong opening close 0 (indices (← Index.add j 1) t.length)
    else t.unmatchedAmong close opening 0 (indices 0 j).reverse

end Text

/-- The range from a position to where a search lands, sought index by index. -/
def Find.rangeChecked (f : Find) (t : Text) (pos : Position) (n : Nat) :
    Except Index.Fault (Option Range) := do
  let lineEnd ← t.lineEndChecked pos.line
  let isTarget := fun i => t[i]? == some f.char
  if f.kind.backward then
    let before := (indices (t.lineStart pos.line) pos.index).reverse
    match (before.filter isTarget)[← Index.sub n 1]? with
    | none => return none
    | some hit =>
      let stop ← if f.kind.till then Index.add hit 1 else pure hit
      return some (.exclusive pos.index stop)
  else
    let after := indices (← Index.add pos.index 1) lineEnd
    match (after.filter isTarget)[← Index.sub n 1]? with
    | none => return none
    | some hit =>
      let stop ← if f.kind.till then Index.sub hit 1 else pure hit
      return some (.inclusive pos.index stop)

/-- The range of a repeated search, which goes for the next occurrence rather than stay in place. -/
def Find.rangeAgainChecked (f : Find) (t : Text) (pos : Position) (n : Nat) :
    Except Index.Fault (Option Range) := do
  match ← f.rangeChecked t pos n with
  | none => return none
  | some range =>
    if f.kind.till && range.stop == pos.index then f.rangeChecked t pos (← Index.add n 1)
    else return some range

namespace Motion

/-- A range to the first non-blank character of a line, or of the last line. -/
def toLineChecked (t : Text) (here line : Nat) : Except Index.Fault Range := do
  return .linewise here (← t.firstNonBlankChecked (min line t.lastLine))

/-- A range to the line some lines away with the preferred column kept. -/
def verticalChecked (t : Text) (pos : Position) (delta : Int)
    (preferred : Option PreferredColumn) : Except Index.Fault (Option Range) := do
  match ← t.shiftedLine pos.line delta with
  | none => return none
  | some line =>
    let col := (preferred.getD (.column pos.col)).clamp (t.lastColumn line)
    return some (.linewise pos.index (← Index.add (t.lineStart line) col))

/-- A range to the first non-blank character of the line some lines away. -/
def relativeLineChecked (t : Text) (pos : Position) (delta : Int) :
    Except Index.Fault (Option Range) := do
  match ← t.shiftedLine pos.line delta with
  | none => return none
  | some line => return some (.linewise pos.index (← t.firstNonBlankChecked line))

/-- The line `n - 1` lines down, or the last. -/
def lineOnChecked (t : Text) (line n : Nat) : Except Index.Fault Nat := do
  return min (← Index.sub (← Index.add line n) 1) t.lastLine

/-- A range to the last character of a line, or to the start of an empty one. -/
def toLineEndChecked (t : Text) (here line : Nat) : Except Index.Fault Range := do
  if t.lineLength line = 0 then return .exclusive here (t.lineStart line)
  return .inclusive here (← Index.sub (← t.lineEndChecked line) 1)

/-- The line that a percentage of the lines comes to, rounded up. -/
def percentLineChecked (t : Text) (percent : Nat) : Except Index.Fault Nat := do
  let scaled ← Index.mul percent t.lineCount
  Index.sub (max ((scaled + 99) / 100) 1) 1

/-- The range of a motion from the cursor, computed on machine indices. A count of 0 stands for no
count. -/
def rangeChecked (m : Motion) (t : Text) (ctx : MotionContext) (count cursor : Nat) :
    Except Index.Fault (Option Range) := do
  let pos ← Position.ofIndexChecked t cursor
  let here := pos.index
  let n := max count 1
  match m with
  | left => return (← pos.moveByChecked t 0 (-n) true).map fun p => .exclusive here p.index
  | right => return (← pos.moveByChecked t 0 n true).map fun p => .exclusive here p.index
  | up => verticalChecked t pos (-n) ctx.preferred
  | down => verticalChecked t pos n ctx.preferred
  | lineStart => return some (.exclusive here (t.lineStart pos.line))
  | firstNonBlank => return some (.exclusive here (← t.firstNonBlankChecked pos.line))
  | lineEnd => return some (← toLineEndChecked t here (← lineOnChecked t pos.line n))
  | nextWord big => return (← scanRepeat (t.scanNextStart big) n here).map (.exclusive here)
  | wordEnd big => return (← scanRepeat (t.scanNextEnd big) n here).map (.inclusive here)
  | prevWord big =>
    return (← scanRepeat (t.scanPrevStart big) n here).map fun stop =>
      ⟨here, stop, if big then .inclusive else .exclusive⟩
  | find f => f.rangeChecked t pos n
  | repeatFind reverse =>
    match ctx.lastFind with
    | none => return none
    | some last =>
      let kind := if reverse then last.kind.reversed else last.kind
      Find.rangeAgainChecked { last with kind } t pos n
  | gotoLast =>
    let line ← if count = 0 then pure t.lastLine else Index.sub count 1
    return some (← toLineChecked t here line)
  | gotoFirst => return some (← toLineChecked t here (count - 1))
  | lineUp => relativeLineChecked t pos (-n)
  | lineDown => relativeLineChecked t pos n
  | lineDownLess => relativeLineChecked t pos (← Index.move n (-1))
  | percent =>
    if count = 0 then return (← t.partnerFrom here).map (.inclusive here)
    return some (← toLineChecked t here (← percentLineChecked t count))
  | mark name linewise =>
    match ctx.marks.get? name with
    | none => return none
    | some p =>
      let target ← Position.ofLineColChecked t p.line p.col
      if linewise then return some (.linewise here (← t.firstNonBlankChecked target.line))
      return some (.exclusive here target.index)
  | jump target =>
    if t.length ≤ target then return none
    return some (.inclusive here target)
  | wholeLines => return some (.linewise here (t.lineStart (← lineOnChecked t pos.line n)))

end Motion

end ModalEdit
