import ModalEdit.Count
import ModalEdit.Range
import ModalEdit.Text.Bracket
import ModalEdit.TextObject.Basic
import ModalEdit.Word.Step

/-!
# The range of a text object

Words and quotes are sought on the cursor's line only. Brackets may span lines and nest. The inside
of a pair of brackets whose opening one ends its line and whose closing one starts its line is the
lines between them.
-/

namespace ModalEdit

/-- The `n`-th run after `run` in its line, or the line's last run, given what follows `run` in the
line. -/
def Run.ahead (big : Bool) : Nat → Run → List Char → Run
  | 0, run, _ => run
  | _ + 1, run, [] => run
  | n + 1, run, c :: cs =>
    let length := runLength big (c :: cs)
    Run.ahead big n ⟨run.stop, run.stop + length, CharClass.of big c⟩ (cs.drop (length - 1))

/-- The offsets in a line at which a quote stands with no backslash directly before it. -/
def quoteOffsets (quote : Char) (line : List Char) : List Nat :=
  (('\n' :: line).zip line).zipIdx.filterMap fun ((before, c), i) =>
    if c = quote ∧ before ≠ '\\' then some i else none

namespace Text

/-- The start of the white space directly before an index in its line, or the index itself. -/
def spaceBefore (t : Text) (big : Bool) (i : Nat) : Nat :=
  if t.lineStart (t.lineOf i) < i then
    match t.runInLine big (i - 1) with
    | some run => if run.cls = .space then run.start else i
    | none => i
  else i

/-- `count` runs of the cursor's line; around, twice as many, up to the largest count, and the white
space before the first if neither the first nor the last of them is white space. -/
def wordObject (t : Text) (big : Bool) (scope : Scope) (count i : Nat) : Option Range :=
  (t.runInLine big i).map fun first =>
    let rest := t.slice first.stop (t.lineEnd (t.lineOf i))
    match scope with
    | .inner => .exclusive first.start (first.ahead big (count - 1) rest).stop
    | .around =>
      let last := first.ahead big (Count.times count 2 - 1) rest
      let start :=
        if first.cls ≠ .space ∧ last.cls ≠ .space then t.spaceBefore big first.start
        else first.start
      .exclusive start last.stop

/-- The indices in a line at which a quote stands with no backslash directly before it. -/
def quotesOfLine (t : Text) (quote : Char) (l : Nat) : List Nat :=
  (quoteOffsets quote (t.line l)).map (t.lineStart l + ·)

/-- The pair of quotes at an index: a quote opens a pair when an even number of quotes comes before
it in its line, and closes one otherwise. Between quotes it is the nearest ones. -/
def quotePair (t : Text) (quote : Char) (i : Nat) : Option (Nat × Nat) :=
  let quotes := t.quotesOfLine quote (t.lineOf i)
  let before := quotes.filter (· < i)
  let after := quotes.filter (i < ·)
  if quotes.contains i then
    if before.length % 2 = 0 then after.head?.map (i, ·) else before.getLast?.map (·, i)
  else do
    let left ← before.getLast?
    let right ← after.head?
    return (left, right)

/-- The pair of brackets at an index: the one the bracket there belongs to, or the innermost one
around it. -/
def bracketPairAt (t : Text) (opening close : Char) (i : Nat) : Option (Nat × Nat) :=
  if t[i]? = some opening then (t.unmatchedClose (i + 1) opening close).map (i, ·)
  else if t[i]? = some close then (t.unmatchedOpen i opening close).map (·, i)
  else do
    let left ← t.unmatchedOpen i opening close
    let right ← t.unmatchedClose (left + 1) opening close
    return (left, right)

/-- The lines between two brackets, when the first ends its line and the second starts a later line
after at most blanks. -/
def linesBetween (t : Text) (left right : Nat) : Option Range :=
  let first := t.lineOf left + 1
  let last := t.lineOf right
  if t[left + 1]? = some '\n' ∧ first < last ∧ t.firstNonBlank last = right then
    some (.linewise (t.lineStart first) (t.lineStart (last - 1)))
  else none

end Text

/-- What two delimiters mark off. -/
def Scope.between (scope : Scope) (left right : Nat) : Range :=
  match scope with
  | .around => .exclusive left (right + 1)
  | .inner => .exclusive (left + 1) right

/-- The range of a text object around the cursor. Only words take a count. -/
def TextObject.range (o : TextObject) (t : Text) (scope : Scope) (count cursor : Nat) :
    Option Range :=
  match o with
  | word big => t.wordObject big scope (max count 1) cursor
  | quote q => (t.quotePair q cursor).map fun (left, right) => scope.between left right
  | bracket opening close =>
    (t.bracketPairAt opening close cursor).map fun (left, right) =>
      match scope with
      | .inner => (t.linesBetween left right).getD (scope.between left right)
      | .around => scope.between left right

end ModalEdit
