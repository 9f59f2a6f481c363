import ModalEdit.Region
import ModalEdit.Session.Basic
import ModalEdit.TextObject.Range

/-!
# Plans

What a command does is planned before anything is asked of the host. A plan is plain data, computed
from the session, the text and the selection: nothing to do, a visual selection to show, or a
commit.

A commit is at most one edit, then at most one register write, then the cursor placed on the
resulting text and the mode settled. No plan can do these in another order, so a refused edit leaves
the registers as they were, and a command makes at most one edit.
-/

namespace ModalEdit

/-! ## The parts of a commit -/

/-- Where a cursor is placed on the text after the edit. -/
inductive Landing where
  | index (i : Nat)
  /-- At the first non-blank character of a line, or of the last line if there are fewer. -/
  | lineText (line : Nat)
  deriving DecidableEq, Repr

/-- The index a landing names in a text. -/
def Landing.resolve (t : Text) : Landing → Nat
  | index i => i
  | lineText line => t.firstNonBlank (min line t.lastLine)

/-- The modes a commit settles in. -/
inductive Rest where
  | normal
  | insert
  deriving DecidableEq, Repr

/-- The mode of a rest. -/
def Rest.mode : Rest → Mode
  | normal => .normal
  | insert => .insert

/-- The character at or before an index that a cursor rests on: in its line, and not past the line's
last character. -/
def Text.restingIndex (t : Text) (i : Nat) : Nat :=
  let pos := Position.ofIndex t i
  t.lineStart pos.line + min pos.col (t.lastColumn pos.line)

/-- Where the cursor comes to rest: on a character in Normal mode, anywhere in the text in Insert
mode. -/
def Rest.place (rest : Rest) (t : Text) (i : Nat) : Nat :=
  match rest with
  | normal => t.restingIndex i
  | insert => min i t.length

/-- The points of a commit between which the host may refuse. -/
inductive Stage where
  | start
  | edited
  | placed
  deriving DecidableEq, Repr

/-- What becomes of the preferred column, and from which stage on. -/
inductive ColumnRule where
  | keep
  | forget (since : Stage)
  /-- From the end on it is this one. -/
  | become (column : Option PreferredColumn)
  deriving DecidableEq, Repr

/-- The preferred column when a stage is reached. -/
def ColumnRule.reach (rule : ColumnRule) (stage : Stage) (column : Option PreferredColumn) :
    Option PreferredColumn :=
  match rule with
  | keep => column
  | forget since => if since = stage then none else column
  | become new => if stage = .placed then new else column

/-- One edit, one register write, and where the cursor and the mode settle. -/
structure Commit where
  edit : Option Edit := none
  write : Option (Char × Register) := none
  landing : Landing
  rest : Rest := .normal
  column : ColumnRule := .keep
  deriving DecidableEq, Repr

/-- Where the cursor comes to rest on the text after the edit. -/
def Commit.cursor (c : Commit) (t : Text) : Nat :=
  c.rest.place t (c.landing.resolve t)

/-- The text is edited or Insert mode is entered. Such a commit is a change that `.` repeats. -/
def Commit.isChange (c : Commit) : Bool :=
  c.edit.isSome || c.rest == .insert

/-- What a command comes to. -/
inductive Plan where
  /-- There is no target: partial input is dropped. -/
  | drop
  | commit (commit : Commit)
  /-- Show a visual selection. -/
  | select (kind : VisualKind) (ends : Endpoints) (column : ColumnRule)
  deriving DecidableEq, Repr

/-- The plan is a change that `.` repeats. -/
def Plan.isChange : Plan → Bool
  | commit c => c.isChange
  | _ => false

namespace Session

/-! ## The session during a commit -/

/-- The session when a commit begins. -/
def begin (s : Session) (c : Commit) : Session :=
  { s with preferred := c.column.reach .start s.preferred }

/-- The session once the edit is made: the register is written. -/
def afterEdit (s : Session) (c : Commit) : Session :=
  { s with
    registers :=
      match c.write with
      | some (name, reg) => s.registers.write name reg
      | none => s.registers
    preferred := c.column.reach .edited s.preferred }

/-- The session once the cursor is placed: the mode is settled. -/
def settle (s : Session) (c : Commit) : Session :=
  { s with
    visual := none
    input := s.input.switch c.rest.mode
    preferred := c.column.reach .placed s.preferred }

/-- The session once a visual selection is shown. -/
def highlight (s : Session) (kind : VisualKind) (ends : Endpoints) (column : ColumnRule) :
    Session :=
  { s with
    visual := some ends
    input := s.input.switch (.visual kind)
    preferred := column.reach .placed s.preferred }

/-! ## Operators -/

/-- Where the cursor lands after a yank: at the start, or on the first line in the column it has. -/
def yankLanding (t : Text) (region : Region) (cursor : Nat) : Nat :=
  if region.linewise then
    (Position.ofLineCol t (t.lineOf region.start) (Position.ofIndex t cursor).col).index
  else region.start

/-- Yank, delete or change a range. A void range is only settled on, unless it is changed. `since`
says from when on the preferred column is forgotten. -/
def planOperator (s : Session) (t : Text) (sel : Selection) (op : Operator) (range : Range)
    (since : Stage) : Plan :=
  let region := Region.ofRange t range
  let cursor := s.cursor t sel
  let write := (s.registerName, (⟨region.linewise, region.registerText t⟩ : Register))
  let column := ColumnRule.forget since
  if region.isVoid ∧ op ≠ .change then
    .commit
      { landing := .index cursor, column := if since = .start then column else .keep }
  else
    match op with
    | .yank => .commit { write, landing := .index (yankLanding t region cursor), column }
    | .delete =>
      .commit
        { edit := region.deletion
          write
          landing :=
            if region.linewise then .lineText (t.lineOf region.start) else .index region.start
          column }
    | .change =>
      .commit
        { edit :=
            if region.start < region.changeStop then
              some (.deletion region.start region.changeStop)
            else none
          write := if region.isVoid then none else some write
          landing := .index region.start
          rest := .insert
          column }

/-! ## Motions and text objects -/

/-- The preferred column after a motion from the cursor. -/
def columnAfter (s : Session) (m : Motion) (t : Text) (cursor : Nat) : Option PreferredColumn :=
  if m.isVertical then
    some (s.preferred.getD (.column (Position.ofIndex t cursor).col))
  else if m = .lineEnd then some .lineEnd
  else none

/-- The range of a motion. Changing a word from a character that is not white space stops at the end
of a word. -/
def motionRange (s : Session) (t : Text) (m : Motion) (count cursor : Nat) : Option Range :=
  let changing := s.input.operator.any (·.op == .change)
  match m with
  | .nextWord big =>
    if changing ∧ t[cursor]?.any (!Unicode.isWhiteSpace ·) then
      (t.runEndThenMore big count cursor).map (.inclusive cursor)
    else m.range t s.motionContext count cursor
  | _ => m.range t s.motionContext count cursor

/-- A motion moves the cursor, extends the selection, or gives an operator its range. -/
def planMotion (s : Session) (t : Text) (sel : Selection) (m : Motion) (count : Nat) : Plan :=
  let cursor := s.cursor t sel
  match s.motionRange t m count cursor with
  | none => .drop
  | some range =>
    let column := ColumnRule.become (s.columnAfter m t cursor)
    match s.mode with
    | .operatorPending =>
      match s.input.operator with
      | some pending => s.planOperator t sel pending.op range .start
      | none => .drop
    | .visual kind =>
      let anchor := (s.visual.map (·.anchor)).getD cursor
      .select kind ⟨anchor, t.restingIndex range.stop⟩ column
    | _ => .commit { landing := .index range.stop, column }

/-- A text object is selected, or gives an operator its range. -/
def planObject (s : Session) (t : Text) (sel : Selection) (o : TextObject) (scope : Scope)
    (count : Nat) : Plan :=
  match o.range t scope count (s.cursor t sel) with
  | none => .drop
  | some range =>
    match s.mode with
    | .operatorPending =>
      match s.input.operator with
      | some pending => s.planOperator t sel pending.op range .placed
      | none => .drop
    | .visual kind =>
      let region := Region.ofRange t range
      if region.isEmpty then .drop
      else .select kind ⟨region.start, region.stop - 1⟩ .keep
    | _ => .drop

/-! ## Entering Insert and Visual mode -/

/-- Where text is inserted, with the line break put in first for a new line. On a line of blanks the
text goes after them. -/
def planInsert (s : Session) (t : Text) (sel : Selection) (place : Insertion) : Plan :=
  let cursor := s.cursor t sel
  let line := t.lineOf cursor
  let column := ColumnRule.forget .edited
  let enterAt := fun i => Plan.commit { landing := .index i, rest := .insert, column }
  match place with
  | .atCursor => enterAt cursor
  | .firstNonBlank =>
    let first := t.firstNonBlank line
    enterAt (if t[first]?.any Text.isBlank then t.lineEnd line else first)
  | .lineStart => enterAt (t.lineStart line)
  | .afterCursor => enterAt (min (cursor + 1) (t.lineEnd line))
  | .lineEnd => enterAt (t.lineEnd line)
  | .openBelow =>
    .commit
      { edit := some (.insertion (t.lineEnd line) ['\n'])
        landing := .index (t.lineEnd line + 1)
        rest := .insert
        column }
  | .openAbove =>
    .commit
      { edit := some (.insertion (t.lineStart line) ['\n'])
        landing := .index (t.lineStart line)
        rest := .insert
        column }

/-- Enter Insert mode, or begin a visual selection at the cursor. -/
def planEnter (s : Session) (t : Text) (sel : Selection) : Entry → Plan
  | .insert place => s.planInsert t sel place
  | .visual kind =>
    let cursor := s.cursor t sel
    .select kind ⟨cursor, cursor⟩ .keep

/-! ## Puts -/

/-- The most bytes of text that one put inserts, 64 MiB. -/
def putLimit : Nat := 64 * 1024 * 1024

/-- The edit and landing that put lines before or after a line. After the last line the line break
goes in front. -/
def putLines (t : Text) (text : Text) (after : Bool) (line : Nat) : Edit × Landing :=
  if !after then (.insertion (t.lineStart line) text, .lineText line)
  else if line < t.lastLine then
    (.insertion (t.lineStart (line + 1)) text, .lineText (line + 1))
  else
    let body := if text.getLast? = some '\n' then text.dropLast else text
    (.insertion (t.lineEnd line) ('\n' :: body), .lineText (line + 1))

/-- The edit and landing that put characters before or after the cursor. The cursor lands on the
last of them, or on the first if they hold a line break. -/
def putChars (t : Text) (text : Text) (after : Bool) (cursor : Nat) : Edit × Landing :=
  let i := if after then min (cursor + 1) (t.lineEnd (t.lineOf cursor)) else cursor
  (.insertion i text, .index (if '\n' ∈ text then i else i + (text.length - 1)))

/-- Put the register's text `count` times. -/
def planPut (s : Session) (t : Text) (sel : Selection) (count : Nat) (after : Bool) : Plan :=
  match s.registers.read s.registerName with
  | none => .drop
  | some reg =>
    if reg.text.utf8Length * count ≤ putLimit then
      let cursor := s.cursor t sel
      let text := reg.text.copies count
      let (edit, landing) :=
        if reg.linewise then putLines t text after (t.lineOf cursor)
        else putChars t text after cursor
      .commit { edit := some edit, landing }
    else .drop

/-! ## One-key edits -/

/-- Operate on the range of a motion from the cursor. -/
def planOperateTo (s : Session) (t : Text) (sel : Selection) (op : Operator) (m : Motion)
    (count : Nat) : Plan :=
  match m.range t s.motionContext count (s.cursor t sel) with
  | some range => s.planOperator t sel op range .placed
  | none => .drop

/-- The one-key edits of Normal mode. -/
def planQuick (s : Session) (t : Text) (sel : Selection) (edit : QuickEdit) (count : Nat) : Plan :=
  let n := max count 1
  let cursor := s.cursor t sel
  let line := t.lineOf cursor
  match edit with
  | .putAfter => s.planPut t sel n true
  | .putBefore => s.planPut t sel n false
  | .deleteChar =>
    s.planOperator t sel .delete (.exclusive cursor (min (cursor + n) (t.lineEnd line))) .placed
  | .deleteCharBefore =>
    s.planOperator t sel .delete (.exclusive (max (cursor - n) (t.lineStart line)) cursor) .placed
  | .substituteChar =>
    s.planOperator t sel .change (.exclusive cursor (min (cursor + n) (t.lineEnd line))) .placed
  | .changeToLineEnd => s.planOperateTo t sel .change .lineEnd n
  | .deleteToLineEnd => s.planOperateTo t sel .delete .lineEnd n
  | .substituteLine => s.planOperateTo t sel .change .wholeLines n

/-! ## The visual selection -/

/-- The range of the visual selection, of its characters or of its lines. -/
def selectionRange (s : Session) (lines : Bool) : Option Range :=
  match s.mode, s.visual with
  | .visual kind, some ends =>
    let extent := if lines ∨ kind = .linewise then .linewise else .inclusive
    some ⟨min ends.anchor ends.cursor, max ends.anchor ends.cursor, extent⟩
  | _, _ => none

/-- Operate on the selection. -/
def planOperateSelection (s : Session) (t : Text) (sel : Selection) (op : Operator)
    (lines : Bool) : Plan :=
  match s.selectionRange lines with
  | some range => s.planOperator t sel op range .placed
  | none => .drop

/-- Replace the text of the selection by a function of it. With `always` false it is edited only if
it changes. -/
def planTransform (s : Session) (t : Text) (f : Text → Text) (always : Bool) : Plan :=
  match s.selectionRange false with
  | some range =>
    let region := Region.ofRange t range
    let old := t.slice region.start region.stop
    let new := f old
    .commit
      { edit := if always || new != old then some ⟨region.start, region.stop, new⟩ else none
        landing := .index region.start }
  | none => .drop

/-- The one-key commands on a visual selection. -/
def planSelection (s : Session) (t : Text) (sel : Selection) : SelectionCommand → Plan
  | .delete => s.planOperateSelection t sel .delete false
  | .change => s.planOperateSelection t sel .change false
  | .changeLines => s.planOperateSelection t sel .change true
  | .yank => s.planOperateSelection t sel .yank false
  | .yankLines => s.planOperateSelection t sel .yank true
  | .lowerCase => s.planTransform t Unicode.lowerText false
  | .upperCase => s.planTransform t Unicode.upperText false

/-- Replace every character of the selection, line breaks left in place, or in other modes `count`
characters of the cursor's line from the cursor on. Replacing by a line break breaks the line once.
-/
def planReplace (s : Session) (t : Text) (sel : Selection) (c : Char) (count : Nat) : Plan :=
  if s.mode.isVisual then
    s.planTransform t (·.map fun d => if d = '\n' then d else c) true
  else
    let cursor := s.cursor t sel
    let stop := cursor + max count 1
    if t.lineEnd (t.lineOf cursor) < stop then .drop
    else if c = '\n' then
      .commit { edit := some ⟨cursor, stop, ['\n']⟩, landing := .index (cursor + 1) }
    else
      .commit
        { edit := some ⟨cursor, stop, List.replicate (stop - cursor) c⟩
          landing := .index (stop - 1) }

/-- The plan of an instant command. Undoing, repeating and marking are no matter of a plan. -/
def planInstant (s : Session) (t : Text) (sel : Selection) (instant : Instant) (count : Nat) :
    Plan :=
  match instant with
  | .quick edit => s.planQuick t sel edit count
  | .selection command => s.planSelection t sel command
  | .yankLine => s.planOperateTo t sel .yank .wholeLines count
  | .undo | .repeatChange | .setMark _ => .drop

/-! ## Repeated changes and typing -/

/-- What repeating a change does before any text is typed. An operator is to wait already. -/
def planRepeatable (s : Session) (t : Text) (sel : Selection) : Repeatable → Plan
  | .operateMotion _ m count => s.planMotion t sel m count
  | .operateObject _ o scope count => s.planObject t sel o scope count
  | .quick edit count => s.planQuick t sel edit count
  | .replace c count => s.planReplace t sel c count
  | .insert place => s.planInsert t sel place

/-- Type a text before the cursor. -/
def planType (s : Session) (t : Text) (sel : Selection) (text : Text) : Commit :=
  let cursor := s.cursor t sel
  { edit := some (.insertion cursor text)
    landing := .index (cursor + text.length)
    rest := .insert }

/-- Erase the character before the cursor, if there is one. -/
def planErase (s : Session) (t : Text) (sel : Selection) : Option Commit :=
  let cursor := s.cursor t sel
  if cursor = 0 then none
  else
    some
      { edit := some (.deletion (cursor - 1) cursor)
        landing := .index (cursor - 1)
        rest := .insert }

/-- Leave Insert mode, one column to the left if there is one. -/
def planLeave (s : Session) (t : Text) (sel : Selection) : Commit :=
  let cursor := s.cursor t sel
  { landing := .index (if (Position.ofIndex t cursor).col = 0 then cursor else cursor - 1) }

end Session

end ModalEdit
