import ModalEdit.Config
import ModalEdit.Input.Basic
import ModalEdit.Unicode.Alphanumeric

/-!
# Reading a key

A key is an argument when a lookahead waits for one. Otherwise it doubles the operator, commands the
selection, is a digit of the count, a motion, the beginning of a lookahead, or a key of the mode,
tried in that order. A key that is none of these is rejected.
-/

namespace ModalEdit

/-- What a key comes to. -/
inductive Reading where
  /-- More keys are needed. -/
  | incomplete
  | command (command : Command)
  /-- The key has no meaning here. -/
  | rejected
  deriving DecidableEq, Repr

namespace Input

/-- A motion with the count composed. -/
def readMotion (i : Input) (m : Motion) : Reading × Input :=
  (.command (.motion m (i.composedCount m.defaultCount)), { i with count := none })

/-- An instant command with the count typed. -/
def readInstant (i : Input) (c : Instant) : Reading × Input :=
  (.command (.instant c (i.count.getD c.defaultCount)), { i with count := none })

/-- Wait for an argument. -/
def await (i : Input) (lookahead : Lookahead) : Reading × Input :=
  (.incomplete, { i with lookahead := some lookahead })

/-- Names that select a register. -/
def isRegisterName (c : Char) : Bool :=
  Unicode.isAlphanumeric c || c == '"' || c == '*' || c == '+' || c == '-'

/-- Go on after a jump was started or narrowed, with the labels of that step. A jump that is
resolved goes back to the mode it began in, with an operator that waits left in place. -/
def readJump (i : Input) (step : JumpStep) (resume : Mode) : Reading × Input :=
  let i := { i with jumpGroups := step.groups }
  match step with
  | .resolved target => { i with mode := resume }.readMotion (.jump target)
  | .narrowed _ => { i with mode := .jump }.await (.jumpLabel resume)
  | .aborted => (.rejected, i)

/-- Replacing and setting marks are for Normal and Visual mode. -/
def canEdit (i : Input) : Bool :=
  i.mode == .normal || i.mode.isVisual

/-- Read the argument of a lookahead that was just taken off. -/
def readArgument (i : Input) (t : Text) (config : Config) (c : Char) :
    Lookahead → Reading × Input
  | .find kind => i.readMotion (.find ⟨kind, c⟩)
  | .g =>
    if c = 'g' then i.readMotion .gotoFirst
    else if c = 'I' ∧ i.mode = .normal then (.command (.enter (.insert .lineStart)), i)
    else (.rejected, i)
  | .replace =>
    if i.canEdit then (.command (.replace c (i.count.getD 1)), { i with count := none })
    else (.rejected, i)
  | .setMark => if i.canEdit then i.readInstant (.setMark c) else (.rejected, i)
  | .register =>
    if isRegisterName c then (.incomplete, { i with register := some c }) else (.rejected, i)
  | .gotoMark linewise => i.readMotion (.mark c linewise)
  | .object scope =>
    match TextObject.ofKey c with
    | some object =>
      (.command (.object object scope (i.composedCount 1)), { i with count := none })
    | none => (.rejected, i)
  | .jumpSearch =>
    i.readJump (Jump.start t c config.jumpLabels config.jumpIgnoreCase) i.mode
  | .jumpLabel resume => i.readJump (Jump.advance i.jumpGroups c config.jumpLabels) resume

/-- Read a key that means something in some modes only. -/
def readInMode (i : Input) (c : Char) : Reading × Input :=
  match i.mode with
  | .normal =>
    match Entry.ofKey c, Operator.ofKey c, Instant.ofKey c with
    | some entry, _, _ => (.command (.enter entry), i)
    | none, some op, _ => (.command (.operator op i.count), { i with count := none })
    | none, none, some instant => i.readInstant instant
    | none, none, none => (.rejected, i)
  | .visual _ | .operatorPending =>
    if c = 'i' then i.await (.object .inner)
    else if c = 'a' then i.await (.object .around)
    else (.rejected, i)
  | .insert | .jump => (.rejected, i)

/-- The digit that a key adds to the count; a leading zero is no digit. -/
def digit? (i : Input) (c : Char) : Option Nat :=
  (Count.digit? c).filter fun d => d != 0 || i.count.isSome

/-- Read a key that is no argument. -/
def readKey (i : Input) (c : Char) : Reading × Input :=
  if i.doublesOperator c then i.readMotion .wholeLines
  else
    match if i.mode.isVisual then SelectionCommand.ofKey c else none with
    | some command => i.readInstant (.selection command)
    | none =>
      match i.digit? c with
      | some d => (.incomplete, { i with count := some (Count.push i.count d) })
      | none =>
        match Motion.ofKey c with
        | some motion => i.readMotion motion
        | none =>
          match Lookahead.ofKey c with
          | some lookahead => i.await lookahead
          | none => i.readInMode c

/-- Read a character key. -/
def read (i : Input) (t : Text) (config : Config) (c : Char) : Reading × Input :=
  match i.lookahead with
  | some lookahead => { i with lookahead := none }.readArgument t config c lookahead
  | none => i.readKey c

end Input

end ModalEdit
