import ModalEdit.Command
import ModalEdit.Config
import ModalEdit.Input.Basic
import ModalEdit.Mark
import ModalEdit.Motion.Range
import ModalEdit.Register.Basic

/-!
# Sessions

A session is what the editor remembers between keys: the partial input, the registers and marks, the
last search, the column vertical motions keep, the ends of a visual selection and the last change.
-/

namespace ModalEdit

/-- A command that `.` can repeat. -/
inductive Repeatable where
  | operateMotion (op : Operator) (motion : Motion) (count : Nat)
  | operateObject (op : Operator) (object : TextObject) (scope : Scope) (count : Nat)
  | quick (edit : QuickEdit) (count : Nat)
  | replace (char : Char) (count : Nat)
  | insert (place : Insertion)
  deriving DecidableEq, Repr

/-- The command with another count. -/
def Repeatable.withCount (count : Nat) : Repeatable → Repeatable
  | operateMotion op motion _ => operateMotion op motion count
  | operateObject op object scope _ => operateObject op object scope count
  | quick edit _ => quick edit count
  | replace char _ => replace char count
  | insert place => insert place

/-- The last change, with the text typed in the Insert session it began. -/
structure LastChange where
  command : Repeatable
  typed : Text := []
  deriving DecidableEq, Repr

/-- The state between keys. -/
structure Session where
  config : Config := {}
  input : Input
  registers : Registers := {}
  marks : Marks := []
  lastFind : Option Find := none
  preferred : Option PreferredColumn := none
  visual : Option Endpoints := none
  lastChange : Option LastChange := none
  /-- Typing extends the last change. -/
  recording : Bool := false
  /-- The last change is being repeated, and nothing is recorded. -/
  replaying : Bool := false
  deriving DecidableEq, Repr

namespace Session

/-- A new session; a clipboard is attached if one is given. -/
def new (mode : Mode) (config : Config) (clipboard : Option (Option Text)) : Session :=
  { config
    input := .idle mode
    registers :=
      match clipboard with
      | some cell => { clipboard := cell, attached := true, followUnnamed := config.followUnnamed }
      | none => {} }

/-- The mode. -/
def mode (s : Session) : Mode := s.input.mode

/-- Where the cursor is: at the moving end of a visual selection, else at the active end of the
host's selection, pulled back into the text. -/
def cursor (s : Session) (t : Text) (sel : Selection) : Nat :=
  match if s.mode.isVisual then s.visual else none with
  | some ends => ends.cursor
  | none => min sel.active t.length

/-- What motions read. -/
def motionContext (s : Session) : MotionContext :=
  ⟨s.marks, s.lastFind, s.preferred⟩

/-- The register selected, or the unnamed one. -/
def registerName (s : Session) : Char :=
  s.input.register.getD Registers.unnamed

/-- The operator that waits, if its motion or object would change the text. -/
def changingOperator (s : Session) : Option Operator :=
  if s.mode = .operatorPending then (s.input.operator.map (·.op)).filter (· != .yank) else none

/-- What `.` would repeat of a command. -/
def repeatable (s : Session) : Command → Option Repeatable
  | .motion m count => s.changingOperator.map (.operateMotion · m count)
  | .object o scope count => s.changingOperator.map (.operateObject · o scope count)
  | .instant (.quick edit) count => if s.mode = .normal then some (.quick edit count) else none
  | .replace c count => if s.mode = .normal then some (.replace c count) else none
  | .enter (.insert place) => some (.insert place)
  | _ => none

/-- Remember a search. -/
def noteFind (s : Session) : Motion → Session
  | .find f => { s with lastFind := some f }
  | _ => s

/-- Set a mark. -/
def mark (s : Session) (name : Char) (p : Position) : Session :=
  { s with marks := s.marks.set name p }

/-- Wait for the motion or text object of an operator. -/
def awaitMotion (s : Session) (op : Operator) (count : Option Nat) : Session :=
  { s with input := s.input.awaitMotion op count }

/-- Remember a change. What is typed extends it if Insert mode was entered. -/
def recordChange (s : Session) (command : Repeatable) : Session :=
  if s.replaying then s
  else { s with lastChange := some ⟨command, []⟩, recording := s.mode = .insert }

/-- Extend the recorded change by what is typed. -/
def recordTyped (s : Session) (text : Text) : Session :=
  if s.recording && !s.replaying then
    { s with lastChange := s.lastChange.map fun l => { l with typed := l.typed ++ text } }
  else s

/-- Take the last character typed out of the recorded change. -/
def recordErased (s : Session) : Session :=
  if s.recording then
    { s with lastChange := s.lastChange.map fun l => { l with typed := l.typed.dropLast } }
  else s

/-- Bring about what a recorded change found: its operator waits, and its search is the last one. -/
def prepareRepeat (s : Session) : Repeatable → Session
  | .operateMotion op m _ => (s.awaitMotion op none).noteFind m
  | .operateObject op _ _ _ => s.awaitMotion op none
  | _ => s

/-- Back to Normal mode, with no partial input, no labels and no visual selection. -/
def abandon (s : Session) : Session :=
  { s with visual := none, recording := false, input := .idle .normal }

/-- Drop partial input. Visual mode stays; any other mode gives way to Normal mode. -/
def dropPending (s : Session) : Session :=
  { s with input := s.input.switch (if s.mode.isVisual then s.mode else .normal) }

/-- Follow changes of the text that the host passed on. -/
def noteChanges (s : Session) (after : Text) (changes : List Change) : Session :=
  { s with marks := s.marks.applyChanges after changes }

/-- Follow a selection that the host made. A non-empty one enters Visual mode from Normal mode, an
empty one leaves it. -/
def noteSelections (s : Session) : List Selection → Session
  | [] => s
  | sel :: _ =>
    match s.mode with
    | .normal =>
      if sel.isEmpty then s
      else { s with visual := some sel.endpoints, input := s.input.switch (.visual .charwise) }
    | .visual _ =>
      if sel.isEmpty then { s with visual := none, input := s.input.switch .normal } else s
    | _ => s

/-! ## What updates leave alone -/

theorem noteFind_frame (s : Session) (m : Motion) :
    s.noteFind m = { s with lastFind := (s.noteFind m).lastFind } := by
  cases m <;> rfl

theorem prepareRepeat_frame (s : Session) (command : Repeatable) :
    s.prepareRepeat command =
      { s with
        input := (s.prepareRepeat command).input
        lastFind := (s.prepareRepeat command).lastFind } := by
  cases command with
  | operateMotion op m count => cases m <;> rfl
  | _ => rfl

theorem recordChange_frame (s : Session) (command : Repeatable) :
    s.recordChange command =
      { s with
        lastChange := (s.recordChange command).lastChange
        recording := (s.recordChange command).recording } := by
  unfold recordChange
  split <;> rfl

theorem recordTyped_frame (s : Session) (text : Text) :
    s.recordTyped text = { s with lastChange := (s.recordTyped text).lastChange } := by
  unfold recordTyped
  split <;> rfl

theorem recordErased_frame (s : Session) :
    s.recordErased = { s with lastChange := s.recordErased.lastChange } := by
  unfold recordErased
  split <;> rfl

end Session

end ModalEdit
