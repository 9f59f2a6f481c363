import ModalEdit.Host
import ModalEdit.Input.Read
import ModalEdit.Key.Notation
import ModalEdit.Session.Plan

/-!
# Running keys

An editor is a session together with its host. A key is read, planned and carried out; carrying out
is the only part that asks something of the host, and it ends at the first refusal with the editor
as it is then. After a refusal the command is abandoned and the session falls back to Normal mode.
-/

namespace ModalEdit

/-- A session and its host. -/
structure Editor where
  session : Session
  host : Host
  deriving DecidableEq, Repr

/-- Work that a refusal ends. The editor is kept as it was at the refusal. -/
abbrev Attempt := EStateM HostError Editor

namespace Editor

/-- Ask the host. -/
def ask (request : EStateM HostError Host Unit) : Attempt Unit := fun ed =>
  match request ed.host with
  | .ok () host => .ok () { ed with host }
  | .error e host => .error e { ed with host }

/-- Change the session. -/
def update (f : Session → Session) : Attempt Unit :=
  modify fun ed => { ed with session := f ed.session }

/-! ## Carrying out plans -/

/-- Edit, write the register, place the cursor, settle the mode. -/
def commit (c : Commit) : Attempt Unit := do
  update (·.begin c)
  if let some edit := c.edit then ask (Host.requestEdit edit)
  update (·.afterEdit c)
  ask (Host.requestSelection (.cursor (c.cursor (← get).host.text)))
  update (·.settle c)

/-- Show a visual selection. -/
def select (kind : VisualKind) (ends : Endpoints) (column : ColumnRule) : Attempt Unit := do
  ask (Host.requestSelection (ends.selection kind (← get).host.text))
  update (·.highlight kind ends column)

/-- Carry out a plan. -/
def carryOut : Plan → Attempt Unit
  | .drop => update Session.dropPending
  | .commit c => commit c
  | .select kind ends column => select kind ends column

/-- Plan from the editor as it is. -/
def planned {α : Type} (plan : Session → Text → Selection → α) : Attempt α := do
  let ed ← get
  return plan ed.session ed.host.text ed.host.selection

/-! ## Insert mode -/

/-- Put a text in before the cursor. It extends the last change while that is recorded. -/
def insertText (text : Text) : Attempt Unit := do
  commit (← planned fun s t sel => s.planType t sel text)
  update (·.recordTyped text)

/-- Erase the character before the cursor, in the recorded change too. -/
def eraseChar : Attempt Unit := do
  if let some c ← planned Session.planErase then
    commit c
    update (·.recordErased)

/-- Leave Insert mode. -/
def leaveInsert : Attempt Unit := do
  let c ← planned Session.planLeave
  update fun s => { s with recording := false }
  commit c

/-! ## Commands -/

/-- Carry out a change again, and type a text if that enters Insert mode. -/
def replay (command : Repeatable) (typed : Text) : Attempt Unit := do
  update (·.prepareRepeat command)
  carryOut (← planned fun s t sel => s.planRepeatable t sel command)
  if (← get).session.mode = .insert then
    unless typed.isEmpty do insertText typed
    leaveInsert

/-- Work during which nothing is recorded, refused or not. -/
def unrecorded (work : Attempt Unit) : Attempt Unit := fun ed =>
  match work { ed with session.replaying := true } with
  | .ok () ed => .ok () { ed with session.replaying := false }
  | .error e ed => .error e { ed with session.replaying := false }

/-- Repeat the last change, with its own count if none is given, and type its text again. -/
def repeatChange (count : Nat) : Attempt Unit := do
  match (← get).session.lastChange with
  | none => update Session.dropPending
  | some last =>
    let command := if count = 0 then last.command else last.command.withCount count
    unrecorded (replay command last.typed)

/-- Undo some edits and settle where the host's selection is then. -/
def undo (count : Nat) : Attempt Unit := do
  ask (Host.requestUndo (max count 1))
  commit { landing := .index (← get).host.selection.active }

/-- Set a mark at the cursor. -/
def setMark (name : Char) : Attempt Unit := do
  let i ← planned Session.cursor
  let t := (← get).host.text
  update fun s => (s.mark name (.ofIndex t i)).dropPending

/-- Carry out a plan and remember the change it makes. -/
def carryOutChange (plan : Plan) (repeatable : Option Repeatable) : Attempt Unit := do
  carryOut plan
  if let some command := repeatable then
    if plan.isChange then
      update (·.recordChange command)

/-- Execute a command. -/
def execute (command : Command) : Attempt Unit := do
  let repeatable := (← get).session.repeatable command
  match command with
  | .motion m count =>
    update (·.noteFind m)
    carryOutChange (← planned fun s t sel => s.planMotion t sel m count) repeatable
  | .object o scope count =>
    carryOutChange (← planned fun s t sel => s.planObject t sel o scope count) repeatable
  | .enter entry =>
    carryOutChange (← planned fun s t sel => s.planEnter t sel entry) repeatable
  | .replace c count =>
    carryOutChange (← planned fun s t sel => s.planReplace t sel c count) repeatable
  | .operator op count => update (·.awaitMotion op count)
  | .instant .undo count => undo count
  | .instant .repeatChange count => repeatChange count
  | .instant (.setMark name) _ => setMark name
  | .instant instant count =>
    carryOutChange (← planned fun s t sel => s.planInstant t sel instant count) repeatable

/-! ## Keys -/

/-- Back to Normal mode with no partial input. A visual selection collapses to a cursor, if the host
allows. -/
def reset (ed : Editor) : Editor :=
  let host :=
    match ed.session.visual with
    | none => ed.host
    | some ends =>
      match Host.requestSelection (.cursor (ed.host.text.restingIndex ends.cursor)) ed.host with
      | .ok () host => host
      | .error _ host => host
  { session := ed.session.abandon, host }

/-- A stroke in Insert mode. -/
def insertStroke : Stroke → Attempt Unit
  | .char c => insertText [c]
  | .backspace => eraseChar
  | .escape => leaveInsert

/-- A character key outside Insert mode, with the command it completes. -/
def commandChar (c : Char) : Attempt (Option Command) := do
  let ed ← get
  let (reading, input) := ed.session.input.read ed.host.text ed.session.config c
  update fun s => { s with input }
  match reading with
  | .incomplete => return none
  | .rejected =>
    modify reset
    return none
  | .command command =>
    execute command
    return some command

/-- A stroke, with the command it completes. -/
def stroke (k : Stroke) : Attempt (Option Command) := do
  if (← get).session.mode = .insert then
    insertStroke k
    return none
  else
    match k with
    | .char c => commandChar c
    | _ =>
      modify reset
      return none

/-- An event, with the command it completes. A chord without a meaning resets, except in Insert
mode. -/
def dispatch (event : InputEvent) : Attempt (Option Command) := do
  match event.stroke? with
  | some k => stroke k
  | none =>
    unless (← get).session.mode = .insert do modify reset
    return none

/-- Feed one event. A command that the host refuses is abandoned. -/
def press (ed : Editor) (event : InputEvent) : Option Command × Editor :=
  match dispatch event ed with
  | .ok command ed => (command, ed)
  | .error _ ed => (none, ed.reset)

/-- Feed one key in writing; what is no key resets. -/
def pressKey (ed : Editor) (key : List Char) : Option Command × Editor :=
  match KeyNotation.parse key with
  | some event => ed.press event
  | none => (none, ed.reset)

/-- Feed some events and collect the commands they complete. -/
def pressAll (ed : Editor) : List InputEvent → List Command × Editor
  | [] => ([], ed)
  | event :: events =>
    let (command, ed) := ed.press event
    let (commands, ed) := pressAll ed events
    (command.toList ++ commands, ed)

/-- Pass the collected changes on to the session, in order. -/
def forward (ed : Editor) : Editor :=
  if ed.host.changes.isEmpty then ed
  else
    { session := ed.session.noteChanges ed.host.text ed.host.changes.reverse
      host := { ed.host with changes := [] } }

end Editor

end ModalEdit
