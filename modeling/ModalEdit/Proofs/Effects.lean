import ModalEdit.Proofs.Operating
import ModalEdit.Proofs.Requests
import ModalEdit.Proofs.Refusals
import ModalEdit.Proofs.Repeating

/-!
# What events touch

Which events may edit the text, and which may write a register (`press_effects`). Both are read off
plans: an event edits if the plan of its command has an edit, and it writes a register if that plan
has a write, which is what the range operated on held. The rest of the work of an event settles the
cursor and the mode, and that touches neither.

So the proof follows one property through the work of an event, of the host for edits and of the
registers for writes. Of the host it has to survive requests to select, which are made by every
kind of work; of the registers it has to survive the one write of the plan.
-/

namespace ModalEdit

/-! ## The register selected -/

namespace Input

variable {i : Input}

/-- A command that is completed finds this register selected. -/
def ReadsInRegister (register : Option Char) : Reading × Input → Prop :=
  Reads (fun _ => True) fun _ i => i.register = register

theorem readsInRegister_jump (i : Input) (step : JumpStep) (resume : Mode) :
    ReadsInRegister i.register (i.readJump step resume) := by
  cases step <;> trivial

theorem readsInRegister_argument (i : Input) (t : Text) (config : Config) (c : Char)
    (lookahead : Lookahead) :
    ReadsInRegister i.register (i.readArgument t config c lookahead) := by
  cases lookahead with
  | find kind => rfl
  | gotoMark linewise => rfl
  | g =>
    simp only [readArgument]
    split
    · rfl
    · split <;> trivial
  | replace | setMark | register | object scope =>
    simp only [readArgument]
    split <;> trivial
  | jumpSearch | jumpLabel resume => exact readsInRegister_jump i _ _

theorem readsInRegister_inMode (i : Input) (c : Char) :
    ReadsInRegister i.register (i.readInMode c) := by
  simp only [readInMode]
  repeat' split
  all_goals trivial

theorem readsInRegister_key (i : Input) (c : Char) :
    ReadsInRegister i.register (i.readKey c) := by
  simp only [readKey]
  split
  · rfl
  split
  · rfl
  split
  · trivial
  split
  · rfl
  split
  · trivial
  · exact readsInRegister_inMode i c

theorem readsInRegister_read (i : Input) (t : Text) (config : Config) (c : Char) :
    ReadsInRegister i.register (i.read t config c) := by
  unfold read
  split
  · exact readsInRegister_argument _ t config c _
  · exact readsInRegister_key i c

end Input

/-! ## Commands that may edit -/

namespace Session

variable {s : Session} {t : Text} {sel : Selection} {command : Command}

/-- Commands that may edit the text: `c` or `d` with a motion or a text object that has a target,
opening a line, the one-key edits, replacing, repeating, and the commands on a visual selection but
for the yanks. -/
inductive MayEdit (s : Session) (t : Text) (sel : Selection) : Command → Prop
  | motion {m : Motion} {count : Nat} {op : Operator} {range : Range} :
      s.Operates t sel (.motion m count) op range → op ≠ .yank → MayEdit s t sel (.motion m count)
  | object {o : TextObject} {scope : Scope} {count : Nat} {op : Operator} {range : Range} :
      s.Operates t sel (.object o scope count) op range → op ≠ .yank →
      MayEdit s t sel (.object o scope count)
  | openBelow : MayEdit s t sel (.enter (.insert .openBelow))
  | openAbove : MayEdit s t sel (.enter (.insert .openAbove))
  | quick (edit : QuickEdit) (count : Nat) : MayEdit s t sel (.instant (.quick edit) count)
  | replace (c : Char) (count : Nat) : MayEdit s t sel (.replace c count)
  | repeatChange (count : Nat) : MayEdit s t sel (.instant .repeatChange count)
  | selection {c : SelectionCommand} (count : Nat) : c ≠ .yank → c ≠ .yankLines →
      MayEdit s t sel (.instant (.selection c) count)

theorem edit_planOperateTo_yank (m : Motion) (count : Nat) :
    (s.planOperateTo t sel .yank m count).edit? = none := by
  unfold planOperateTo
  split
  · exact edit_planOperator_yank
  · rfl

theorem edit_planOperateSelection_yank (lines : Bool) :
    (s.planOperateSelection t sel .yank lines).edit? = none := by
  unfold planOperateSelection
  split
  · exact edit_planOperator_yank
  · rfl

theorem mayEdit_of_motion {m : Motion} {count : Nat}
    (h : (s.planMotion t sel m count).edit? ≠ none) : s.MayEdit t sel (.motion m count) := by
  simp only [planMotion] at h
  split at h
  · exact absurd rfl h
  · rename_i range hrange
    split at h
    · rename_i hmode
      split at h
      · rename_i pending hpending
        have hwaiting := waiting_eq_some.2 ⟨hmode, pending, hpending, rfl⟩
        refine .motion (.motion hwaiting hrange) fun hyank => h ?_
        rw [hyank]
        exact edit_planOperator_yank
      · exact absurd rfl h
    · exact absurd rfl h
    · exact absurd rfl h

theorem mayEdit_of_object {o : TextObject} {scope : Scope} {count : Nat}
    (h : (s.planObject t sel o scope count).edit? ≠ none) :
    s.MayEdit t sel (.object o scope count) := by
  simp only [planObject] at h
  split at h
  · exact absurd rfl h
  · rename_i range hrange
    split at h
    · rename_i hmode
      split at h
      · rename_i pending hpending
        have hwaiting := waiting_eq_some.2 ⟨hmode, pending, hpending, rfl⟩
        refine .object (.object hwaiting hrange) fun hyank => h ?_
        rw [hyank]
        exact edit_planOperator_yank
      · exact absurd rfl h
    · split at h <;> exact absurd rfl h
    · exact absurd rfl h

/-- **A command whose plan has an edit is one of those that may edit.** -/
theorem mayEdit_of_edit {plan : Plan} (hplan : s.planCommand t sel command = some plan)
    (h : plan.edit? ≠ none) : s.MayEdit t sel command := by
  cases command with
  | motion m count => cases hplan; exact mayEdit_of_motion h
  | object o scope count => cases hplan; exact mayEdit_of_object h
  | enter entry =>
    cases hplan
    cases entry with
    | insert place =>
      cases place with
      | openBelow => exact .openBelow
      | openAbove => exact .openAbove
      | _ => exact absurd rfl h
    | visual kind => exact absurd rfl h
  | replace c count => exact .replace c count
  | operator op count => cases hplan
  | instant instant count =>
    cases instant with
    | quick edit => exact .quick edit count
    | selection c =>
      cases hplan
      refine .selection count (fun hc => h ?_) fun hc => h ?_
      · rw [hc]; exact edit_planOperateSelection_yank false
      · rw [hc]; exact edit_planOperateSelection_yank true
    | yankLine =>
      cases hplan
      exact absurd (edit_planOperateTo_yank .wholeLines count) h
    | _ => cases hplan

end Session

theorem Session.write_of_planErase {s : Session} {t : Text} {sel : Selection} {c : Commit}
    (h : s.planErase t sel = some c) : c.write = none := by
  simp only [planErase, Option.ite_none_left_eq_some, Option.some.injEq] at h
  obtain ⟨-, rfl⟩ := h
  rfl

/-- The command that a change is remembered of. -/
def Repeatable.command : Repeatable → Command
  | operateMotion _ m count => .motion m count
  | operateObject _ o scope count => .object o scope count
  | quick edit count => .instant (.quick edit) count
  | replace c count => .replace c count
  | insert place => .enter (.insert place)

theorem Session.planCommand_command (s : Session) (t : Text) (sel : Selection)
    (change : Repeatable) :
    s.planCommand t sel change.command = some (s.planRepeatable t sel change) := by
  cases change <;> rfl

namespace Editor

variable {ed : Editor}

/-- Events that may edit the text: a character or Backspace in Insert mode, and those that complete
a command which may. -/
inductive MayEdit (ed : Editor) (event : InputEvent) : Prop
  | typed {c : Char} : ed.session.mode = .insert → event.stroke? = some (.char c) →
      MayEdit ed event
  | erased : ed.session.mode = .insert → event.stroke? = some .backspace → MayEdit ed event
  | command {command : Command} {i : Input} : ed.completes event = some (command, i) →
      ((ed.withInput i).noted command).session.MayEdit ed.host.text ed.host.selection command →
      MayEdit ed event

/-! ## A property of the host -/

section Host

variable {H : Host → Prop}

/-- A property of the host that no request to select touches. -/
def KeptBySelecting (H : Host → Prop) : Prop :=
  ∀ (h : Host) (sel : Selection), H h → H (Host.after (Host.requestSelection sel h))

variable (hselect : KeptBySelecting H)

include hselect

theorem keeps_commit (h : H ed.host) {c : Commit} (hc : c.edit = none) :
    Leaves (commit c) ed (H ·.host) := by
  refine Ends.mono (ends_commit_requests (H := H) (E := fun _ => False) ?_ ?_)
    (fun _ _ h => h) fun _ h => h.elim id False.elim
  · intro e host hr
    rw [requestCommitEdit_unedited hc] at hr
    cases hr
  · intro edited hr
    rw [requestCommitEdit_unedited hc] at hr
    cases hr
    exact hselect _ _ h

theorem keeps_carryOut (h : H ed.host) {plan : Plan} (hplan : plan.edit? = none) :
    Leaves (carryOut plan) ed (H ·.host) := by
  cases plan with
  | drop => exact ends_update h
  | commit c => exact keeps_commit hselect h hplan
  | select kind ends column =>
    refine ends_bind (ends_get (ends_bind ?_))
    refine (leaves_ask (P := (H ·.host)) ?_).mono (fun _ _ h => ends_update h) fun _ h => h
    exact hselect _ _ h

theorem keeps_leaveInsert (h : H ed.host) : Leaves leaveInsert ed (H ·.host) := by
  refine ends_leaveInsert (keeps_commit hselect ?_ rfl)
  exact h

theorem keeps_undo (hundo : ∀ (h : Host) (n : Nat), H h → H (Host.after (Host.requestUndo n h)))
    (h : H ed.host) (count : Nat) : Leaves (undo count) ed (H ·.host) := by
  refine ends_bind ((leaves_ask (P := (H ·.host)) (hundo _ _ h)).mono ?_ fun _ h => h)
  exact fun _ _ h => ends_bind (ends_get (keeps_commit hselect h rfl))

theorem keeps_execute (h : H ed.host) {command : Command}
    (hnot : ¬(ed.noted command).session.MayEdit ed.host.text ed.host.selection command)
    (hundo : ∀ count, command = .instant .undo count →
      ∀ (h : Host) (n : Nat), H h → H (Host.after (Host.requestUndo n h))) :
    Leaves (execute command) ed (H ·.host) := by
  refine ends_execute ?_ (fun _ _ _ => h) ?_ ?_ fun _ _ _ _ => h
  · intro plan hplan
    have hedit : plan.edit? = none := by
      by_contra hedit
      exact hnot (Session.mayEdit_of_edit hplan hedit)
    have hnoted : H (ed.noted command).host := h
    refine ends_carryOutChange ((keeps_carryOut hselect hnoted hedit).mono ?_ fun _ h => h)
    exact fun _ _ h => ⟨fun _ _ _ => h, h⟩
  · exact fun count hcommand => keeps_undo hselect (hundo count hcommand) h count
  · intro count hcommand
    subst hcommand
    exact absurd (.repeatChange count) hnot

theorem keeps_reset (h : H ed.host) : H ed.reset.host :=
  keeps_reset_host h fun sel => hselect _ sel h

/-- **An event that may not edit leaves what no request to select touches.** Undoing has to leave
it as well, if it is undone. -/
theorem keeps_press (h : H ed.host) {event : InputEvent} (hnot : ¬ed.MayEdit event)
    (hundo : ∀ count i, ed.completes event = some (.instant .undo count, i) →
      ∀ (h : Host) (n : Nat), H h → H (Host.after (Host.requestUndo n h))) :
    H (ed.press event).2.host := by
  have hends : Leaves (dispatch event) ed (H ·.host) := by
    refine ends_dispatch ?_ (fun _ => h) ?_ fun _ => keeps_reset hselect h
    · intro hinsert k hk
      cases k with
      | char c => exact absurd (.typed hinsert hk) hnot
      | backspace => exact absurd (.erased hinsert hk) hnot
      | escape => exact keeps_leaveInsert hselect h
    · intro hmode c hc
      refine ends_commandChar (fun _ _ => h) ?_ ?_
      · intro i _
        have hinput : H (ed.withInput i).host := h
        exact keeps_reset hselect hinput
      · intro command i hread
        have hcompletes := completes_eq hmode hc hread
        have hinput : H (ed.withInput i).host := h
        refine keeps_execute hselect hinput (fun hmay => hnot (.command hcompletes hmay)) ?_
        intro count hcommand
        exact hundo count i (hcommand ▸ hcompletes)
  exact press_of_ends (P := (H ·.host)) hends fun _ => keeps_reset hselect

end Host

theorem noEdit_of_not_mayEdit {event : InputEvent} (hnot : ¬ed.MayEdit event) :
    ∀ entry ∈ ed.requests event, entry.editGranted? = none := by
  have hkept : (ed.press event).2.host.NoEditSince ed.host.journal := by
    refine keeps_press (H := (·.NoEditSince ed.host.journal)) ?_ ed.host.noEditSince_self hnot ?_
    · exact fun _ sel h => h.requestSelection sel
    · exact fun _ _ _ _ n h => h.requestUndo n
  obtain ⟨entries, hjournal, hnone⟩ := hkept
  rw [requests_eq hjournal]
  exact List.findSome?_eq_none_iff.1 hnone

/-! ## A property of the registers -/

section Registers

variable {R : Registers → Prop}

/-- A property of the registers that survives what is written, if anything is. -/
def Allows (R : Registers → Prop) (r : Registers) (w : Option (Char × Register)) : Prop :=
  ∀ name reg, w = some (name, reg) → R (r.write name reg)

theorem allows_none {r : Registers} : Allows R r none := nofun

/-- A commit writes once, and not when it is refused at its edit. -/
theorem holds_commit (h : R ed.session.registers) {c : Commit}
    (hwrite : Allows R ed.session.registers c.write) :
    Leaves (commit c) ed (R ·.session.registers) := by
  have hwritten : R ((ed.session.begin c).afterEdit c).registers := by
    simp only [Session.afterEdit]
    cases hw : c.write with
    | none => exact h
    | some w => exact hwrite w.1 w.2 hw
  exact ends_commit (fun _ => h) (fun _ => hwritten) fun _ => hwritten

theorem holds_carryOut (h : R ed.session.registers) {plan : Plan}
    (hwrite : Allows R ed.session.registers plan.write?) :
    Leaves (carryOut plan) ed (R ·.session.registers) := by
  cases plan with
  | drop => exact ends_update h
  | commit c => exact holds_commit h hwrite
  | select kind ends column => exact ends_select (fun _ => h) fun _ => h

theorem holds_insertText (h : R ed.session.registers) (text : Text) :
    Leaves (insertText text) ed (R ·.session.registers) := by
  have hwrite : Allows R ed.session.registers
      (ed.session.planType ed.host.text ed.host.selection text).write := allows_none
  exact ends_insertText ((holds_commit h hwrite).mono (fun _ _ h _ _ => h) fun _ h => h)

theorem holds_eraseChar (h : R ed.session.registers) :
    Leaves eraseChar ed (R ·.session.registers) := by
  refine ends_eraseChar h fun c hplan => ?_
  have hwrite : c.write = none := Session.write_of_planErase hplan
  exact (holds_commit h (hwrite ▸ allows_none)).mono (fun _ _ h _ _ => h) fun _ h => h

theorem holds_leaveInsert (h : R ed.session.registers) :
    Leaves leaveInsert ed (R ·.session.registers) := by
  refine ends_leaveInsert (holds_commit ?_ allows_none)
  exact h

/-- Repeating a change writes what its plan does, and nothing with the text typed after it. -/
theorem holds_replay (h : R ed.session.registers) {change : Repeatable}
    (hwrite : Allows R ed.session.registers (ed.planOf change).write?) (typed : Text) :
    Leaves (replay change typed) ed (R ·.session.registers) := by
  have hregisters : (ed.prepared change).session.registers = ed.session.registers := by
    unfold prepared
    rw [Session.prepareRepeat_frame]
  have hplan : Leaves (carryOut (ed.planOf change)) (ed.prepared change)
      (R ·.session.registers) := by
    refine holds_carryOut ?_ ?_
    · rw [hregisters]; exact h
    · rw [hregisters]; exact hwrite
  refine ends_replay (hplan.mono ?_ fun _ h => h)
  intro _ ed h
  refine ⟨fun _ => h, fun _ _ => holds_leaveInsert h, fun _ => ?_⟩
  exact (holds_insertText h typed).mono (fun _ _ h => holds_leaveInsert h) fun _ h => h

theorem holds_undo (h : R ed.session.registers) (count : Nat) :
    Leaves (undo count) ed (R ·.session.registers) := by
  refine ends_bind (ends_ask (fun host _ => ends_bind (ends_get (holds_commit ?_ ?_))) ?_)
  · exact h
  · exact allows_none
  · exact fun _ _ _ => h

theorem holds_carryOutChange (h : R ed.session.registers) {plan : Plan}
    (hwrite : Allows R ed.session.registers plan.write?) (repeatable : Option Repeatable) :
    Leaves (carryOutChange plan repeatable) ed (R ·.session.registers) := by
  exact ends_carryOutChange_record
    ((holds_carryOut h hwrite).mono (fun _ _ h _ _ => h) fun _ h => h)

theorem holds_execute (h : R ed.session.registers) {command : Command}
    (hplan : ∀ plan, ed.planOfCommand command = some plan →
      Allows R ed.session.registers plan.write?)
    (hrepeat : ∀ count last, command = .instant .repeatChange count →
      ed.session.lastChange = some last → Allows R ed.session.registers
        (ed.planOf (if count = 0 then last.command else last.command.withCount count)).write?) :
    Leaves (execute command) ed (R ·.session.registers) := by
  refine ends_execute ?_ (fun _ _ _ => h) (fun count _ => holds_undo h count) ?_
    fun _ _ _ _ => h
  · intro plan hp
    refine holds_carryOutChange ?_ ?_ _
    · rw [noted_registers]; exact h
    · rw [noted_registers]; exact hplan plan hp
  · intro count hcommand
    refine ends_repeatChange (fun _ => h) fun last hlast => ?_
    have hreplaying : R ed.replaying.session.registers := h
    refine (holds_replay hreplaying ?_ last.typed).mono (fun _ _ h => h) fun _ h => h
    rw [planOf_replaying]
    exact hrepeat count last hcommand hlast

/-- **The registers after an event** have every property that those before it have and that what the
event may write keeps. -/
theorem holds_press (h : R ed.session.registers) {event : InputEvent}
    (hplan : ∀ command i plan, ed.completes event = some (command, i) →
      (ed.withInput i).planOfCommand command = some plan →
      Allows R ed.session.registers plan.write?)
    (hrepeat : ∀ count i last, ed.completes event = some (.instant .repeatChange count, i) →
      ed.session.lastChange = some last → Allows R ed.session.registers
        ((ed.withInput i).planOf
          (if count = 0 then last.command else last.command.withCount count)).write?) :
    R (ed.press event).2.session.registers := by
  have hends : Leaves (dispatch event) ed (R ·.session.registers) := by
    refine ends_dispatch ?_ (fun _ => h) ?_ fun _ => h
    · intro _ k _
      cases k with
      | char c => exact holds_insertText h [c]
      | backspace => exact holds_eraseChar h
      | escape => exact holds_leaveInsert h
    · intro hmode c hc
      refine ends_commandChar (fun _ _ => h) (fun _ _ => h) ?_
      intro command i hread
      have hcompletes := completes_eq hmode hc hread
      have hinput : R (ed.withInput i).session.registers := h
      refine holds_execute hinput (fun plan hp => ?_) fun count last hcommand => ?_
      · exact hplan command i plan hcompletes hp
      · exact hrepeat count i last (hcommand ▸ hcompletes)
  exact press_of_ends (P := (R ·.session.registers)) hends fun _ h => h

end Registers

/-! ## Both -/

/-- An event applies an operator to a range of the text: its command does, or the change that it
repeats does. -/
inductive Operates (ed : Editor) (event : InputEvent) (op : Operator) (range : Range) : Prop
  | command {command : Command} {i : Input} : ed.completes event = some (command, i) →
      ((ed.withInput i).noted command).session.Operates ed.host.text ed.host.selection command op
        range → Operates ed event op range
  | repeated {count : Nat} {i : Input} {last : LastChange} (change : Repeatable) :
      ed.completes event = some (.instant .repeatChange count, i) →
      ed.session.lastChange = some last →
      change = (if count = 0 then last.command else last.command.withCount count) →
      ((ed.withInput i).prepared change).session.Operates ed.host.text ed.host.selection
        change.command op range → Operates ed event op range

/-- The registers with the one that is selected holding what a range holds: its text, and a line
break after the last line. -/
def registersHolding (ed : Editor) (range : Range) : Registers :=
  let region := Region.ofRange ed.host.text range
  ed.session.registers.write ed.session.registerName
    ⟨region.linewise, ed.host.text.slice region.start region.stop ++
      if region.lastLine then ['\n'] else []⟩

/-- The command that an event completes is carried out on an open session, and on a register
selected before. -/
theorem open_of_completes (h : ed.Resting) {event : InputEvent} {command : Command} {i : Input}
    (hcompletes : ed.completes event = some (command, i)) :
    (ed.withInput i).session.Open ∧
      (command.isNormalOnly = true → (ed.withInput i).session.mode = .normal) ∧
      i.register = ed.session.input.register := by
  obtain ⟨hmode, c, -, hread⟩ := completes_cases hcompletes
  have hregister := ed.session.input.readsInRegister_read ed.host.text ed.session.config c
  rw [hread] at hregister
  obtain ⟨hopen, hnormal⟩ := open_of_read h hmode hread
  exact ⟨hopen, hnormal, hregister⟩

section

variable {event : InputEvent} {command : Command} {i : Input} {name : Char} {reg : Register}

/-- A command is planned outside Visual mode if it is one of Normal mode only, and for the register
selected before the event. -/
theorem planned_of_completes (h : ed.Resting)
    (hcompletes : ed.completes event = some (command, i)) :
    (command.isNormalOnly = true →
      ((ed.withInput i).noted command).session.mode.isVisual = false) ∧
      ((ed.withInput i).noted command).session.registerName = ed.session.registerName := by
  obtain ⟨-, -, hregister⟩ := open_of_completes h hcompletes
  refine ⟨not_visual_of_completes hcompletes, ?_⟩
  rw [noted_registerName]
  exact congrArg (Option.getD · Registers.unnamed) hregister

/-- A change is repeated outside Visual mode, and for the register selected before the event. -/
theorem prepared_of_completes (h : ed.Resting) {count : Nat}
    (hcompletes : ed.completes event = some (.instant .repeatChange count, i))
    (change : Repeatable) :
    ((ed.withInput i).prepared change).session.mode.isVisual = false ∧
      ((ed.withInput i).prepared change).session.registerName = ed.session.registerName := by
  obtain ⟨hopen, hnormal, hregister⟩ := open_of_completes h hcompletes
  have hwithInput : (ed.withInput i).session.registerName = ed.session.registerName :=
    congrArg (Option.getD · Registers.unnamed) hregister
  refine ⟨prepared_not_visual (congrArg Mode.isVisual (hnormal rfl)) change, ?_⟩
  cases change with
  | operateMotion op m n => cases m <;> exact hwithInput
  | _ => exact hwithInput

/-- Selecting no other register, an event writes what it operates on. -/
theorem write_eq_registersHolding {s : Session} {range : Range}
    (hname : s.registerName = ed.session.registerName)
    (hwrite : s.WritesRange ed.host.text range (name, reg)) :
    ed.session.registers.write name reg = ed.registersHolding range := by
  unfold Session.WritesRange at hwrite
  rw [hname] at hwrite
  cases hwrite
  rfl

/-- What the plan of a command writes is what the range it operates on holds. -/
theorem operates_of_planOfCommand (h : ed.Resting) {plan : Plan}
    (hcompletes : ed.completes event = some (command, i))
    (hplan : (ed.withInput i).planOfCommand command = some plan)
    (hwrite : plan.write? = some (name, reg)) :
    ∃ op range, ed.Operates event op range ∧
      ed.session.registers.write name reg = ed.registersHolding range := by
  obtain ⟨hvisual, hname⟩ := planned_of_completes h hcompletes
  obtain ⟨op, range, hoperates, hw⟩ := Session.operates_of_write hvisual hplan hwrite
  exact ⟨op, range, .command hcompletes hoperates, write_eq_registersHolding hname hw⟩

/-- What the plan of a repeated change writes is what the range it operates on holds. -/
theorem operates_of_planOf (h : ed.Resting) {count : Nat} {last : LastChange}
    (hcompletes : ed.completes event = some (.instant .repeatChange count, i))
    (hlast : ed.session.lastChange = some last)
    (hwrite : ((ed.withInput i).planOf
      (if count = 0 then last.command else last.command.withCount count)).write? =
        some (name, reg)) :
    ∃ op range, ed.Operates event op range ∧
      ed.session.registers.write name reg = ed.registersHolding range := by
  generalize hchange : (if count = 0 then last.command else last.command.withCount count) = change
    at hwrite
  obtain ⟨hvisual, hname⟩ := prepared_of_completes h hcompletes change
  obtain ⟨op, range, hoperates, hw⟩ := Session.operates_of_write (fun _ => hvisual)
    (Session.planCommand_command _ _ _ change) hwrite
  exact ⟨op, range, .repeated change hcompletes hlast hchange.symm hoperates,
    write_eq_registersHolding hname hw⟩

end

/-- **What events touch.** In every state a history leads to, on any host:

* an event requests an edit only if it is one that may edit;
* an event that may not edit and undoes nothing leaves the text;
* an event writes at most one register, the one selected, and only with what the range it operates
  on held just before;
* the clipboard changes only with a write that reaches it. -/
theorem press_effects (rest : Rest) (config : Config) (clipboard : Option (Option Text))
    (host : Host) (history : List Happening) (event : InputEvent) :
    let ed := (⟨Session.new rest.mode config clipboard, host⟩ : Editor).happenAll history
    let after := (ed.press event).2
    ((∃ entry ∈ ed.requests event, entry.editGranted?.isSome = true) → ed.MayEdit event) ∧
    (¬ed.MayEdit event → (∀ count i, ed.completes event ≠ some (.instant .undo count, i)) →
      after.host.text = ed.host.text) ∧
    (after.session.registers = ed.session.registers ∨
      ∃ op range, ed.Operates event op range ∧
        after.session.registers = ed.registersHolding range) ∧
    (∀ name, name ≠ ed.session.registerName →
      after.session.registers.slots.get? name = ed.session.registers.slots.get? name) ∧
    (after.session.registers.clipboard ≠ ed.session.registers.clipboard →
      ed.session.registers.reachesClipboard ed.session.registerName = true) := by
  intro ed after
  have h : ed.Resting := resting_happenAll rest config clipboard host history
  have hwritten : after.session.registers = ed.session.registers ∨
      ∃ op range, ed.Operates event op range ∧
        after.session.registers = ed.registersHolding range := by
    refine holds_press (R := fun r => r = ed.session.registers ∨ ∃ op range,
      ed.Operates event op range ∧ r = ed.registersHolding range) (Or.inl rfl) ?_ ?_
    · exact fun command i plan hcompletes hplan name reg hwrite =>
        Or.inr (operates_of_planOfCommand h hcompletes hplan hwrite)
    · exact fun count i last hcompletes hlast name reg hwrite =>
        Or.inr (operates_of_planOf h hcompletes hlast hwrite)
  refine ⟨?_, ?_, hwritten, ?_, ?_⟩
  · intro hrequest
    obtain ⟨entry, hentry, hedit⟩ := hrequest
    by_contra hnot
    rw [noEdit_of_not_mayEdit hnot entry hentry] at hedit
    cases hedit
  · intro hnot hundo
    refine keeps_press (H := (·.text = ed.host.text)) ?_ rfl hnot ?_
    · exact fun host sel htext => (Host.text_after_requestSelection sel host).trans htext
    · exact fun count i hcompletes => absurd hcompletes (hundo count i)
  · intro name hname
    rcases hwritten with hsame | ⟨op, range, -, hsame⟩
    · rw [hsame]
    · rw [hsame]
      exact (Named.get?_set ..).trans (if_neg hname)
  · intro hclipboard
    rcases hwritten with hsame | ⟨op, range, -, hsame⟩
    · exact absurd (congrArg Registers.clipboard hsame) hclipboard
    · by_contra hreaches
      refine hclipboard ?_
      rw [hsame]
      exact if_neg hreaches

end Editor

end ModalEdit
