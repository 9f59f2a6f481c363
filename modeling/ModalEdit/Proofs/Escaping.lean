import ModalEdit.Proofs.Showing
import ModalEdit.Proofs.Typing

/-!
# Giving up partial input

Partial input is a count, a register, an operator that waits, a key that is an argument of the last
one, or the labels of a jump, in any order and one over another. Whatever it is, Escape takes all of
it back and leaves the editor as it was before the first key (`escape_restores`). The reason is that
nothing else has changed: as long as no command but an operator is completed, the editor is the one
it began as with other partial input (`covers_pressAll`). A command that is completed need not be
answered, for the host may refuse it half way, and what it has done by then stays
(`refused_commands_leave_traces`).

Nothing of it outlives the command that it is completed to, either: every kind of work ends in an
update that switches to a mode with no partial input (`idle_of_answer`).
-/

namespace ModalEdit

/-- The command is an operator, which waits for a motion or text object. -/
def Command.isOperator : Command → Bool
  | operator _ _ => true
  | _ => false

theorem Input.Open.awaitMotion {i : Input} (h : i.Open) (op : Operator) (count : Option Nat) :
    (i.awaitMotion op count).Open where
  mode_ne_insert := nofun
  mode_ne_jump := nofun
  no_label := Input.not_awaitsLabel rfl
  no_groups := h.no_groups
  operator_iff := by simp [Input.awaitMotion, Input.switch]

theorem Input.Sound.mode_ne_insert {i : Input} (h : i.Sound) (hstanding : i.standing ≠ .insert) :
    i.mode ≠ .insert := by
  intro hmode
  rw [h.eq_idle hmode] at hstanding
  exact hstanding rfl

namespace Editor

variable {ed : Editor}

/-! ## What a key does -/

theorem pressAll_cons (ed : Editor) (event : InputEvent) (events : List InputEvent) :
    ed.pressAll (event :: events) =
      ((ed.press event).1.toList ++ ((ed.press event).2.pressAll events).1,
        ((ed.press event).2.pressAll events).2) := rfl

theorem press_of_dispatch {event : InputEvent} {command : Option Command} {after : Editor}
    (h : dispatch event ed = .ok command after) : ed.press event = (command, after) := by
  unfold press
  rw [h]

/-- Outside Insert mode an event leaves partial input of the same standing mode, resets, or
completes a command over open input of that mode. -/
theorem press_cases (hsound : ed.session.input.Sound) (hmode : ed.session.mode ≠ .insert)
    (event : InputEvent) :
    (∃ i, i.Sound ∧ i.standing = ed.session.input.standing ∧
      ed.press event = (none, ed.withInput i)) ∨
    (∃ i, ed.press event = (none, (ed.withInput i).reset)) ∨
    ∃ command i, ed.completes event = some (command, i) ∧ i.Open ∧
      i.mode = ed.session.input.standing := by
  cases hk : event.stroke? with
  | none =>
    refine Or.inr (Or.inl ⟨ed.session.input, press_of_dispatch ?_⟩)
    simp only [dispatch, hk, bind_apply, get_apply, if_neg hmode]
    rfl
  | some k =>
    cases k with
    -- neither key is read as input
    | escape | backspace =>
      refine Or.inr (Or.inl ⟨ed.session.input, press_of_dispatch ?_⟩)
      simp only [dispatch, hk, stroke, bind_apply, get_apply, if_neg hmode]
      rfl
    | char c =>
      have hchar : dispatch event ed = commandChar c ed := by
        simp only [dispatch, hk, stroke, bind_apply, get_apply, if_neg hmode]
      have hreads := Input.read_sound hsound hmode ed.host.text ed.session.config c
      cases hread : ed.session.input.read ed.host.text ed.session.config c with
      | mk reading i =>
        rw [hread] at hreads
        cases reading with
        | incomplete =>
          refine Or.inl ⟨i, hreads.1, hreads.2, press_of_dispatch (hchar.trans ?_)⟩
          simp only [commandChar, bind_apply, get_apply, update_apply, hread]
          rfl
        | rejected =>
          refine Or.inr (Or.inl ⟨i, press_of_dispatch (hchar.trans ?_)⟩)
          simp only [commandChar, bind_apply, get_apply, update_apply, hread]
          rfl
        | command command =>
          have hcompletes := completes_eq hmode hk hread
          exact Or.inr (Or.inr ⟨command, i, hcompletes, hreads.1, hreads.2⟩)

theorem answer_of_insert (hmode : ed.session.mode = .insert) (event : InputEvent) :
    (ed.press event).1 = none := by
  unfold press dispatch
  cases hk : event.stroke? with
  | none =>
    simp only [bind_apply, get_apply, if_pos hmode]
    rfl
  | some k =>
    simp only [stroke, bind_apply, get_apply, if_pos hmode]
    cases insertStroke k ed <;> rfl

theorem executed_of_answer (hsound : ed.session.input.Sound) {event : InputEvent}
    {command : Command} (h : (ed.press event).1 = some command) :
    ∃ i, ed.completes event = some (command, i) ∧ i.Open ∧
      execute command (ed.withInput i) = .ok () (ed.press event).2 := by
  by_cases hmode : ed.session.mode = .insert
  · rw [answer_of_insert hmode event] at h
    cases h
  rcases press_cases hsound hmode event with ⟨_, -, -, hpress⟩ | ⟨_, hpress⟩ |
    ⟨command', i, hcompletes, hopen, -⟩
  · rw [hpress] at h
    cases h
  · rw [hpress] at h
    cases h
  · unfold press at h ⊢
    rw [dispatch_of_completes hcompletes, bind_apply] at h ⊢
    cases hrun : execute command' (ed.withInput i) with
    | ok _ after =>
      rw [hrun] at h
      cases h
      exact ⟨i, hcompletes, hopen, hrun⟩
    | error e after =>
      rw [hrun] at h
      cases h

/-- A command that is completed on a host that grants everything is answered. -/
theorem answer_of_completes (h : ed.RestsShowing) {event : InputEvent} {command : Command}
    {i : Input} (hcompletes : ed.completes event = some (command, i)) :
    (ed.press event).1 = some command := by
  have hends := shows_dispatch h.2 h.1 event
  unfold press
  unfold Ends at hends
  rw [dispatch_of_completes hcompletes, bind_apply] at hends ⊢
  cases hrun : execute command (ed.withInput i) with
  | ok _ after => rfl
  | error e after =>
    rw [hrun] at hends
    exact hends.elim

theorem press_operator {event : InputEvent} {op : Operator} {count : Option Nat} {i : Input}
    (hcompletes : ed.completes event = some (.operator op count, i)) :
    (ed.press event).2 = ed.withInput (i.awaitMotion op count) := by
  unfold press
  rw [dispatch_of_completes hcompletes]
  rfl

/-! ## Runs of partial input -/

/-- Every command that a run of events completes satisfies `A`. -/
def CompletesOnly (A : Command → Prop) : Editor → List InputEvent → Prop
  | _, [] => True
  | ed, event :: events =>
    (∀ command i, ed.completes event = some (command, i) → A command) ∧
      CompletesOnly A (ed.press event).2 events

/-- Every command that a run of events completes is answered, so that none is given up because the
host refuses what it asks for. -/
def AnswersAll : Editor → List InputEvent → Prop
  | _, [] => True
  | ed, event :: events =>
    (∀ command i, ed.completes event = some (command, i) → (ed.press event).1 = some command) ∧
      AnswersAll (ed.press event).2 events

theorem RestsShowing.answersAll (h : ed.RestsShowing) (events : List InputEvent) :
    ed.AnswersAll events := by
  induction events generalizing ed with
  | nil => trivial
  | cons event events ih =>
    exact ⟨fun _ _ => answer_of_completes h, ih (restsShowing_press h event)⟩

/-- Where all that is completed is answered, the answers say what is completed. -/
theorem completesOnly_of_answers {A : Command → Prop} {events : List InputEvent}
    (hall : ed.AnswersAll events) (hanswers : ∀ command ∈ (ed.pressAll events).1, A command) :
    ed.CompletesOnly A events := by
  induction events generalizing ed with
  | nil => trivial
  | cons event events ih =>
    rw [pressAll_cons] at hanswers
    refine ⟨fun command i hcompletes => ?_, ih hall.2 fun command hcommand =>
      hanswers command (List.mem_append_right _ hcommand)⟩
    have hanswer := hall.1 command i hcompletes
    exact hanswers command (List.mem_append_left _ (by simp [hanswer]))

/-- Normal mode with no partial input, between key events. -/
structure Idle (ed : Editor) : Prop where
  resting : ed.Resting
  input : ed.session.input = .idle .normal

theorem Idle.visual_eq_none (h : ed.Idle) : ed.session.visual = none := by
  have hopen : ed.session.Open := by
    refine h.resting.1.open_of ?_ ?_ <;> rw [Session.mode, h.input] <;> decide
  exact hopen.visual_eq_none (by rw [h.input]; rfl)

theorem Idle.not_recording (h : ed.Idle) : ed.session.recording = false := by
  refine Bool.eq_false_iff.2 fun hrecording => ?_
  have hmode := (h.resting.1.recording hrecording).1
  rw [h.input] at hmode
  cases hmode

theorem Idle.reset_withInput (h : ed.Idle) (i : Input) : (ed.withInput i).reset = ed := by
  have hvisual := h.visual_eq_none
  have hrecording := h.not_recording
  have hinput := h.input
  obtain ⟨session, host⟩ := ed
  obtain ⟨config, input, registers, marks, lastFind, preferred, visual, lastChange, recording,
    replaying⟩ := session
  dsimp only at hvisual hrecording hinput
  subst hvisual hrecording hinput
  rfl

/-- The editor is one without partial input, with some given to it outside Insert mode. -/
def Covers (ed after : Editor) : Prop :=
  ∃ i : Input, after = ed.withInput i ∧ i.Sound ∧ i.standing ≠ .insert

theorem Idle.covers_self (h : ed.Idle) : ed.Covers ed := by
  refine ⟨.idle .normal, ?_, .opened Input.open_idle_normal, nofun⟩
  rw [← h.input]
  rfl

/-- **One event of partial input changes nothing else.** -/
theorem Idle.covers_press (h : ed.Idle) {before : Editor} (hcovers : ed.Covers before)
    {event : InputEvent}
    (honly : ∀ command i, before.completes event = some (command, i) → command.isOperator = true) :
    ed.Covers (before.press event).2 := by
  obtain ⟨i, rfl, hsound, hstanding⟩ := hcovers
  have hmode : (ed.withInput i).session.mode ≠ .insert := hsound.mode_ne_insert hstanding
  rcases press_cases hsound hmode event with ⟨i', hsound', hsame, hpress⟩ | ⟨i', hpress⟩ |
    ⟨command, i', hcompletes, hopen, -⟩
  · rw [hpress]
    exact ⟨i', rfl, hsound', hsame ▸ hstanding⟩
  · rw [hpress]
    have hreset : ((ed.withInput i).withInput i').reset = ed := h.reset_withInput i'
    rw [hreset]
    exact h.covers_self
  · have hoperator := honly command i' hcompletes
    cases command with
    | operator op count =>
      have hawaits := hopen.awaitMotion op count
      rw [press_operator hcompletes]
      exact ⟨_, rfl, .opened hawaits, by rw [hawaits.standing]; nofun⟩
    | _ => cases hoperator

/-- **A run of partial input changes nothing else.** -/
theorem Idle.covers_pressAll (h : ed.Idle) {events : List InputEvent} {before : Editor}
    (hcovers : ed.Covers before)
    (honly : before.CompletesOnly (·.isOperator = true) events) :
    ed.Covers (before.pressAll events).2 := by
  induction events generalizing before with
  | nil => exact hcovers
  | cons event events ih => exact ih (h.covers_press hcovers honly.1) honly.2

/-! ## After a command -/

/-- Work that is done leaves no partial input. -/
def EndsIdle (work : Attempt Unit) (ed : Editor) : Prop :=
  Ends work ed (fun _ ed => ed.session.input = .idle ed.session.mode) fun _ => True

theorem no_groups_of_idle (h : ed.session.input = .idle ed.session.mode) :
    ed.session.input.jumpGroups = [] := by
  rw [h]
  rfl

section

variable (hgroups : ed.session.input.jumpGroups = [])

include hgroups

theorem switch_eq_idle (mode : Mode) : ed.session.input.switch mode = .idle mode := by
  simp [Input.switch, Input.idle, hgroups]

theorem idle_commit (c : Commit) : EndsIdle (commit c) ed :=
  ends_commit (fun _ => trivial) (fun _ => trivial) fun _ => switch_eq_idle hgroups c.rest.mode

theorem idle_carryOut (plan : Plan) : EndsIdle (carryOut plan) ed := by
  cases plan with
  | drop => exact ends_update (switch_eq_idle hgroups _)
  | commit c => exact idle_commit hgroups c
  | select kind ends column =>
    exact ends_select (fun _ => trivial) fun _ => switch_eq_idle hgroups (.visual kind)

theorem idle_carryOutChange (plan : Plan) (repeatable : Option Repeatable) :
    EndsIdle (carryOutChange plan repeatable) ed :=
  ends_carryOutChange_record
    ((idle_carryOut hgroups plan).mono (fun _ _ h _ _ => h) fun _ _ => trivial)

theorem idle_leaveInsert : EndsIdle leaveInsert ed := by
  refine ends_leaveInsert (idle_commit ?_ _)
  exact hgroups

theorem idle_insertText (text : Text) : EndsIdle (insertText text) ed :=
  ends_insertText ((idle_commit hgroups _).mono (fun _ _ h _ _ => h) fun _ h => h)

theorem idle_replay (change : Repeatable) (typed : Text) : EndsIdle (replay change typed) ed := by
  have hprepared : (ed.prepared change).session.input.jumpGroups = [] := by
    cases change with
    | operateMotion op m count => cases m <;> exact hgroups
    | _ => exact hgroups
  refine ends_replay ((idle_carryOut hprepared (ed.planOf change)).mono ?_ fun _ h => h)
  intro _ ed h
  have hleft := idle_leaveInsert (no_groups_of_idle h)
  refine ⟨fun _ => h, fun _ _ => hleft, fun _ => ?_⟩
  refine (idle_insertText (no_groups_of_idle h) typed).mono ?_ fun _ h => h
  exact fun _ _ h => idle_leaveInsert (no_groups_of_idle h)

theorem idle_execute {command : Command} (hcommand : command.isOperator = false) :
    EndsIdle (execute command) ed := by
  refine ends_execute ?_ ?_ ?_ ?_ ?_
  · intro plan _
    refine idle_carryOutChange ?_ plan _
    rw [noted_input]
    exact hgroups
  · intro op count hop
    subst hop
    cases hcommand
  · intro count _
    refine ends_bind (ends_ask (fun host _ => ends_bind (ends_get (idle_commit ?_ _))) ?_)
    · exact hgroups
    · exact fun _ _ _ => trivial
  · intro count _
    refine ends_repeatChange (fun _ => switch_eq_idle hgroups _) fun last _ => ?_
    have hreplaying : ed.replaying.session.input.jumpGroups = [] := hgroups
    exact (idle_replay hreplaying _ _).mono (fun _ _ h => h) fun _ h => h
  · exact fun name p count _ => switch_eq_idle hgroups _

end

/-- **A command that is answered leaves no partial input**, unless it is an operator. -/
theorem idle_of_answer (h : ed.Resting) {event : InputEvent} {command : Command}
    (hanswer : (ed.press event).1 = some command) (hcommand : command.isOperator = false) :
    (ed.press event).2.session.input = .idle (ed.press event).2.session.mode := by
  obtain ⟨i, -, hopen, hrun⟩ := executed_of_answer h.1.input hanswer
  have hgroups : (ed.withInput i).session.input.jumpGroups = [] := hopen.no_groups
  have hends := idle_execute hgroups hcommand
  unfold EndsIdle Ends at hends
  rw [hrun] at hends
  exact hends

/-! ## Every state -/

theorem Idle.press_escape (h : ed.Idle) {before : Editor} (hcovers : ed.Covers before)
    {event : InputEvent} (hescape : event.stroke? = some .escape) :
    (before.press event).2 = ed := by
  obtain ⟨i, rfl, hsound, hstanding⟩ := hcovers
  have hmode : (ed.withInput i).session.mode ≠ .insert := hsound.mode_ne_insert hstanding
  have hdispatch : dispatch event (ed.withInput i) = .ok none (ed.withInput i).reset := by
    simp only [dispatch, hescape, stroke, bind_apply, get_apply, if_neg hmode]
    rfl
  rw [press_of_dispatch hdispatch]
  exact h.reset_withInput i

/-- **Escape gives partial input up, and commands do not leave any.** In every state a history leads
to:

* from Normal mode with no partial input, events that answer no command but operators, and then
  Escape, leave the editor as it was, with its host, unless a command is given up in between because
  the host refuses what it asks for. A host that grants everything refuses none;
* an event that answers a command other than an operator leaves no partial input and no labels. -/
theorem escape_restores (rest : Rest) (config : Config) (clipboard : Option (Option Text))
    (host : Host) (history : List Happening) (ed : Editor)
    (hed : ed = (⟨Session.new rest.mode config clipboard, host⟩ : Editor).happenAll history) :
    (ed.session.input = .idle .normal → ∀ (events : List InputEvent) (escape : InputEvent),
      (∀ command ∈ (ed.pressAll events).1, command.isOperator = true) →
      ed.host.Grants ∨ ed.AnswersAll events →
      escape.stroke? = some .escape → (ed.pressAll (events ++ [escape])).2 = ed) ∧
    ∀ (event : InputEvent) (command : Command), (ed.press event).1 = some command →
      command.isOperator = false →
        (ed.press event).2.session.input = .idle (ed.press event).2.session.mode := by
  have hresting : ed.Resting := hed ▸ resting_happenAll rest config clipboard host history
  refine ⟨?_, fun event command => idle_of_answer hresting⟩
  intro hinput events escape hanswers hgranted hescape
  have hidle : ed.Idle := ⟨hresting, hinput⟩
  have hall : ed.AnswersAll events := by
    refine hgranted.elim (fun hg => ?_) id
    have hshowing : ed.RestsShowing := ⟨hresting, shows_of_visual_none hg hidle.visual_eq_none⟩
    exact hshowing.answersAll events
  have honly := completesOnly_of_answers hall hanswers
  have hcovers := hidle.covers_pressAll hidle.covers_self honly
  rw [pressAll_append]
  exact hidle.press_escape hcovers hescape

/-- A count, a register, an operator and the labels of a jump are given up, and a character is
deleted. -/
theorem escape_restores_labels :
    let ed : Editor := ⟨Session.new .normal {} none, .ofText ['a', 'b', 'a'] 1⟩
    let events : List InputEvent :=
      [.text '2', .text '"', .text 'q', .text 'd', .text 'Q', .text 'a']
    (ed.pressAll events).2.session.mode = .jump ∧
      (ed.pressAll (events ++ [.plain .escape])).2 = ed ∧
      (ed.press (.text 'x')).2.session.input = .idle (ed.press (.text 'x')).2.session.mode := by
  intro ed events
  obtain ⟨hescape, hcommand⟩ :=
    escape_restores .normal {} none (.ofText ['a', 'b', 'a'] 1) [] ed rfl
  have hanswers : ∀ command ∈ (ed.pressAll events).1, command.isOperator = true := by decide
  have hg : ed.host.Grants := ⟨rfl, rfl, rfl⟩
  have hanswer : (ed.press (.text 'x')).1 = some (.instant (.quick .deleteChar) 1) := by decide
  refine ⟨by decide, ?_, ?_⟩
  · exact hescape rfl events (.plain .escape) hanswers (Or.inl hg) rfl
  · exact hcommand (.text 'x') _ hanswer rfl

/-- What a command does before the host refuses to place the cursor is not taken back, although it
answers nothing. Up to the only match of a jump, a deletion has changed the text and written the
register, and a yank has written the register. -/
theorem refused_commands_leave_traces :
    let ed : Editor :=
      ⟨Session.new .normal {} none, (Host.ofText ['a', 'b'] 0).refuseSelections 1⟩
    let keys (op : Char) : List InputEvent := [.text op, .text 'Q', .text 'b']
    let after (op : Char) : Editor := (ed.pressAll (keys op ++ [.plain .escape])).2
    ed.session.input = .idle .normal ∧ ed.session.registers.read Registers.unnamed = none ∧
      (ed.pressAll (keys 'd')).1 = [.operator .delete none] ∧
      ((ed.pressAll ((keys 'd').take 2)).2.completes (.text 'b')).isSome ∧
      (after 'd').host.text = [] ∧
      (after 'd').session.registers.read Registers.unnamed = some ⟨false, ['a', 'b']⟩ ∧
      (ed.pressAll (keys 'y')).1 = [.operator .yank none] ∧
      ((ed.pressAll ((keys 'y').take 2)).2.completes (.text 'b')).isSome ∧
      (after 'y').session.registers.read Registers.unnamed = some ⟨false, ['a', 'b']⟩ := by
  decide

end Editor

end ModalEdit
