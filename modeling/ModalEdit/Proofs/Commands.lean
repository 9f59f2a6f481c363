import ModalEdit.Proofs.Attempt

/-!
# What commands come to

Every command is one of a few kinds of work. Most are a plan that is carried out (`planCommand`);
the others wait for a motion, undo, set a mark, or repeat the last change, which is a plan again and
perhaps a text typed after it. The rules here take a key event apart that far, so that a law of key
events has one case for each kind of work (`ends_dispatch`, `ends_commandChar`, `ends_execute`,
`ends_replay`).

Changes are recorded on the way, and few laws are about that. For the others there are rules that
leave open what is recorded (`withRecord`), of a plan and of each stroke of Insert mode.
-/

namespace ModalEdit

namespace Session

/-- The session that a command is planned by: a search is remembered first. -/
def noteCommand (s : Session) : Command → Session
  | .motion m _ => s.noteFind m
  | _ => s

/-- The plan of a command that is one. -/
def planCommand (s : Session) (t : Text) (sel : Selection) : Command → Option Plan
  | .motion m count => some (s.planMotion t sel m count)
  | .object o scope count => some (s.planObject t sel o scope count)
  | .enter entry => some (s.planEnter t sel entry)
  | .replace c count => some (s.planReplace t sel c count)
  | .operator _ _ | .instant .undo _ | .instant .repeatChange _ | .instant (.setMark _) _ => none
  | .instant instant count => some (s.planInstant t sel instant count)

theorem noteCommand_frame (s : Session) (command : Command) :
    s.noteCommand command = { s with lastFind := (s.noteCommand command).lastFind } := by
  cases command with
  | motion m count => exact s.noteFind_frame m
  | _ => rfl

end Session

namespace Editor

variable {ed : Editor}

/-- The editor with other partial input. -/
def withInput (ed : Editor) (input : Input) : Editor :=
  { ed with session := { ed.session with input } }

/-- The editor that a command is carried out on. -/
def noted (command : Command) (ed : Editor) : Editor :=
  { ed with session := ed.session.noteCommand command }

theorem noted_input (command : Command) (ed : Editor) :
    (ed.noted command).session.input = ed.session.input := by
  unfold noted
  rw [Session.noteCommand_frame]

theorem noted_mode (command : Command) (ed : Editor) :
    (ed.noted command).session.mode = ed.session.mode :=
  congrArg Input.mode (noted_input command ed)

theorem noted_registers (command : Command) (ed : Editor) :
    (ed.noted command).session.registers = ed.session.registers := by
  unfold noted
  rw [Session.noteCommand_frame]

theorem noted_visual (command : Command) (ed : Editor) :
    (ed.noted command).session.visual = ed.session.visual := by
  unfold noted
  rw [Session.noteCommand_frame]

theorem noted_registerName (command : Command) (ed : Editor) :
    (ed.noted command).session.registerName = ed.session.registerName :=
  congrArg (·.register.getD Registers.unnamed) (noted_input command ed)

/-- The plan of a command that is one, by the editor it is carried out on. -/
def planOfCommand (command : Command) (ed : Editor) : Option Plan :=
  (ed.noted command).session.planCommand ed.host.text ed.host.selection command

/-- The editor that a change is repeated on: its operator waits. -/
def prepared (change : Repeatable) (ed : Editor) : Editor :=
  { ed with session := ed.session.prepareRepeat change }

/-- The plan of a change. -/
def planOf (change : Repeatable) (ed : Editor) : Plan :=
  (ed.prepared change).session.planRepeatable ed.host.text ed.host.selection change

/-- The editor while a change is repeated. -/
def replaying (ed : Editor) : Editor :=
  { ed with session := { ed.session with replaying := true } }

/-- The editor with another record of the last change. -/
def withRecord (ed : Editor) (last : Option LastChange) (recording : Bool) : Editor :=
  { ed with session := { ed.session with lastChange := last, recording } }

section

variable {Q : Unit → Editor → Prop} {E : Editor → Prop}

/-! ## Insert mode -/

theorem ends_insertText {text : Text}
    (h : Ends (commit (ed.session.planType ed.host.text ed.host.selection text)) ed
      (fun _ ed => ∀ last recording, Q () (ed.withRecord last recording)) E) :
    Ends (insertText text) ed Q E := by
  refine ends_bind (ends_planned (ends_bind (h.mono ?_ fun _ h => h)))
  intro _ ed h
  refine ends_update ?_
  rw [Session.recordTyped_frame]
  exact h _ _

/-- Erasing is a commit, if there is something to erase. -/
theorem ends_eraseChar (hnothing : Q () ed)
    (h : ∀ c, ed.session.planErase ed.host.text ed.host.selection = some c →
      Ends (commit c) ed (fun _ ed => ∀ last recording, Q () (ed.withRecord last recording)) E) :
    Ends eraseChar ed Q E := by
  refine ends_bind (ends_planned ?_)
  cases hplan : ed.session.planErase ed.host.text ed.host.selection with
  | none => exact hnothing
  | some c =>
    refine ends_bind ((h c hplan).mono ?_ fun _ h => h)
    intro _ ed h
    refine ends_update ?_
    rw [Session.recordErased_frame]
    exact h _ _

theorem ends_leaveInsert
    (h : Ends (commit (ed.session.planLeave ed.host.text ed.host.selection))
      (ed.withRecord ed.session.lastChange false) Q E) : Ends leaveInsert ed Q E :=
  ends_bind (ends_planned (ends_bind (ends_update h)))

/-! ## Executing -/

theorem ends_carryOutChange {plan : Plan} {repeatable : Option Repeatable}
    (h : Ends (carryOut plan) ed (fun _ ed =>
      (∀ change, repeatable = some change → plan.isChange = true →
        Q () { ed with session := ed.session.recordChange change }) ∧ Q () ed) E) :
    Ends (carryOutChange plan repeatable) ed Q E := by
  refine ends_bind (h.mono ?_ fun _ h => h)
  intro _ ed h
  obtain ⟨hchange, hother⟩ := h
  cases repeatable with
  | none => exact ends_pure hother
  | some change =>
    dsimp only
    by_cases hplan : plan.isChange = true
    · rw [if_pos hplan]
      exact ends_update (hchange change rfl hplan)
    · rw [if_neg hplan]
      exact ends_pure hother

/-- A plan is carried out, and perhaps recorded as a change. -/
theorem ends_carryOutChange_record {plan : Plan} {repeatable : Option Repeatable}
    (h : Ends (carryOut plan) ed
      (fun _ ed => ∀ last recording, Q () (ed.withRecord last recording)) E) :
    Ends (carryOutChange plan repeatable) ed Q E := by
  refine ends_carryOutChange (h.mono ?_ fun _ h => h)
  intro _ ed h
  refine ⟨fun change _ _ => ?_, h ed.session.lastChange ed.session.recording⟩
  rw [Session.recordChange_frame]
  exact h _ _

/-- A command is a plan, an operator, undoing, repeating or setting a mark. -/
theorem ends_execute {command : Command}
    (hplan : ∀ plan, ed.planOfCommand command = some plan →
      Ends (carryOutChange plan (ed.session.repeatable command)) (ed.noted command) Q E)
    (hoperator : ∀ op count, command = .operator op count →
      Q () { ed with session := ed.session.awaitMotion op count })
    (hundo : ∀ count, command = .instant .undo count → Ends (undo count) ed Q E)
    (hrepeat : ∀ count, command = .instant .repeatChange count →
      Ends (repeatChange count) ed Q E)
    (hmark : ∀ name p count, command = .instant (.setMark name) count →
      Q () { ed with session := (ed.session.mark name p).dropPending }) :
    Ends (execute command) ed Q E := by
  refine ends_bind (ends_get ?_)
  cases command with
  | motion m count => exact ends_bind (ends_update (ends_bind (ends_planned (hplan _ rfl))))
  | object o scope count => exact ends_bind (ends_planned (hplan _ rfl))
  | enter entry => exact ends_bind (ends_planned (hplan _ rfl))
  | replace c count => exact ends_bind (ends_planned (hplan _ rfl))
  | operator op count => exact ends_update (hoperator op count rfl)
  | instant instant count =>
    cases instant with
    | undo => exact hundo count rfl
    | repeatChange => exact hrepeat count rfl
    | setMark name =>
      exact ends_bind (ends_planned (ends_bind (ends_get (ends_update (hmark name _ count rfl)))))
    | _ => exact ends_bind (ends_planned (hplan _ rfl))

theorem ends_execute_planned {command : Command} {plan : Plan}
    (hplan : ed.planOfCommand command = some plan)
    (h : Ends (carryOutChange plan (ed.session.repeatable command)) (ed.noted command) Q E) :
    Ends (execute command) ed Q E := by
  refine ends_execute (fun plan' hplan' => ?_) ?_ ?_ ?_ ?_
  · obtain rfl : plan = plan' := Option.some.inj (hplan.symm.trans hplan')
    exact h
  -- the other commands have no plan
  all_goals
    intros
    subst command
    cases hplan

/-- Repeating a change is carrying out its plan, and if that enters Insert mode typing a text,
unless it is empty, and leaving. -/
theorem ends_replay {change : Repeatable} {typed : Text}
    (h : Ends (carryOut (ed.planOf change)) (ed.prepared change) (fun _ ed =>
      (ed.session.mode ≠ .insert → Q () ed) ∧
      (ed.session.mode = .insert → typed = [] → Ends leaveInsert ed Q E) ∧
      (ed.session.mode = .insert →
        Ends (insertText typed) ed (fun _ ed => Ends leaveInsert ed Q E) E)) E) :
    Ends (replay change typed) ed Q E := by
  refine ends_bind (ends_update (ends_bind (ends_planned (ends_bind (h.mono ?_ fun _ h => h)))))
  intro _ ed h
  obtain ⟨hother, hempty, htyped⟩ := h
  refine ends_bind (ends_get ?_)
  by_cases hinsert : ed.session.mode = .insert
  · rw [if_pos hinsert]
    dsimp only
    by_cases htext : typed.isEmpty = true
    · rw [if_pos htext]
      exact hempty hinsert (List.isEmpty_iff.1 htext)
    · rw [if_neg htext]
      exact ends_bind (htyped hinsert)
  · rw [if_neg hinsert]
    exact ends_pure (hother hinsert)

theorem ends_repeatChange {count : Nat}
    (hnone : ed.session.lastChange = none → Q () { ed with session := ed.session.dropPending })
    (hsome : ∀ last, ed.session.lastChange = some last →
      Ends (replay (if count = 0 then last.command else last.command.withCount count) last.typed)
        ed.replaying (fun a ed => Q a { ed with session := { ed.session with replaying := false } })
        (fun ed => E { ed with session := { ed.session with replaying := false } })) :
    Ends (repeatChange count) ed Q E := by
  refine ends_bind (ends_get ?_)
  cases hlast : ed.session.lastChange with
  | none => exact ends_update (hnone hlast)
  | some last => exact ends_unrecorded (hsome last hlast)

end

/-! ## Keys -/

/-- The command that an event completes, if it completes one, with the partial input left then. It
is carried out next, and the host may refuse it. -/
def completes (ed : Editor) (event : InputEvent) : Option (Command × Input) :=
  if ed.session.mode = .insert then none
  else
    match event.stroke? with
    | some (.char c) =>
      match ed.session.input.read ed.host.text ed.session.config c with
      | (.command command, i) => some (command, i)
      | _ => none
    | _ => none

theorem completes_eq {event : InputEvent} {c : Char} {command : Command} {i : Input}
    (hmode : ed.session.mode ≠ .insert) (hstroke : event.stroke? = some (.char c))
    (hread : ed.session.input.read ed.host.text ed.session.config c = (.command command, i)) :
    ed.completes event = some (command, i) := by
  unfold completes
  rw [if_neg hmode, hstroke]
  dsimp only
  rw [hread]

theorem completes_cases {event : InputEvent} {command : Command} {i : Input}
    (h : ed.completes event = some (command, i)) :
    ed.session.mode ≠ .insert ∧ ∃ c, event.stroke? = some (.char c) ∧
      ed.session.input.read ed.host.text ed.session.config c = (.command command, i) := by
  unfold completes at h
  by_cases hmode : ed.session.mode = .insert
  · rw [if_pos hmode] at h
    cases h
  · rw [if_neg hmode] at h
    refine ⟨hmode, ?_⟩
    split at h
    · rename_i c hstroke
      refine ⟨c, hstroke, ?_⟩
      split at h
      · rename_i hread
        cases h
        exact hread
      · cases h
    · cases h

theorem dispatch_of_completes {event : InputEvent} {command : Command} {i : Input}
    (h : ed.completes event = some (command, i)) :
    dispatch event ed = (execute command >>= fun _ => pure (some command)) (ed.withInput i) := by
  obtain ⟨hmode, c, hstroke, hread⟩ := completes_cases h
  have hchar : commandChar c ed =
      (execute command >>= fun _ => pure (some command)) (ed.withInput i) := by
    simp only [commandChar, bind_apply, get_apply, update_apply, hread]
    rfl
  simp only [dispatch, hstroke, stroke, bind_apply, get_apply, if_neg hmode, hchar]

section

variable {P E : Editor → Prop}

theorem ends_dispatch_of_completes {event : InputEvent} {command : Command} {i : Input}
    (hcompletes : ed.completes event = some (command, i))
    (h : Ends (execute command) (ed.withInput i) (fun _ => P) E) :
    Ends (dispatch event) ed (fun _ => P) E := by
  have hwork : Ends (execute command >>= fun _ => pure (some command)) (ed.withInput i)
      (fun _ => P) E := ends_bind (h.mono (fun _ _ h => ends_pure h) fun _ h => h)
  unfold Ends at hwork ⊢
  rwa [dispatch_of_completes hcompletes]

/-- A key that completes `.` repeats the last change, if there is one. -/
theorem ends_dispatch_repeat {event : InputEvent} {count : Nat} {i : Input} {last : LastChange}
    (hcompletes : ed.completes event = some (.instant .repeatChange count, i))
    (hlast : ed.session.lastChange = some last)
    (h : Ends (replay (if count = 0 then last.command else last.command.withCount count) last.typed)
      (ed.withInput i).replaying
      (fun _ ed => P { ed with session := { ed.session with replaying := false } })
      (fun ed => E { ed with session := { ed.session with replaying := false } })) :
    Ends (dispatch event) ed (fun _ => P) E := by
  refine ends_dispatch_of_completes hcompletes ?_
  refine ends_execute nofun nofun nofun (fun count' hcount => ?_) nofun
  cases hcount
  refine ends_repeatChange (fun hnone => ?_) fun last' hlast' => ?_
  · cases hlast.symm.trans hnone
  · obtain rfl : last = last' := Option.some.inj (hlast.symm.trans hlast')
    exact h

theorem ends_dispatch_insert {event : InputEvent} {k : Stroke} (hmode : ed.session.mode = .insert)
    (hstroke : event.stroke? = some k) (h : Ends (insertStroke k) ed (fun _ => P) E) :
    Ends (dispatch event) ed (fun _ => P) E := by
  simp only [dispatch, hstroke]
  refine ends_bind (ends_get ?_)
  rw [if_pos hmode]
  exact ends_bind (h.mono (fun _ _ h => ends_pure h) fun _ h => h)

/-- A character key leaves partial input, resets, or executes the command it completes. -/
theorem ends_commandChar {c : Char}
    (hincomplete : ∀ i, ed.session.input.read ed.host.text ed.session.config c = (.incomplete, i) →
      P (ed.withInput i))
    (hrejected : ∀ i, ed.session.input.read ed.host.text ed.session.config c = (.rejected, i) →
      P (ed.withInput i).reset)
    (hcommand : ∀ command i,
      ed.session.input.read ed.host.text ed.session.config c = (.command command, i) →
      Ends (execute command) (ed.withInput i) (fun _ => P) E) :
    Ends (commandChar c) ed (fun _ => P) E := by
  refine ends_bind (ends_get ?_)
  dsimp only
  cases hread : ed.session.input.read ed.host.text ed.session.config c with
  | mk reading i =>
    refine ends_bind (ends_update ?_)
    cases reading with
    | incomplete => exact ends_pure (hincomplete i hread)
    | rejected => exact ends_bind (ends_modify (hrejected i hread))
    | command command =>
      refine ends_bind ((hcommand command i hread).mono ?_ fun _ h => h)
      exact fun _ _ h => ends_pure h

/-- A key event is a stroke of Insert mode, a character key or a reset. Chords are ignored in Insert
mode. -/
theorem ends_dispatch {event : InputEvent}
    (hstroke : ed.session.mode = .insert → ∀ k, event.stroke? = some k →
      Ends (insertStroke k) ed (fun _ => P) E)
    (hchord : ed.session.mode = .insert → P ed)
    (hchar : ed.session.mode ≠ .insert → ∀ c, event.stroke? = some (.char c) →
      Ends (commandChar c) ed (fun _ => P) E)
    (hreset : ed.session.mode ≠ .insert → P ed.reset) :
    Ends (dispatch event) ed (fun _ => P) E := by
  simp only [dispatch]
  cases hk : event.stroke? with
  | some k =>
    refine ends_bind (ends_get ?_)
    by_cases hmode : ed.session.mode = .insert
    · rw [if_pos hmode]
      refine ends_bind ((hstroke hmode k hk).mono ?_ fun _ h => h)
      exact fun _ _ h => ends_pure h
    · rw [if_neg hmode]
      cases k with
      | char c => exact hchar hmode c hk
      | _ => exact ends_bind (ends_modify (hreset hmode))
  | none =>
    refine ends_bind (ends_get ?_)
    by_cases hmode : ed.session.mode = .insert
    · rw [if_pos hmode]
      exact ends_pure (hchord hmode)
    · rw [if_neg hmode]
      exact ends_bind (ends_modify (hreset hmode))

end

end Editor

end ModalEdit
