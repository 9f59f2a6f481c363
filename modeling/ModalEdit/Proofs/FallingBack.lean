import ModalEdit.Proofs.Refusals
import ModalEdit.Proofs.RestingCursor

/-!
# Falling back to Normal mode

A command whose edit the host refuses is abandoned, and so is whatever was begun when a string is
fed that is no key: the session falls back to Normal mode. On a host that selects what it is asked
to, the cursor is then at a Normal position (`falls_back_at_rest`), whichever edits are refused, in a
visual selection, with an operator waiting, or where labels are shown. Undoing may be refused too,
but not half way: the cursor then stays where an edit that was undone had it.

Typing is the exception. In Insert mode the cursor may be past the last character of its line, and
giving a command up pulls the cursor back only out of a visual selection. So an edit that is refused
in Insert mode leaves it where it is, in Normal mode now (`interrupted_past_end`). A history that
interrupts no typing (`interruptedDuring`) keeps the cursor at rest.

The invariant is that of the resting cursor, on a host that may refuse edits (`Poised`). A refused
edit leaves the document and the mode as they are, so the invariant holds at the refusal as well,
and giving the command up keeps it outside Insert mode.
-/

namespace ModalEdit

/-- Keys are fed, in writing or not and readable or not, changes are passed on and registers are
set: nothing touches the document but what the keys ask for. -/
def Happening.isFeeding : Happening → Bool
  | event _ | key _ | keys _ | forward | registersChange _ => true
  | _ => false

namespace Editor

variable {ed : Editor}

/-! ## Abandoned events -/

/-- The host refuses something that the event asks for, and the event is abandoned. -/
def abandons (ed : Editor) (event : InputEvent) : Bool :=
  match dispatch event ed with
  | .error .. => true
  | .ok .. => false

/-- The event is abandoned while text is typed, be it typed again with a repeated change. -/
def interruptsTyping (ed : Editor) (event : InputEvent) : Bool :=
  match dispatch event ed with
  | .error _ refused => refused.session.mode == .insert
  | .ok .. => false

/-- One of the events interrupts typing. -/
def interruptedAmong (ed : Editor) : List InputEvent → Bool
  | [] => false
  | event :: events => ed.interruptsTyping event || (ed.press event).2.interruptedAmong events

/-- What happens interrupts typing. In Insert mode, so does a string that is no key. -/
def interrupts (ed : Editor) : Happening → Bool
  | .event event => ed.interruptsTyping event
  | .key written =>
    match KeyNotation.parse written with
    | some event => ed.interruptsTyping event
    | none => ed.session.mode == .insert
  | .keys written => ed.interruptedAmong (KeyNotation.parseAll written)
  | _ => false

/-- Typing is interrupted during a history. -/
def interruptedDuring (ed : Editor) : List Happening → Bool
  | [] => false
  | x :: history => ed.interrupts x || (ed.happen x).interruptedDuring history

/-! ## At rest while edits are refused -/

/-- The host places the cursor, and it is at rest unless a visual selection is shown. Commands are
executed so. -/
structure Steady (ed : Editor) : Prop where
  places : ed.host.Places
  rests : ed.session.visual = none → ed.host.AtRest

/-- The editor is steady, or text is typed. -/
structure Poised (ed : Editor) : Prop where
  places : ed.host.Places
  rests : ed.session.mode ≠ .insert → ed.session.visual = none → ed.host.AtRest

theorem Steady.poised (h : ed.Steady) : ed.Poised := ⟨h.places, fun _ => h.rests⟩

theorem Poised.steady (h : ed.Poised) (hmode : ed.session.mode ≠ .insert) : ed.Steady :=
  ⟨h.places, h.rests hmode⟩

theorem Steady.congr (h : ed.Steady) {s : Session} (hvisual : s.visual = ed.session.visual) :
    Steady { ed with session := s } :=
  ⟨h.places, fun hs => h.rests (hvisual ▸ hs)⟩

theorem Poised.congr (h : ed.Poised) {s : Session} (hvisual : s.visual = ed.session.visual)
    (hinput : s.input = ed.session.input) : Poised { ed with session := s } := by
  refine ⟨h.places, fun hmode hs => h.rests ?_ (hvisual ▸ hs)⟩
  unfold Session.mode at hmode ⊢
  exact hinput ▸ hmode

theorem Poised.withRecord (h : ed.Poised) (last : Option LastChange) (recording : Bool) :
    (ed.withRecord last recording).Poised :=
  h.congr rfl rfl

theorem Poised.refused (h : ed.Poised) (c : Commit) (refusals : Refusals)
    (journal : List JournalEntry) :
    Poised ⟨ed.session.begin c, { ed.host with editRefusals := refusals, journal }⟩ :=
  ⟨⟨h.places.selections, h.places.undos⟩, h.rests⟩

/-- A cursor that a commit places in Normal mode is at rest, whatever the edit was. -/
theorem poised_placed {host : Host} (hp : host.Places) (s : Session) (c : Commit) :
    Poised ⟨s.committed c, host.placed (.cursor (c.cursor host.text))⟩ := by
  refine ⟨hp.placed _, fun hmode _ => ⟨_, rfl, ?_⟩⟩
  have hrest : c.rest = .normal := by
    cases hrest : c.rest with
    | normal => rfl
    | insert => exact absurd (show c.rest.mode = .insert by rw [hrest]; rfl) hmode
  simp only [Commit.cursor, Rest.place, hrest]
  exact Text.isNormal_restingIndex _ _

/-! ## Work -/

section

variable {c : Commit} {Q : Unit → Editor → Prop} {E : Editor → Prop}

/-- A commit is refused at its edit or not at all. -/
theorem ends_commit_placing (hp : ed.host.Places)
    (hrefused : c.edit ≠ none → ∀ refusals journal,
      E ⟨ed.session.begin c, { ed.host with editRefusals := refusals, journal }⟩)
    (hdone : ∀ host : Host, host.Places →
      Q () ⟨ed.session.committed c, host.placed (.cursor (c.cursor host.text))⟩) :
    Ends (commit c) ed Q E := by
  unfold Ends
  rw [commit_eq]
  cases hr : requestCommitEdit c ed.host with
  | error e host =>
    obtain ⟨edit, hedit, rfl⟩ := requestCommitEdit_refused hr
    exact hrefused (by simp [hedit]) _ _
  | ok _ host =>
    have hhost : host.Places := by
      obtain ⟨-, rfl⟩ | ⟨edit, -, rfl⟩ := requestCommitEdit_granted hr
      · exact hp
      · exact ⟨hp.selections, hp.undos⟩
    dsimp only
    rw [Host.requestSelection_placing hhost]
    exact hdone host hhost

end

theorem poised_commit (h : ed.Poised) (c : Commit) : Leaves (commit c) ed Poised :=
  ends_commit_placing h.places (fun _ => h.refused c) fun _ hp => poised_placed hp _ c

theorem poised_carryOut (h : ed.Steady) (plan : Plan) : Leaves (carryOut plan) ed Poised := by
  cases plan with
  | drop => exact ends_update (h.congr (s := ed.session.dropPending) rfl).poised
  | commit c => exact poised_commit h.poised c
  | select kind ends column =>
    show Ends (select kind ends column) ed _ _
    unfold Ends
    rw [select_eq, Host.requestSelection_placing h.places]
    exact ⟨h.places.placed _, fun _ => nofun⟩

theorem poised_carryOutChange (h : ed.Steady) (plan : Plan) (repeatable : Option Repeatable) :
    Leaves (carryOutChange plan repeatable) ed Poised :=
  ends_carryOutChange_record
    ((poised_carryOut h plan).mono (fun _ _ h => h.withRecord) fun _ h => h)

theorem poised_insertText (h : ed.Poised) (text : Text) : Leaves (insertText text) ed Poised :=
  ends_insertText ((poised_commit h _).mono (fun _ _ h => h.withRecord) fun _ h => h)

theorem poised_eraseChar (h : ed.Poised) : Leaves eraseChar ed Poised :=
  ends_eraseChar h fun c _ => (poised_commit h c).mono (fun _ _ h => h.withRecord) fun _ h => h

theorem poised_leaveInsert (h : ed.Poised) : Leaves leaveInsert ed Poised :=
  ends_leaveInsert (poised_commit (h.withRecord _ _) _)

theorem poised_insertStroke (h : ed.Poised) (k : Stroke) : Leaves (insertStroke k) ed Poised := by
  cases k with
  | char c => exact poised_insertText h [c]
  | backspace => exact poised_eraseChar h
  | escape => exact poised_leaveInsert h

theorem poised_replay (h : ed.Steady) (change : Repeatable) (typed : Text) :
    Leaves (replay change typed) ed Poised := by
  have hprepared : (ed.prepared change).Steady :=
    h.congr (by rw [Session.prepareRepeat_frame])
  refine ends_replay ((poised_carryOut hprepared _).mono ?_ fun _ h => h)
  intro _ ed h
  refine ⟨fun _ => h, fun _ _ => poised_leaveInsert h, fun _ => ?_⟩
  exact (poised_insertText h typed).mono (fun _ _ h => poised_leaveInsert h) fun _ h => h

/-- What comes back is placed on, and a refusal to undo leaves the document as it is. -/
theorem poised_undo (h : ed.Steady) (count : Nat) : Leaves (undo count) ed Poised := by
  refine ends_bind (ends_ask (fun host hok => ?_) fun e host herr => ?_)
  · have hp : host.Places := h.places.of_requestUndo hok
    refine ends_bind (ends_get (ends_commit_placing hp ?_ ?_))
    · exact fun hedit => absurd rfl hedit
    · exact fun _ hp => poised_placed hp _ _
  · rw [h.places.requestUndo_refused herr]
    exact ⟨⟨h.places.selections, .inr rfl⟩, fun _ => h.rests⟩

theorem poised_execute (h : ed.Steady) (command : Command) :
    Leaves (execute command) ed Poised := by
  refine ends_execute ?_ ?_ ?_ ?_ ?_
  · intro plan _
    have hnoted : (ed.noted command).Steady := h.congr (by rw [Session.noteCommand_frame])
    exact poised_carryOutChange hnoted plan _
  · exact fun _ _ _ => (h.congr (by rfl)).poised
  · exact fun count _ => poised_undo h count
  · intro count _
    refine ends_repeatChange (fun _ => (h.congr (by rfl)).poised) fun last _ => ?_
    have hreplaying : ed.replaying.Steady := h.congr rfl
    exact (poised_replay hreplaying _ _).mono (fun _ _ h => h.congr rfl rfl)
      fun _ h => h.congr rfl rfl
  · exact fun _ _ _ _ => (h.congr (by rfl)).poised

/-! ## Giving up -/

/-- The session is idle in Normal mode, and the cursor is at a Normal position. -/
structure FellBack (ed : Editor) : Prop where
  idle : ed.session.input = .idle .normal
  rests : ed.host.AtRest

/-- **Giving a command up leaves the cursor at rest**, unless text is typed. A visual selection
collapses to a resting index. -/
theorem fellBack_reset (h : ed.Steady) : ed.reset.FellBack := by
  refine ⟨rfl, ?_⟩
  rw [reset]
  cases hvisual : ed.session.visual with
  | none => exact h.rests hvisual
  | some ends =>
    dsimp only
    rw [Host.requestSelection_placing h.places]
    exact ⟨_, rfl, Text.isNormal_restingIndex _ _⟩

theorem poised_reset (h : ed.Steady) : ed.reset.Poised := by
  refine ⟨?_, fun _ _ => (fellBack_reset h).rests⟩
  rw [reset]
  cases ed.session.visual with
  | none => exact h.places
  | some ends =>
    dsimp only
    rw [Host.requestSelection_placing h.places]
    exact h.places.placed _

theorem poised_commandChar (h : ed.Steady) (c : Char) :
    Ends (commandChar c) ed (fun _ => Poised) Poised := by
  have hread : ∀ i, (ed.withInput i).Steady := fun i => h.congr rfl
  refine ends_commandChar ?_ ?_ ?_
  · exact fun i _ => (hread i).poised
  · exact fun i _ => poised_reset (hread i)
  · exact fun command i _ => poised_execute (hread i) command

theorem poised_dispatch (h : ed.Poised) (event : InputEvent) :
    Ends (dispatch event) ed (fun _ => Poised) Poised := by
  refine ends_dispatch ?_ (fun _ => h) ?_ fun hmode => poised_reset (h.steady hmode)
  · exact fun _ k _ => poised_insertStroke h k
  · exact fun hmode c _ => poised_commandChar (h.steady hmode) c

/-! ## Giving up while text is typed -/

/-- The session is idle in Normal mode, and the document is as before. -/
structure LeftOff (before after : Editor) : Prop where
  idle : after.session.input = .idle .normal
  text : after.host.text = before.host.text
  selection : after.host.selection = before.host.selection

theorem leftOff_reset (hvisual : ed.session.visual = none) : ed.LeftOff ed.reset := by
  have hhost : ed.reset.host = ed.host := by rw [reset_host, hvisual]
  exact ⟨rfl, by rw [hhost], by rw [hhost]⟩

theorem visual_eq_none_of_insert (hrest : ed.Resting) (hmode : ed.session.mode = .insert) :
    ed.session.visual = none := by
  have hiff := hrest.1.visual_iff
  rw [hrest.1.input.eq_idle hmode] at hiff
  simpa [Input.standing, Input.idle, Mode.isVisual] using hiff

/-- At a refusal the document and the visual selection are as before. -/
def RefusedUntouched (work : Attempt Unit) (ed : Editor) : Prop :=
  Ends work ed (fun _ _ => True) fun refused =>
    refused.session.visual = ed.session.visual ∧ refused.host.text = ed.host.text ∧
      refused.host.selection = ed.host.selection

theorem refusedUntouched_commit (hp : ed.host.Places) (c : Commit) :
    RefusedUntouched (commit c) ed :=
  ends_commit_placing hp (fun _ _ _ => ⟨rfl, rfl, rfl⟩) fun _ _ => trivial

theorem refusedUntouched_insertStroke (hp : ed.host.Places) (k : Stroke) :
    RefusedUntouched (insertStroke k) ed := by
  cases k with
  | char c =>
    exact ends_insertText
      ((refusedUntouched_commit hp _).mono (fun _ _ _ _ _ => trivial) fun _ h => h)
  | backspace =>
    exact ends_eraseChar trivial fun c _ =>
      (refusedUntouched_commit hp c).mono (fun _ _ _ _ _ => trivial) fun _ h => h
  | escape =>
    refine ends_leaveInsert (refusedUntouched_commit ?_ _)
    exact hp

/-- **Typing that is abandoned is left off where it was.** -/
theorem leftOff_press (hp : ed.host.Places) (hrest : ed.Resting)
    (hmode : ed.session.mode = .insert) {event : InputEvent}
    (habandoned : ed.abandons event = true) : ed.LeftOff (ed.press event).2 := by
  have hends : Ends (dispatch event) ed (fun _ _ => True) fun refused =>
      refused.session.visual = ed.session.visual ∧ refused.host.text = ed.host.text ∧
        refused.host.selection = ed.host.selection := by
    refine ends_dispatch (P := fun _ => True) ?_ (fun _ => trivial) ?_ fun _ => trivial
    · exact fun _ k _ => refusedUntouched_insertStroke hp k
    · exact fun hcommand => absurd hmode hcommand
  unfold Ends at hends
  unfold abandons at habandoned
  unfold press
  cases hd : dispatch event ed with
  | ok command after => rw [hd] at habandoned; cases habandoned
  | error e refused =>
    rw [hd] at hends
    obtain ⟨hvisual, htext, hselection⟩ := hends
    have hleft := leftOff_reset (hvisual.trans (visual_eq_none_of_insert hrest hmode))
    exact ⟨hleft.idle, hleft.text.trans htext, hleft.selection.trans hselection⟩

/-! ## Histories -/

/-- **An event that interrupts no typing leaves the editor poised**, and falls back if it is
abandoned. -/
theorem poised_press (h : ed.Poised) {event : InputEvent}
    (hnot : ed.interruptsTyping event = false) :
    (ed.press event).2.Poised ∧ (ed.abandons event = true → (ed.press event).2.FellBack) := by
  have hends := poised_dispatch h event
  unfold Ends at hends
  unfold interruptsTyping at hnot
  unfold press abandons
  cases hd : dispatch event ed with
  | ok command after =>
    rw [hd] at hends
    exact ⟨hends, fun habandoned => by cases habandoned⟩
  | error e refused =>
    rw [hd] at hends hnot
    have hsteady : refused.Steady := by
      refine hends.steady fun hinsert => ?_
      simp [hinsert] at hnot
    exact ⟨poised_reset hsteady, fun _ => fellBack_reset hsteady⟩

theorem poised_pressAll (h : ed.Poised) {events : List InputEvent}
    (hnot : ed.interruptedAmong events = false) : (ed.pressAll events).2.Poised := by
  induction events generalizing ed with
  | nil => exact h
  | cons event events ih =>
    simp only [interruptedAmong, Bool.or_eq_false_iff] at hnot
    exact ih (poised_press h hnot.1).1 hnot.2

theorem poised_happen (h : ed.Poised) {x : Happening} (hx : x.isFeeding = true)
    (hnot : ed.interrupts x = false) : (ed.happen x).Poised := by
  cases x with
  | event event => exact (poised_press h hnot).1
  | key written =>
    simp only [interrupts] at hnot
    simp only [happen, pressKey]
    cases hparse : KeyNotation.parse written with
    | some event =>
      rw [hparse] at hnot
      exact (poised_press h hnot).1
    | none =>
      rw [hparse] at hnot
      refine poised_reset (h.steady fun hinsert => ?_)
      simp [hinsert] at hnot
  | keys written => exact poised_pressAll h hnot
  | forward =>
    simp only [happen, forward]
    split
    · exact h
    · exact ⟨⟨h.places.selections, h.places.undos⟩, h.rests⟩
  | registersChange registers => exact h.congr rfl rfl
  | _ => cases hx

/-- **A history that interrupts no typing keeps the editor poised.** -/
theorem poised_happenAll (h : ed.Poised) {history : List Happening}
    (hfed : ∀ x ∈ history, x.isFeeding = true) (hnot : ed.interruptedDuring history = false) :
    (ed.happenAll history).Poised := by
  induction history generalizing ed with
  | nil => exact h
  | cons x history ih =>
    simp only [interruptedDuring, Bool.or_eq_false_iff] at hnot
    have hstep := poised_happen h (hfed x (by simp)) hnot.1
    exact ih hstep (fun y hy => hfed y (List.mem_cons_of_mem x hy)) hnot.2

/-- **What is abandoned outside Insert mode leaves a Normal cursor.** The host selects what it is
asked to. It may refuse edits, and to undo anything at all. From a Normal position in Normal mode,
keys are fed and no typing is interrupted.

* An event that is then abandoned, but not while text is typed, leaves the session idle in Normal
  mode with the cursor at a Normal position.
* So does a string that is no key, but not in Insert mode.
* In Insert mode both leave the session idle in Normal mode, with the text and the selection as they
  were. -/
theorem falls_back_at_rest {host : Host} (hp : host.Places) {i : Nat}
    (hselection : host.selection = .cursor i) (hi : host.text.IsNormal i) (config : Config)
    (clipboard : Option (Option Text)) {history : List Happening}
    (hfed : ∀ x ∈ history, x.isFeeding = true) {start ed : Editor}
    (hstart : start = ⟨Session.new .normal config clipboard, host⟩)
    (hnot : start.interruptedDuring history = false) (hed : ed = start.happenAll history) :
    (∀ event, ed.abandons event = true → ed.interruptsTyping event = false →
      (ed.press event).2.FellBack) ∧
    (∀ written, KeyNotation.parse written = none → ed.session.mode ≠ .insert →
      (ed.pressKey written).2.FellBack) ∧
    (ed.session.mode = .insert →
      (∀ event, ed.abandons event = true → ed.LeftOff (ed.press event).2) ∧
      ∀ written, KeyNotation.parse written = none → ed.LeftOff (ed.pressKey written).2) := by
  have hpoised : ed.Poised := by
    rw [hed]
    refine poised_happenAll ?_ hfed hnot
    rw [hstart]
    exact ⟨hp, fun _ _ => ⟨i, hselection, hi⟩⟩
  have hrest : ed.Resting := by
    rw [hed, hstart]
    exact resting_happenAll .normal config clipboard host history
  have hreset {written : List Char} (hparse : KeyNotation.parse written = none) :
      (ed.pressKey written).2 = ed.reset := by
    unfold pressKey
    rw [hparse]
  -- a string that is no key only resets
  refine ⟨fun event habandoned hnot => (poised_press hpoised hnot).2 habandoned, ?_, ?_⟩
  · intro written hparse hmode
    rw [hreset hparse]
    exact fellBack_reset (hpoised.steady hmode)
  · intro hmode
    refine ⟨fun event => leftOff_press hpoised.places hrest hmode, fun written hparse => ?_⟩
    rw [hreset hparse]
    exact leftOff_reset (visual_eq_none_of_insert hrest hmode)

/-- A character is not deleted, nothing is undone, and then a visual selection is not deleted
either. -/
theorem falls_back_at_rest_selection :
    let host := ((Host.ofText ['a', 'b'] 0).refuseEdits 2).refuseUndo true
    let start : Editor := ⟨Session.new .normal {} none, host⟩
    let ed := start.happenAll [.event (.text 'x'), .keys ['u', 'v', 'l']]
    ed.session.mode = .visual .charwise ∧ ed.abandons (.text 'd') = true ∧
      (ed.press (.text 'd')).2.FellBack := by
  intro host start ed
  have hnormal : host.text.IsNormal 0 := Or.inl ⟨'a', rfl, by decide⟩
  have hfalls := @falls_back_at_rest host ⟨rfl, .inr rfl⟩ 0 rfl hnormal {} none _ (by decide)
    start ed rfl (by decide) rfl
  have habandoned : ed.abandons (.text 'd') = true := by decide
  exact ⟨by decide, habandoned, hfalls.1 (.text 'd') habandoned (by decide)⟩

/-- The second of two edits is undone and the first one is not, so the cursor stays where the second
edit had it, past the line's last character. -/
example :
    let host := { Host.ofText ['a'] 0 with undosLeft := some 1 }
    let start : Editor := ⟨Session.new .normal {} none, host⟩
    let ed := start.happenAll [.keys ['A', 'b', 'c'], .event (.plain .escape), .keys ['2', 'u']]
    ed.session.mode = .normal ∧ ed.host.text = ['a', 'b'] ∧ ed.host.selection = .cursor 2 := by
  decide

/-- Typing at the end of a line is interrupted, and the cursor stays past the line's last character.
-/
theorem interrupted_past_end :
    let start : Editor := ⟨Session.new .normal {} none, (Host.ofText ['a', 'b'] 0).refuseEdits 1⟩
    let ed := (start.press (.text 'A')).2
    let after := (ed.press (.text 'x')).2
    start.host.Places ∧ start.host.text.IsNormal 0 ∧ ed.abandons (.text 'x') = true ∧
      after.session.mode = .normal ∧ after.host.selection = .cursor 2 ∧
      ¬after.host.text.IsNormal 2 := by
  intro start ed after
  have htext : after.host.text = ['a', 'b'] := by decide
  refine ⟨⟨rfl, .inl rfl⟩, Or.inl ⟨'a', rfl, by decide⟩, by decide, by decide, by decide, ?_⟩
  rw [htext]
  rintro (⟨c, hc, -⟩ | ⟨l, hl, hline, -⟩)
  · cases hc
  · obtain rfl : l = 0 := Nat.le_zero.1 hl
    cases hline

end Editor

end ModalEdit
