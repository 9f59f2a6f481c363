import ModalEdit.Proofs.Commands
import ModalEdit.Proofs.History
import ModalEdit.Proofs.Reading

/-!
# Sound sessions

A session is *sound* when its partial input is, the ends of a visual selection are there exactly in
Visual mode or under the labels of a jump that goes back to it, and what is typed is recorded only
in Insert mode with a change to extend. A session is *open* when it is sound outside Insert mode and
shows no labels; commands are executed by open sessions.

Every key event keeps soundness on every host (`resting_press`), whatever plan it comes to: a commit
settles in Normal or Insert mode with no partial input, a refusal falls back to Normal mode, and a
plan without a target only drops partial input.
-/

namespace ModalEdit

namespace Session

variable {s : Session}

/-- A session as it is between key events. -/
structure Sound (s : Session) : Prop where
  input : s.input.Sound
  visual_iff : s.visual.isSome = true ↔ s.input.standing.isVisual = true
  recording : s.recording = true → s.input.mode = .insert ∧ s.lastChange.isSome = true

/-- A session that can execute a command. -/
structure Open (s : Session) : Prop where
  input : s.input.Open
  visual_iff : s.visual.isSome = true ↔ s.input.mode.isVisual = true
  recording : s.recording = false

theorem Open.sound (h : s.Open) : s.Sound where
  input := .opened h.input
  visual_iff := by rw [h.input.standing]; exact h.visual_iff
  recording := by simp [h.recording]

theorem Sound.open_of (h : s.Sound) (hinsert : s.mode ≠ .insert) (hjump : s.mode ≠ .jump) :
    s.Open where
  input := h.input.open_of hinsert hjump
  visual_iff := by rw [h.visual_iff, (h.input.open_of hinsert hjump).standing]
  recording := Bool.eq_false_iff.2 fun hr => hinsert (h.recording hr).1

theorem sound_of_idle (rest : Rest) (hinput : s.input = .idle rest.mode) (hvisual : s.visual = none)
    (hrecording : s.recording = true → rest = .insert ∧ s.lastChange.isSome = true) : s.Sound := by
  refine ⟨?_, ?_, fun hr => ?_⟩
  · rw [hinput]
    exact Input.sound_idle _ (by cases rest <;> simp [Rest.mode])
  · rw [hinput, hvisual]
    cases rest <;> simp [Input.standing, Input.idle, Rest.mode, Mode.isVisual]
  · obtain ⟨rfl, hlast⟩ := hrecording hr
    exact ⟨by rw [hinput]; rfl, hlast⟩

theorem sound_new (rest : Rest) (config : Config) (clipboard : Option (Option Text)) :
    (Session.new rest.mode config clipboard).Sound :=
  sound_of_idle rest rfl rfl nofun

theorem sound_abandon (s : Session) : s.abandon.Sound :=
  sound_of_idle .normal rfl rfl nofun

/-! ## Updates of open sessions -/

theorem Open.visual_eq_none (h : s.Open) (hmode : s.input.mode.isVisual = false) :
    s.visual = none := by
  have hvisual := h.visual_iff
  rw [hmode] at hvisual
  simpa using hvisual

theorem Open.dropPending (h : s.Open) : s.dropPending.Open := by
  have hgroups := h.input.no_groups
  cases hv : s.input.mode.isVisual with
  | true =>
    have hmode : s.dropPending.input = .idle s.input.mode := by
      simp [Session.dropPending, mode, hv, Input.switch, Input.idle, hgroups]
    refine ⟨?_, by rw [hmode]; exact h.visual_iff, h.recording⟩
    rw [hmode]
    refine ⟨h.input.mode_ne_insert, h.input.mode_ne_jump, Input.not_awaitsLabel rfl, rfl, ?_⟩
    suffices s.input.mode ≠ .operatorPending by simpa [Input.idle] using this
    intro hop
    rw [hop] at hv
    cases hv
  | false =>
    have hmode : s.dropPending.input = .idle .normal := by
      simp [Session.dropPending, mode, hv, Input.switch, Input.idle, hgroups]
    have hvisual : ¬s.visual.isSome = true := fun hs => by simp [h.visual_iff.1 hs] at hv
    refine ⟨hmode ▸ Input.open_idle_normal, ?_, h.recording⟩
    rw [hmode]
    simpa [Input.idle, Mode.isVisual, Session.dropPending] using hvisual

theorem Open.highlight (h : s.Open) (kind : VisualKind) (ends : Endpoints) (column : ColumnRule) :
    (s.highlight kind ends column).Open where
  input := ⟨nofun, nofun, Input.not_awaitsLabel rfl, h.input.no_groups,
    by simp [Session.highlight, Input.switch]⟩
  visual_iff := by simp [Session.highlight, Input.switch, Mode.isVisual]
  recording := h.recording

theorem Open.awaitMotion (h : s.Open) (hmode : s.input.mode = .normal) (op : Operator)
    (count : Option Nat) : (s.awaitMotion op count).Open where
  input := ⟨nofun, nofun, Input.not_awaitsLabel rfl, h.input.no_groups,
    by simp [Session.awaitMotion, Input.awaitMotion, Input.switch]⟩
  visual_iff := by
    have hvisual := h.visual_eq_none (by rw [hmode]; rfl)
    simp [Session.awaitMotion, Input.awaitMotion, Input.switch, Mode.isVisual, hvisual]
  recording := h.recording

theorem Open.noteFind (h : s.Open) (m : Motion) : (s.noteFind m).Open := by
  rw [noteFind_frame]
  exact ⟨h.input, h.visual_iff, h.recording⟩

theorem Open.noteCommand (h : s.Open) (command : Command) : (s.noteCommand command).Open := by
  rw [noteCommand_frame]
  exact ⟨h.input, h.visual_iff, h.recording⟩

theorem Open.mark (h : s.Open) (name : Char) (p : Position) : (s.mark name p).Open :=
  ⟨h.input, h.visual_iff, h.recording⟩

theorem Open.prepareRepeat (h : s.Open) (hmode : s.input.mode = .normal) (command : Repeatable) :
    (s.prepareRepeat command).Open := by
  cases command with
  | operateMotion op m count => exact (h.awaitMotion hmode op none).noteFind m
  | operateObject op o scope count => exact h.awaitMotion hmode op none
  | _ => exact h

/-- A commit settles soundly when no labels are shown, and in Insert mode if typing is recorded. -/
theorem sound_settle (c : Commit) (hgroups : s.input.jumpGroups = [])
    (hrecording : s.recording = true → c.rest = .insert ∧ s.lastChange.isSome = true) :
    (((s.begin c).afterEdit c).settle c).Sound :=
  sound_of_idle c.rest (by simp [settle, afterEdit, begin, Input.switch, Input.idle, hgroups]) rfl
    hrecording

/-! ## Recording -/

theorem Sound.recordChange (h : s.Sound) (command : Repeatable) :
    (s.recordChange command).Sound := by
  unfold Session.recordChange
  split
  · exact h
  · exact ⟨h.input, h.visual_iff, fun hr => ⟨of_decide_eq_true hr, rfl⟩⟩

theorem Sound.recordTyped (h : s.Sound) (text : Text) : (s.recordTyped text).Sound := by
  unfold Session.recordTyped
  split
  · refine ⟨h.input, h.visual_iff, fun hr => ?_⟩
    obtain ⟨hmode, hlast⟩ := h.recording hr
    exact ⟨hmode, by simpa using hlast⟩
  · exact h

theorem Sound.recordErased (h : s.Sound) : s.recordErased.Sound := by
  unfold Session.recordErased
  split
  · refine ⟨h.input, h.visual_iff, fun hr => ?_⟩
    obtain ⟨hmode, hlast⟩ := h.recording hr
    exact ⟨hmode, by simpa using hlast⟩
  · exact h

theorem planErase_rest {t : Text} {sel : Selection} {c : Commit} (h : s.planErase t sel = some c) :
    c.rest = .insert := by
  simp only [planErase, Option.ite_none_left_eq_some, Option.some.injEq] at h
  obtain ⟨-, rfl⟩ := h
  rfl

/-! ## Reports of the host -/

theorem Sound.noteSelections (h : s.Sound) (selections : List Selection) :
    (s.noteSelections selections).Sound := by
  cases selections with
  | nil => exact h
  | cons sel rest =>
    simp only [Session.noteSelections]
    cases hmode : s.mode with
    | normal =>
      have hopen : s.Open := h.open_of (by simp [hmode]) (by simp [hmode])
      dsimp only
      split
      · exact h
      · exact (hopen.highlight .charwise sel.endpoints .keep).sound
    | visual kind =>
      have hopen : s.Open := h.open_of (by simp [hmode]) (by simp [hmode])
      dsimp only
      split
      · refine sound_of_idle .normal ?_ rfl fun hr => ?_
        · simp [Input.switch, Input.idle, hopen.input.no_groups, Rest.mode]
        · exact absurd hr (by simp [hopen.recording])
      · exact h
    | _ => exact h

theorem noteSelections_replaying (s : Session) (selections : List Selection) :
    (s.noteSelections selections).replaying = s.replaying := by
  unfold noteSelections
  split
  · rfl
  · split
    · split <;> rfl
    · split <;> rfl
    · rfl

end Session

/-! ## Work -/

namespace Editor

variable {ed : Editor} {r : Bool}

/-- Work done leaves a sound session. Done or refused, it leaves the session replaying exactly if
`r` says so. -/
def Settles (work : Attempt Unit) (ed : Editor) (r : Bool) : Prop :=
  Ends work ed (fun _ ed => ed.session.Sound ∧ ed.session.replaying = r)
    (fun ed => ed.session.replaying = r)

theorem settles_commit {c : Commit} (hgroups : ed.session.input.jumpGroups = [])
    (hrecording : ed.session.recording = true →
      c.rest = .insert ∧ ed.session.lastChange.isSome = true)
    (hr : ed.session.replaying = r) : Settles (commit c) ed r :=
  ends_commit (fun _ => hr) (fun _ => hr)
    fun _ => ⟨Session.sound_settle c hgroups hrecording, hr⟩

theorem settles_carryOut (h : ed.session.Open) (hr : ed.session.replaying = r) (plan : Plan) :
    Settles (carryOut plan) ed r := by
  cases plan with
  | drop => exact ends_update ⟨h.dropPending.sound, hr⟩
  | commit c => exact settles_commit h.input.no_groups (by simp [h.recording]) hr
  | select kind ends column =>
    exact ends_select (fun _ => hr) fun _ => ⟨(h.highlight kind ends column).sound, hr⟩

/-! ### Insert mode -/

/-- The session is sound and in Insert mode, and replays exactly if `r` says so. -/
structure Typing (ed : Editor) (r : Bool) : Prop where
  sound : ed.session.Sound
  mode : ed.session.input.mode = .insert
  replaying : ed.session.replaying = r

theorem Typing.no_groups (h : ed.Typing r) : ed.session.input.jumpGroups = [] := by
  rw [h.sound.input.eq_idle h.mode]
  rfl

/-- A commit that stays in Insert mode goes on typing. -/
theorem typing_commit (h : ed.Typing r) {c : Commit} (hrest : c.rest = .insert) :
    Ends (commit c) ed (fun _ ed => ed.Typing r) (fun ed => ed.session.replaying = r) := by
  refine ends_commit (fun _ => h.replaying) (fun _ => h.replaying) fun _ => ⟨?_, ?_, h.replaying⟩
  · exact Session.sound_settle c h.no_groups fun hr => ⟨hrest, (h.sound.recording hr).2⟩
  · show c.rest.mode = .insert
    rw [hrest]
    rfl

theorem typing_insertText (h : ed.Typing r) (text : Text) :
    Ends (insertText text) ed (fun _ ed => ed.Typing r) (fun ed => ed.session.replaying = r) := by
  refine ends_bind (ends_planned (ends_bind ?_))
  refine (typing_commit h rfl).mono ?_ fun _ h => h
  intro _ ed h
  refine ends_update ⟨h.sound.recordTyped text, ?_, ?_⟩
  · rw [Session.recordTyped_frame]; exact h.mode
  · rw [Session.recordTyped_frame]; exact h.replaying

theorem typing_eraseChar (h : ed.Typing r) :
    Ends eraseChar ed (fun _ ed => ed.Typing r) (fun ed => ed.session.replaying = r) := by
  refine ends_bind (ends_planned ?_)
  cases hplan : ed.session.planErase ed.host.text ed.host.selection with
  | none => exact h
  | some c =>
    refine ends_bind ((typing_commit h (Session.planErase_rest hplan)).mono ?_ fun _ h => h)
    intro _ ed h
    refine ends_update ⟨h.sound.recordErased, ?_, ?_⟩
    · rw [Session.recordErased_frame]; exact h.mode
    · rw [Session.recordErased_frame]; exact h.replaying

theorem settles_leaveInsert (h : ed.Typing r) : Settles leaveInsert ed r :=
  ends_bind (ends_planned (ends_bind (ends_update (settles_commit h.no_groups nofun h.replaying))))

/-! ### Commands -/

theorem settles_replay (h : ed.session.Open) (hmode : ed.session.input.mode = .normal)
    (hr : ed.session.replaying = r) (change : Repeatable) (typed : Text) :
    Settles (replay change typed) ed r := by
  have hprepared : (ed.prepared change).session.replaying = r := by
    unfold prepared
    rw [Session.prepareRepeat_frame]
    exact hr
  have hplan := settles_carryOut (h.prepareRepeat hmode change) hprepared (ed.planOf change)
  refine ends_replay (hplan.mono ?_ fun _ h => h)
  intro _ ed h
  obtain ⟨hs, hr⟩ := h
  refine ⟨fun _ => ⟨hs, hr⟩, fun hinsert _ => settles_leaveInsert ⟨hs, hinsert, hr⟩, ?_⟩
  intro hinsert
  refine (typing_insertText ⟨hs, hinsert, hr⟩ typed).mono ?_ fun _ h => h
  exact fun _ _ h => settles_leaveInsert h

theorem settles_repeatChange (h : ed.session.Open) (hmode : ed.session.input.mode = .normal)
    (hr : ed.session.replaying = false) (count : Nat) : Settles (repeatChange count) ed false := by
  refine ends_repeatChange (fun _ => ⟨h.dropPending.sound, hr⟩) ?_
  intro last _
  have hopen : ed.replaying.session.Open := ⟨h.input, h.visual_iff, h.recording⟩
  refine (settles_replay hopen hmode rfl _ _).mono ?_ fun _ _ => rfl
  intro _ ed h
  exact ⟨⟨h.1.input, h.1.visual_iff, h.1.recording⟩, rfl⟩

theorem settles_undo (h : ed.session.Open) (hr : ed.session.replaying = r) (count : Nat) :
    Settles (undo count) ed r := by
  refine ends_bind (ends_ask (fun host _ => ends_bind (ends_get ?_)) fun _ _ _ => hr)
  exact settles_commit h.input.no_groups (by simp [h.recording]) hr

theorem settles_carryOutChange (h : ed.session.Open) (hr : ed.session.replaying = r) (plan : Plan)
    (repeatable : Option Repeatable) : Settles (carryOutChange plan repeatable) ed r := by
  refine ends_carryOutChange ((settles_carryOut h hr plan).mono ?_ fun _ h => h)
  intro _ ed h
  obtain ⟨hs, hr⟩ := h
  refine ⟨fun change _ _ => ⟨hs.recordChange change, ?_⟩, hs, hr⟩
  rw [Session.recordChange_frame]
  exact hr

/-- **Executing a command keeps the session sound.** -/
theorem settles_execute (h : ed.session.Open) {command : Command}
    (hnormal : command.isNormalOnly = true → ed.session.input.mode = .normal)
    (hr : ed.session.replaying = false) : Settles (execute command) ed false := by
  have hnoted : (ed.noted command).session.replaying = false := by
    unfold noted
    rw [Session.noteCommand_frame]
    exact hr
  refine ends_execute ?_ ?_ ?_ ?_ ?_
  · intro plan _
    exact settles_carryOutChange (h.noteCommand command) hnoted plan _
  · intro op count hcommand
    subst hcommand
    exact ⟨(h.awaitMotion (hnormal rfl) op count).sound, hr⟩
  · exact fun count _ => settles_undo h hr count
  · intro count hcommand
    subst hcommand
    exact settles_repeatChange h (hnormal rfl) hr count
  · exact fun name p _ _ => ⟨(h.mark name p).dropPending.sound, hr⟩

/-! ## Keys -/

/-- The session is sound and nothing is being repeated, as between key events. -/
def Resting (ed : Editor) : Prop :=
  ed.session.Sound ∧ ed.session.replaying = false

theorem resting_reset (h : ed.session.replaying = false) : ed.reset.Resting :=
  ⟨Session.sound_abandon ed.session, h⟩

/-- The command that a key completes is executed by an open session, in Normal mode if it is one of
Normal mode only. -/
theorem open_of_read (h : ed.Resting) (hmode : ed.session.mode ≠ .insert) {c : Char}
    {command : Command} {i : Input}
    (hread : ed.session.input.read ed.host.text ed.session.config c = (.command command, i)) :
    (ed.withInput i).session.Open ∧
      (command.isNormalOnly = true → (ed.withInput i).session.mode = .normal) := by
  obtain ⟨hs, -⟩ := h
  have hsound := Input.read_sound hs.input hmode ed.host.text ed.session.config c
  have hnormal := ed.session.input.read_inNormal ed.host.text ed.session.config c
  rw [hread] at hsound hnormal
  obtain ⟨hinput, hstanding⟩ := hsound
  refine ⟨⟨hinput, ?_, ?_⟩, hnormal⟩
  · show _ ↔ i.mode.isVisual = true
    rw [hstanding]
    exact hs.visual_iff
  · exact Bool.eq_false_iff.2 fun hrecording => hmode (hs.recording hrecording).1

theorem resting_commandChar (h : ed.Resting) (hmode : ed.session.input.mode ≠ .insert) (c : Char) :
    Ends (commandChar c) ed (fun _ ed => ed.Resting) (fun ed => ed.session.replaying = false) := by
  obtain ⟨hs, hr⟩ := h
  have hread := Input.read_sound hs.input hmode ed.host.text ed.session.config c
  have hrecording : ed.session.recording ≠ true := fun hrec => hmode (hs.recording hrec).1
  refine ends_commandChar ?_ ?_ ?_
  · intro i hi
    rw [hi] at hread
    obtain ⟨hinput, hstanding⟩ := hread
    refine ⟨⟨hinput, ?_, fun hrec => absurd hrec hrecording⟩, hr⟩
    show _ ↔ i.standing.isVisual = true
    rw [hstanding]
    exact hs.visual_iff
  · exact fun i _ => resting_reset hr
  · intro command i hi
    obtain ⟨hopen, hnormal⟩ := open_of_read ⟨hs, hr⟩ hmode hi
    exact settles_execute hopen hnormal hr

theorem resting_insertStroke (h : ed.Typing false) (k : Stroke) :
    Ends (insertStroke k) ed (fun _ ed => ed.Resting) (fun ed => ed.session.replaying = false) := by
  cases k with
  | char c =>
    refine (typing_insertText h [c]).mono ?_ fun _ h => h
    exact fun _ _ h => ⟨h.sound, h.replaying⟩
  | backspace =>
    refine (typing_eraseChar h).mono ?_ fun _ h => h
    exact fun _ _ h => ⟨h.sound, h.replaying⟩
  | escape => exact settles_leaveInsert h

/-- A key event leaves the editor resting when its work is done, and able to when it is refused. -/
theorem resting_dispatch (h : ed.Resting) (event : InputEvent) :
    Ends (dispatch event) ed (fun _ ed => ed.Resting) (fun ed => ed.session.replaying = false) := by
  refine ends_dispatch ?_ (fun _ => h) ?_ fun _ => resting_reset h.2
  · exact fun hinsert k _ => resting_insertStroke ⟨h.1, hinsert, h.2⟩ k
  · exact fun hmode c _ => resting_commandChar h hmode c

/-- **Key events keep the editor resting, refused or not.** -/
theorem resting_press (h : ed.Resting) (event : InputEvent) : (ed.press event).2.Resting :=
  press_of_ends (resting_dispatch h event) fun _ => resting_reset

theorem resting_happen (h : ed.Resting) (x : Happening) : (ed.happen x).Resting := by
  have hpress : ∀ (ed : Editor) (e : InputEvent), ed.Resting → (ed.press e).2.Resting :=
    fun _ e h => resting_press h e
  cases x with
  | event e => exact resting_press h e
  | key written => exact keeps_key hpress (fun _ h => resting_reset h.2) h written
  | keys written => exact keeps_keys hpress h _
  | forward =>
    simp only [happen, forward]
    split
    · exact h
    · exact ⟨⟨h.1.input, h.1.visual_iff, h.1.recording⟩, h.2⟩
  | changesReported after changes => exact ⟨⟨h.1.input, h.1.visual_iff, h.1.recording⟩, h.2⟩
  | selectionsReported selections =>
    exact ⟨h.1.noteSelections selections, (Session.noteSelections_replaying _ _).trans h.2⟩
  | hostChanges host => exact h
  | registersChange registers => exact ⟨⟨h.1.input, h.1.visual_iff, h.1.recording⟩, h.2⟩

/-- Editors made from new sessions rest after every history. -/
theorem resting_happenAll (rest : Rest) (config : Config) (clipboard : Option (Option Text))
    (host : Host) (history : List Happening) :
    ((⟨Session.new rest.mode config clipboard, host⟩ : Editor).happenAll history).Resting := by
  have hnew : (⟨Session.new rest.mode config clipboard, host⟩ : Editor).Resting :=
    ⟨Session.sound_new rest config clipboard, rfl⟩
  exact history_induction (P := Resting) (A := fun _ => True)
    (fun _ x _ h => resting_happen h x) hnew history fun _ _ => trivial

end Editor

end ModalEdit
