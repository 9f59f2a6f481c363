import ModalEdit.Proofs.Granting
import ModalEdit.Proofs.Requests

/-!
# What the host shows

On a host that grants everything and changes nothing by itself, the selection of the host is that of
the ends of the visual selection, for as long as there is one (`Shows`). The ends and the selection
change together: a motion or text object shows new ends, which lie in the text, and every commit
drops them. No key event is refused on such a host (`shows_dispatch`).
-/

namespace ModalEdit.Editor

variable {ed : Editor}

/-- The host grants everything, and it shows the visual selection, if there is one. -/
structure Shows (ed : Editor) : Prop where
  grants : ed.host.Grants
  shown : ∀ ends, ed.session.visual = some ends →
    ends.cursor ≤ ed.host.text.length ∧
      ∃ kind, ed.session.input.standing = .visual kind ∧
        ed.host.selection = ends.selection kind ed.host.text

theorem shows_of_visual_none (hg : ed.host.Grants) (h : ed.session.visual = none) : ed.Shows := by
  refine ⟨hg, fun ends hends => ?_⟩
  rw [h] at hends
  cases hends

/-- What is shown is a matter of the ends and of the standing mode. -/
theorem Shows.congr (h : ed.Shows) {s : Session} (hvisual : s.visual = ed.session.visual)
    (hstanding : s.input.standing = ed.session.input.standing) :
    Shows { ed with session := s } := by
  refine ⟨h.grants, fun ends hends => ?_⟩
  obtain ⟨hcursor, kind, hkind, hselection⟩ := h.shown ends (hvisual ▸ hends)
  exact ⟨hcursor, kind, hstanding.trans hkind, hselection⟩

theorem Shows.withRecord (h : ed.Shows) (last : Option LastChange) (recording : Bool) :
    (ed.withRecord last recording).Shows :=
  h.congr rfl rfl

/-! ## Plans -/

theorem shows_committed (hg : ed.host.Grants) (c : Commit) : (ed.committed c).Shows :=
  shows_of_visual_none (hg.committed c) rfl

theorem shows_dropPending (h : ed.Shows) (hopen : ed.session.Open) :
    Shows { ed with session := ed.session.dropPending } := by
  cases hvisual : ed.session.input.mode.isVisual with
  | true =>
    refine h.congr rfl ?_
    rw [hopen.dropPending.input.standing, hopen.input.standing]
    exact if_pos hvisual
  | false => exact shows_of_visual_none h.grants (hopen.visual_eq_none hvisual)

theorem shows_carried (h : ed.Shows) (hopen : ed.session.Open) {plan : Plan}
    (hplan : plan.Fits ed.host.text) : (ed.carried plan).Shows := by
  cases plan with
  | drop => exact shows_dropPending h hopen
  | commit c => exact shows_committed h.grants c
  | select kind ends column =>
    refine ⟨h.grants.placed _, fun ends' hends => ?_⟩
    cases hends
    exact ⟨hplan, kind, (hopen.highlight kind ends column).input.standing, rfl⟩

/-! ## Work -/

/-- The work is never refused, and what is left shows. -/
def EndsShowing (work : Attempt Unit) (ed : Editor) : Prop :=
  Ends work ed (fun _ ed => ed.Shows) fun _ => False

theorem showing_carryOutChange (h : ed.Shows) (hopen : ed.session.Open) {plan : Plan}
    (hplan : plan.Fits ed.host.text) (repeatable : Option Repeatable) :
    EndsShowing (carryOutChange plan repeatable) ed :=
  ends_carryOutChange_record
    (ends_carryOut_granted h.grants (shows_carried h hopen hplan).withRecord)

theorem showing_insertText (hg : ed.host.Grants) (text : Text) :
    EndsShowing (insertText text) ed :=
  ends_insertText (ends_commit_granted hg (shows_committed hg _).withRecord)

theorem showing_eraseChar (h : ed.Shows) : EndsShowing eraseChar ed :=
  ends_eraseChar h fun c _ =>
    ends_commit_granted h.grants (shows_committed h.grants c).withRecord

theorem showing_leaveInsert (hg : ed.host.Grants) : EndsShowing leaveInsert ed := by
  have hended : (ed.withRecord ed.session.lastChange false).host.Grants := hg
  exact ends_leaveInsert (ends_commit_granted hended (shows_committed hended _))

theorem showing_insertStroke (h : ed.Shows) (k : Stroke) : EndsShowing (insertStroke k) ed := by
  cases k with
  | char c => exact showing_insertText h.grants [c]
  | backspace => exact showing_eraseChar h
  | escape => exact showing_leaveInsert h.grants

theorem showing_replay (hg : ed.host.Grants) (hopen : ed.session.Open)
    (hmode : ed.session.mode = .normal) (change : Repeatable) (typed : Text) :
    EndsShowing (replay change typed) ed := by
  have hprepared := hopen.prepareRepeat hmode change
  have hvisual := prepared_not_visual (congrArg Mode.isVisual hmode) change
  have hshows : (ed.prepared change).Shows :=
    shows_of_visual_none hg (hprepared.visual_eq_none hvisual)
  have hcarried : ((ed.prepared change).carried (ed.planOf change)).Shows :=
    shows_carried hshows hprepared (Session.planRepeatable_fits hvisual change)
  refine ends_replay (ends_carryOut_granted hshows.grants ⟨fun _ => hcarried, ?_, ?_⟩)
  · exact fun _ _ => showing_leaveInsert hcarried.grants
  · intro _
    refine (showing_insertText hcarried.grants typed).mono ?_ fun _ h => h
    exact fun _ _ h => showing_leaveInsert h.grants

theorem showing_execute (h : ed.Shows) (hopen : ed.session.Open) {command : Command}
    (hnormal : command.isNormalOnly = true → ed.session.mode = .normal) :
    EndsShowing (execute command) ed := by
  have hnone (hmode : ed.session.mode = .normal) : ed.session.visual = none :=
    hopen.visual_eq_none (congrArg Mode.isVisual hmode)
  refine ends_execute ?_ ?_ ?_ ?_ ?_
  · intro plan hplan
    have hnoted : (ed.noted command).Shows := by
      refine h.congr ?_ ?_
      · rw [Session.noteCommand_frame]
      · rw [Session.noteCommand_frame]
    refine showing_carryOutChange hnoted (hopen.noteCommand command) ?_ _
    refine Session.planCommand_fits (fun hn => ?_) hplan
    rw [noted_mode]
    exact congrArg Mode.isVisual (hnormal hn)
  · intro op count hcommand
    subst hcommand
    exact shows_of_visual_none h.grants (hnone (hnormal rfl))
  · intro count _
    refine ends_bind (ends_undo_granted h.grants (ends_bind (ends_get (ends_commit_granted ?_ ?_))))
    · exact h.grants.undone _
    · exact shows_committed (h.grants.undone _) _
  · intro count hcommand
    subst hcommand
    refine ends_repeatChange (fun _ => shows_dropPending h hopen) fun last _ => ?_
    have hgrants : ed.replaying.host.Grants := h.grants
    have hreplaying : ed.replaying.session.Open := ⟨hopen.input, hopen.visual_iff, hopen.recording⟩
    refine (showing_replay hgrants hreplaying (hnormal rfl) _ _).mono ?_ fun _ h => h
    exact fun _ _ h => h.congr rfl rfl
  · intro name p count _
    have hmarked : Shows { ed with session := ed.session.mark name p } := h.congr rfl rfl
    exact shows_dropPending hmarked (hopen.mark name p)

/-! ## Keys -/

theorem shows_reset (hg : ed.host.Grants) : ed.reset.Shows := by
  refine shows_of_visual_none ?_ rfl
  unfold reset
  cases ed.session.visual with
  | none => exact hg
  | some ends =>
    dsimp only
    rw [Host.requestSelection_granted hg]
    exact hg.placed _

theorem shows_commandChar (h : ed.Shows) (hrest : ed.Resting)
    (hmode : ed.session.mode ≠ .insert) (c : Char) :
    Ends (commandChar c) ed (fun _ ed => ed.Shows) fun _ => False := by
  have hread := Input.read_sound hrest.1.input hmode ed.host.text ed.session.config c
  refine ends_commandChar ?_ (fun _ _ => shows_reset h.grants) ?_
  · intro i hi
    rw [hi] at hread
    exact h.congr rfl hread.2
  · intro command i hi
    obtain ⟨hopen, hnormal⟩ := open_of_read hrest hmode hi
    rw [hi] at hread
    have hinput : (ed.withInput i).Shows := h.congr rfl (hread.1.standing.trans hread.2)
    exact showing_execute hinput hopen hnormal

/-- **No key event is refused, and every one leaves the host showing the visual selection.** -/
theorem shows_dispatch (h : ed.Shows) (hrest : ed.Resting) (event : InputEvent) :
    Ends (dispatch event) ed (fun _ ed => ed.Shows) fun _ => False := by
  refine ends_dispatch ?_ (fun _ => h) ?_ fun _ => shows_reset h.grants
  · exact fun _ k _ => showing_insertStroke h k
  · exact fun hmode c _ => shows_commandChar h hrest hmode c

/-- The editor is between key events, and the host shows its visual selection. -/
def RestsShowing (ed : Editor) : Prop := ed.Resting ∧ ed.Shows

theorem restsShowing_press (h : ed.RestsShowing) (event : InputEvent) :
    (ed.press event).2.RestsShowing :=
  ⟨resting_press h.1 event, press_of_ends (shows_dispatch h.2 h.1 event) fun _ => False.elim⟩

theorem restsShowing_happen (h : ed.RestsShowing) {x : Happening} (hx : x.isInput = true) :
    (ed.happen x).RestsShowing := by
  cases x with
  | event e => exact restsShowing_press h e
  | key written =>
    obtain ⟨e, he⟩ := Option.isSome_iff_exists.1 hx
    simp only [happen, pressKey, he]
    exact restsShowing_press h e
  | keys written => exact keeps_keys (P := RestsShowing) (fun _ e h => restsShowing_press h e) h _
  | forward =>
    refine ⟨resting_happen h.1 .forward, ?_⟩
    simp only [happen, forward]
    split
    · exact h.2
    · exact ⟨⟨h.2.grants.edits, h.2.grants.selections, h.2.grants.undos⟩, h.2.shown⟩
  | registersChange registers =>
    exact ⟨resting_happen h.1 (.registersChange registers), h.2.congr rfl rfl⟩
  | _ => cases hx

/-- **The host shows the visual selection after every run of keys.** -/
theorem restsShowing_happenAll (h : ed.RestsShowing) {history : List Happening}
    (hinput : ∀ x ∈ history, x.isInput = true) : (ed.happenAll history).RestsShowing :=
  history_induction (P := RestsShowing) (fun _ _ hx h => restsShowing_happen h hx) h history hinput

end ModalEdit.Editor
