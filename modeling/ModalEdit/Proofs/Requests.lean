import ModalEdit.Proofs.Bounds
import ModalEdit.Proofs.Soundness

/-!
# Requests inside the text

Every edit that is requested lies in the text at that moment, and so does every selection
(`requests_within`), whatever the host refuses, whatever becomes of its text and selection between
key events and whatever it reports. The journal of the host keeps each request with the length of
the text it met, so the law is an invariant of the journal: a plan fits the text it is planned on,
and the host's text is that one until the plan's edit is made.
-/

namespace ModalEdit

/-- The request of an entry lies in the text it met. -/
def JournalEntry.Within : JournalEntry → Prop
  | edit length e _ => e.Within length
  | select length s _ => s.Within length
  | undo _ | elsewhere _ => True

namespace Host

variable {h : Host}

/-- Every request so far lay in the text it met. -/
def AllWithin (h : Host) : Prop :=
  ∀ entry ∈ h.journal, entry.Within

theorem AllWithin.cons (hall : h.AllWithin) {h' : Host} {entry : JournalEntry}
    (hjournal : h'.journal = entry :: h.journal) (hentry : entry.Within) : h'.AllWithin := by
  intro x hx
  rw [hjournal] at hx
  rcases List.mem_cons.1 hx with rfl | hx
  · exact hentry
  · exact hall x hx

theorem allWithin_requestEdit (hall : h.AllWithin) {e : Edit} (he : e.Within h.text.length) :
    (after (requestEdit e h)).AllWithin := by
  simp only [requestEdit]
  split
  · exact hall.cons rfl he
  · exact hall.cons rfl he

theorem allWithin_requestSelection (hall : h.AllWithin) {s : Selection}
    (hs : s.Within h.text.length) : (after (requestSelection s h)).AllWithin := by
  simp only [requestSelection]
  split
  · exact hall.cons rfl hs
  · exact hall.cons rfl hs

theorem allWithin_requestUndo (hall : h.AllWithin) (n : Nat) :
    (after (requestUndo n h)).AllWithin := by
  simp only [requestUndo]
  split
  · exact hall.cons rfl trivial
  · split
    · exact hall.cons rfl trivial
    · exact hall.cons rfl trivial

end Host

theorem Selection.cursor_within {i length : Nat} (h : i ≤ length) : (cursor i).Within length :=
  ⟨h, h⟩

namespace Editor

variable {ed : Editor}

/-- Every request so far lay in the text it met. -/
def InBounds (ed : Editor) : Prop := ed.host.AllWithin

/-- **A commit whose edit fits requests nothing outside the text.** The cursor fits the text that
the edit leaves. -/
theorem inBounds_commit (h : ed.InBounds) {c : Commit} (hc : (Plan.commit c).Fits ed.host.text) :
    Leaves (commit c) ed InBounds := by
  have hedit : (Host.after (requestCommitEdit c ed.host)).AllWithin := by
    unfold requestCommitEdit
    cases hce : c.edit with
    | none => exact h
    | some e => exact Host.allWithin_requestEdit h (hc e hce)
  refine Ends.mono (ends_commit_requests (H := Host.AllWithin) (E := InBounds) ?_ ?_)
    (fun _ _ h => h) fun _ h => h.elim id id
  · intro e host hr
    rw [hr] at hedit
    exact hedit
  · intro edited hr
    rw [hr] at hedit
    exact Host.allWithin_requestSelection hedit (Selection.cursor_within (c.cursor_le _))

theorem inBounds_carryOut (h : ed.InBounds) {plan : Plan} (hplan : plan.Fits ed.host.text) :
    Leaves (carryOut plan) ed InBounds := by
  cases plan with
  | drop => exact ends_update h
  | commit c => exact inBounds_commit h hplan
  | select kind ends column =>
    refine ends_bind (ends_get (ends_bind ?_))
    have hwithin := Endpoints.selection_within hplan kind
    refine (leaves_ask (P := InBounds) ?_).mono (fun _ _ h => ends_update h) fun _ h => h
    exact Host.allWithin_requestSelection h hwithin

theorem inBounds_carryOutChange (h : ed.InBounds) {plan : Plan} (hplan : plan.Fits ed.host.text)
    (repeatable : Option Repeatable) : Leaves (carryOutChange plan repeatable) ed InBounds :=
  ends_carryOutChange_record
    ((inBounds_carryOut h hplan).mono (fun _ _ h _ _ => h) fun _ h => h)

/-! ## Insert mode -/

theorem inBounds_insertText (h : ed.InBounds) (hmode : ed.session.mode = .insert) (text : Text) :
    Leaves (insertText text) ed InBounds :=
  ends_insertText ((inBounds_commit h (Session.planType_fits hmode text)).mono
    (fun _ _ h _ _ => h) fun _ h => h)

theorem inBounds_eraseChar (h : ed.InBounds) (hmode : ed.session.mode = .insert) :
    Leaves eraseChar ed InBounds := by
  refine ends_eraseChar h fun c hplan => ?_
  have hfits := Session.planErase_fits hmode hplan
  exact (inBounds_commit h hfits).mono (fun _ _ h _ _ => h) fun _ h => h

theorem inBounds_leaveInsert (h : ed.InBounds) : Leaves leaveInsert ed InBounds := by
  refine ends_leaveInsert (inBounds_commit ?_ (Plan.fits_of_no_edit rfl))
  exact h

/-! ## Commands -/

/-- An operator that waits is not in Visual mode. -/
theorem prepared_not_visual (h : ed.session.mode.isVisual = false) (change : Repeatable) :
    (ed.prepared change).session.mode.isVisual = false := by
  cases change with
  | operateMotion op m count => cases m <;> rfl
  | operateObject op o scope count => rfl
  | _ => exact h

/-- Repeating plans on the text as it comes to it: the change, then the typed text, then leaving. -/
theorem inBounds_replay (h : ed.InBounds) (hmode : ed.session.mode.isVisual = false)
    (change : Repeatable) (typed : Text) : Leaves (replay change typed) ed InBounds := by
  have hplan : Leaves (carryOut (ed.planOf change)) (ed.prepared change) InBounds := by
    have hin : (ed.prepared change).InBounds := h
    exact inBounds_carryOut hin
      (Session.planRepeatable_fits (prepared_not_visual hmode change) change)
  refine ends_replay (hplan.mono ?_ fun _ h => h)
  intro _ ed h
  refine ⟨fun _ => h, fun _ _ => inBounds_leaveInsert h, fun hinsert => ?_⟩
  refine (inBounds_insertText h hinsert typed).mono ?_ fun _ h => h
  exact fun _ _ h => inBounds_leaveInsert h

theorem inBounds_undo (h : ed.InBounds) (count : Nat) : Leaves (undo count) ed InBounds := by
  have hask := leaves_ask (P := InBounds) (Host.allWithin_requestUndo h (max count 1))
  refine ends_bind (hask.mono ?_ fun _ h => h)
  exact fun _ _ h => ends_bind (ends_get (inBounds_commit h (Plan.fits_of_no_edit rfl)))

theorem inBounds_execute (h : ed.InBounds) {command : Command}
    (hnormal : command.isNormalOnly = true → ed.session.mode = .normal) :
    Leaves (execute command) ed InBounds := by
  have hvisual : command.isNormalOnly = true → ed.session.mode.isVisual = false := by
    intro hn
    rw [hnormal hn]
    rfl
  refine ends_execute ?_ ?_ ?_ ?_ ?_
  · intro plan hplan
    have hnoted : command.isNormalOnly = true →
        (ed.noted command).session.mode.isVisual = false := by
      rw [noted_mode]
      exact hvisual
    have hin : (ed.noted command).InBounds := h
    exact inBounds_carryOutChange hin (Session.planCommand_fits hnoted hplan) _
  · exact fun _ _ _ => h
  · exact fun count _ => inBounds_undo h count
  · intro count hcommand
    subst hcommand
    have hin : ed.replaying.InBounds := h
    exact ends_repeatChange (fun _ => h) fun last _ => inBounds_replay hin (hvisual rfl) _ _
  · exact fun _ _ _ _ => h

/-! ## Histories -/

theorem inBounds_reset (h : ed.InBounds) : ed.reset.InBounds := by
  unfold reset InBounds
  cases ed.session.visual with
  | none => exact h
  | some ends =>
    have hplace := Host.allWithin_requestSelection h
      (Selection.cursor_within (ed.host.text.restingIndex_le ends.cursor))
    dsimp only
    cases hs : Host.requestSelection (.cursor (ed.host.text.restingIndex ends.cursor)) ed.host with
    | error e host => rw [hs] at hplace; exact hplace
    | ok _ host => rw [hs] at hplace; exact hplace

theorem inBounds_commandChar (h : ed.InBounds) (hrest : ed.Resting)
    (hmode : ed.session.mode ≠ .insert) (c : Char) : Leaves (commandChar c) ed InBounds := by
  refine ends_commandChar (fun _ _ => h) ?_ ?_
  · intro i _
    have hin : (ed.withInput i).InBounds := h
    exact inBounds_reset hin
  · intro command i hi
    obtain ⟨-, hnormal⟩ := open_of_read hrest hmode hi
    have hin : (ed.withInput i).InBounds := h
    exact inBounds_execute hin hnormal

theorem inBounds_insertStroke (h : ed.InBounds) (hmode : ed.session.mode = .insert) (k : Stroke) :
    Leaves (insertStroke k) ed InBounds := by
  cases k with
  | char c => exact inBounds_insertText h hmode [c]
  | backspace => exact inBounds_eraseChar h hmode
  | escape => exact inBounds_leaveInsert h

theorem inBounds_dispatch (h : ed.InBounds) (hrest : ed.Resting) (event : InputEvent) :
    Leaves (dispatch event) ed InBounds := by
  refine ends_dispatch ?_ (fun _ => h) ?_ fun _ => inBounds_reset h
  · exact fun hinsert k _ => inBounds_insertStroke h hinsert k
  · exact fun hmode c _ => inBounds_commandChar h hrest hmode c

/-- The editor is between key events, and every request so far lay in the text it met. -/
def RestsInBounds (ed : Editor) : Prop := ed.Resting ∧ ed.InBounds

theorem restsInBounds_reset (h : ed.RestsInBounds) : ed.reset.RestsInBounds :=
  ⟨resting_reset h.1.2, inBounds_reset h.2⟩

theorem restsInBounds_press (h : ed.RestsInBounds) (event : InputEvent) :
    (ed.press event).2.RestsInBounds :=
  ⟨resting_press h.1 event, press_of_ends (inBounds_dispatch h.2 h.1 event) fun _ => inBounds_reset⟩

theorem restsInBounds_happen (h : ed.RestsInBounds) (x : Happening) :
    (ed.happen x).RestsInBounds := by
  have hpress : ∀ (ed : Editor) (e : InputEvent), ed.RestsInBounds → (ed.press e).2.RestsInBounds :=
    fun _ e h => restsInBounds_press h e
  cases x with
  | event e => exact restsInBounds_press h e
  | key written => exact keeps_key hpress (fun _ => restsInBounds_reset) h written
  | keys written => exact keeps_keys hpress h _
  | forward =>
    refine ⟨resting_happen h.1 .forward, ?_⟩
    simp only [happen, forward]
    split
    · exact h.2
    · exact h.2
  | _ => exact ⟨resting_happen h.1 _, h.2⟩

/-- **Every request lies in the text it meets, after every history.** -/
theorem requests_within (rest : Rest) (config : Config) (clipboard : Option (Option Text))
    (host : Host) (history : List Happening) :
    ((⟨Session.new rest.mode config clipboard, host.clearJournal⟩ : Editor).happenAll
      history).host.AllWithin := by
  have hnew : (⟨Session.new rest.mode config clipboard, host.clearJournal⟩ :
      Editor).RestsInBounds := ⟨⟨Session.sound_new rest config clipboard, rfl⟩, nofun⟩
  exact (history_induction (P := RestsInBounds) (A := fun _ => True)
    (fun _ x _ h => restsInBounds_happen h x) hnew history fun _ _ => trivial).2

end Editor

end ModalEdit
