import ModalEdit.Proofs.Commands

/-!
# Hosts that grant everything

On a host that refuses nothing, carrying out a plan is a function: `Editor.carried` is the editor
after it, made of the session's own updates and of the document that `Host.committed` or
`Host.placed` leaves. A request that is granted leaves the host granting, so a whole run of keys
meets no refusal. A key that completes a command with a plan comes to that function
(`press_of_plan`).
-/

namespace ModalEdit

namespace Host

variable {h : Host}

/-- The host refuses nothing. -/
structure Grants (h : Host) : Prop where
  edits : h.editRefusals = {}
  selections : h.selectionRefusals = {}
  undos : h.undosLeft = none

/-- The host selects what it is asked to, and it undoes either all that it is asked to or nothing.
It may refuse edits. -/
structure Places (h : Host) : Prop where
  selections : h.selectionRefusals = {}
  undos : h.undosLeft = none ∨ h.undosLeft = some 0

/-- The host after an edit it was asked for. -/
def edited (e : Edit) (h : Host) : Host :=
  { h.make e with journal := .edit h.text.length e true :: h.journal }

/-- The host after a selection it was asked for. -/
def placed (s : Selection) (h : Host) : Host :=
  { h with selection := s, journal := .select h.text.length s true :: h.journal }

/-- The host after the requests to undo. -/
def undone (n : Nat) (h : Host) : Host :=
  { h.undo n with journal := .undo true :: h.journal }

/-- The host after the edit of a commit and before its cursor is placed. -/
def commitEdited (c : Commit) (h : Host) : Host :=
  match c.edit with
  | some e => h.edited e
  | none => h

/-- The host after a commit. -/
def committed (c : Commit) (h : Host) : Host :=
  (h.commitEdited c).placed (.cursor (c.cursor (h.commitEdited c).text))

theorem Grants.edited (hg : h.Grants) (e : Edit) : (h.edited e).Grants :=
  ⟨hg.edits, hg.selections, hg.undos⟩

theorem Grants.placed (hg : h.Grants) (s : Selection) : (h.placed s).Grants :=
  ⟨hg.edits, hg.selections, hg.undos⟩

theorem Places.placed (hp : h.Places) (s : Selection) : (h.placed s).Places :=
  ⟨hp.selections, hp.undos⟩

theorem Grants.undone (hg : h.Grants) (n : Nat) : (h.undone n).Grants := by
  unfold Host.undone undo
  split <;> exact ⟨hg.edits, hg.selections, hg.undos⟩

theorem Grants.commitEdited (hg : h.Grants) (c : Commit) : (h.commitEdited c).Grants := by
  unfold Host.commitEdited
  split
  · exact hg.edited _
  · exact hg

theorem Grants.committed (hg : h.Grants) (c : Commit) : (h.committed c).Grants :=
  (hg.commitEdited c).placed _

theorem requestEdit_granted (hg : h.Grants) (e : Edit) :
    requestEdit e h = .ok () (h.edited e) := by
  obtain ⟨hedits, -, -⟩ := hg
  cases h
  subst hedits
  rfl

theorem Grants.places (hg : h.Grants) : h.Places := ⟨hg.selections, .inl hg.undos⟩

theorem requestSelection_placing (hp : h.Places) (s : Selection) :
    requestSelection s h = .ok () (h.placed s) := by
  obtain ⟨hselections, -⟩ := hp
  cases h
  subst hselections
  rfl

theorem Places.of_requestUndo {h' : Host} (hp : h.Places) {n : Nat}
    (hr : requestUndo n h = .ok () h') : h'.Places := by
  have hselections : (h.undo n).selectionRefusals = {} := by
    rw [undo]
    split <;> exact hp.selections
  have hundos : (h.undo n).undosLeft = h.undosLeft := by
    rw [undo]
    split <;> rfl
  unfold requestUndo at hr
  rcases hp.undos with hleft | hleft
  · rw [hleft] at hr hundos
    cases hr
    exact ⟨hselections, .inl hundos⟩
  · rw [hleft] at hr
    dsimp only at hr
    split at hr
    · cases hr
      exact ⟨hselections, .inr (by rw [Nat.zero_sub])⟩
    · cases hr

/-- Nothing has been undone when such a host refuses to undo. -/
theorem Places.requestUndo_refused {h' : Host} (hp : h.Places) {n : Nat} {e : HostError}
    (hr : requestUndo n h = .error e h') :
    h' = { h with undosLeft := some 0, journal := .undo false :: h.journal } := by
  unfold requestUndo at hr
  rcases hp.undos with hleft | hleft
  · rw [hleft] at hr
    cases hr
  · rw [hleft] at hr
    dsimp only at hr
    split at hr
    · cases hr
    · cases hr
      rfl

theorem requestSelection_granted (hg : h.Grants) (s : Selection) :
    requestSelection s h = .ok () (h.placed s) := requestSelection_placing hg.places s

theorem requestUndo_granted (hg : h.Grants) (n : Nat) :
    requestUndo n h = .ok () (h.undone n) := by
  unfold requestUndo
  rw [hg.undos]
  rfl

/-- A commit leaves the cursor where it comes to rest on the text it leaves. -/
theorem selection_committed (c : Commit) (h : Host) :
    (h.committed c).selection = .cursor (c.cursor (h.committed c).text) := rfl

theorem text_committed (c : Commit) (h : Host) :
    (h.committed c).text = c.edit.elim h.text (·.apply h.text) := by
  unfold committed commitEdited
  cases c.edit <;> rfl

end Host

/-! ## Sessions after plans -/

/-- The session after a commit. -/
def Session.committed (c : Commit) (s : Session) : Session :=
  ((s.begin c).afterEdit c).settle c

namespace Editor

variable {ed : Editor}

/-- The editor after a commit. -/
def committed (c : Commit) (ed : Editor) : Editor :=
  ⟨ed.session.committed c, ed.host.committed c⟩

/-- The editor after a plan. -/
def carried (plan : Plan) (ed : Editor) : Editor :=
  match plan with
  | .drop => { ed with session := ed.session.dropPending }
  | .commit c => ed.committed c
  | .select kind ends column =>
    ⟨ed.session.highlight kind ends column, ed.host.placed (ends.selection kind ed.host.text)⟩

/-- The editor is in a mode, with the cursor placed at an index. -/
structure CursorAt (ed : Editor) (mode : Mode) (i : Nat) : Prop where
  mode : ed.session.mode = mode
  selection : ed.host.selection = .cursor i

/-- A commit places the cursor and settles the mode. -/
theorem cursorAt_committed (c : Commit) (ed : Editor) :
    (ed.committed c).CursorAt c.rest.mode (c.cursor (ed.committed c).host.text) :=
  ⟨rfl, rfl⟩

theorem commit_granted (hg : ed.host.Grants) (c : Commit) :
    commit c ed = .ok () (ed.committed c) := by
  have hedit : requestCommitEdit c ed.host = .ok () (ed.host.commitEdited c) := by
    unfold requestCommitEdit Host.commitEdited
    cases c.edit with
    | none => rfl
    | some e => exact Host.requestEdit_granted hg e
  rw [commit_eq, hedit]
  dsimp only
  rw [Host.requestSelection_granted (hg.commitEdited c)]
  rfl

theorem carryOut_granted (hg : ed.host.Grants) (plan : Plan) :
    carryOut plan ed = .ok () (ed.carried plan) := by
  cases plan with
  | drop => rfl
  | commit c => exact commit_granted hg c
  | select kind ends column =>
    show select kind ends column ed = _
    rw [select_eq, Host.requestSelection_granted hg]
    rfl

/-! ## Outcomes without refusals -/

variable {Q : Unit → Editor → Prop} {E : Editor → Prop}

theorem ends_commit_granted (hg : ed.host.Grants) {c : Commit} (h : Q () (ed.committed c)) :
    Ends (commit c) ed Q E := by
  unfold Ends
  rw [commit_granted hg]
  exact h

theorem ends_carryOut_granted (hg : ed.host.Grants) {plan : Plan} (h : Q () (ed.carried plan)) :
    Ends (carryOut plan) ed Q E := by
  unfold Ends
  rw [carryOut_granted hg]
  exact h

theorem ends_undo_granted (hg : ed.host.Grants) {n : Nat}
    (h : Q () { ed with host := ed.host.undone n }) : Ends (ask (Host.requestUndo n)) ed Q E := by
  unfold Ends
  rw [ask_apply, Host.requestUndo_granted hg]
  exact h

/-! ## Keys -/

/-- The editor with another last change, recorded on or not. -/
def withChange (lastChange : Option LastChange) (recording : Bool) (ed : Editor) : Editor :=
  { ed with session := { ed.session with lastChange, recording } }

/-- A command with a plan leaves the editor after the plan, but for what `.` would repeat. -/
theorem ends_execute_granted (hg : ed.host.Grants) {command : Command} {plan : Plan}
    (hplan : ed.planOfCommand command = some plan)
    (h : ∀ lastChange recording,
      Q () (((ed.noted command).carried plan).withChange lastChange recording)) :
    Ends (execute command) ed Q E := by
  have hnoted : (ed.noted command).host.Grants := hg
  refine ends_execute_planned hplan ?_
  refine ends_carryOutChange (ends_carryOut_granted hnoted ⟨fun change _ _ => ?_, h _ _⟩)
  rw [Session.recordChange_frame]
  exact h _ _

/-- The document, the registers and the mode are those after a commit. -/
structure After (c : Commit) (ed after : Editor) : Prop where
  host : after.host = ed.host.committed c
  registers : after.session.registers = (ed.session.committed c).registers
  mode : after.session.mode = c.rest.mode

theorem After.text {c : Commit} {after : Editor} (h : After c ed after) :
    after.host.text = c.edit.elim ed.host.text (·.apply ed.host.text) := by
  rw [h.host, Host.text_committed]

theorem After.selection {c : Commit} {after : Editor} (h : After c ed after) :
    after.host.selection = .cursor (c.cursor after.host.text) := by
  rw [h.host, Host.selection_committed]

/-- A command that comes to a commit, whatever partial input was read with it. -/
theorem ends_execute_after {P : Editor → Prop} (hg : ed.host.Grants) {command : Command}
    {i : Input} {c : Commit} (hplan : (ed.withInput i).planOfCommand command = some (.commit c))
    (h : ∀ after, After c ed after → P after) :
    Ends (execute command) (ed.withInput i) (fun _ => P) E := by
  have hinput : (ed.withInput i).host.Grants := hg
  have hnoted : (ed.withInput i).noted command =
      { ed with session := { ed.session with
        input := i
        lastFind := ((ed.withInput i).session.noteCommand command).lastFind } } := by
    unfold noted
    rw [Session.noteCommand_frame]
    rfl
  refine ends_execute_granted hinput hplan fun _ _ => h _ ?_
  rw [hnoted]
  exact ⟨rfl, rfl, rfl⟩

/-- A key that completes a planned command leaves the editor after the plan. -/
theorem press_of_plan (hg : ed.host.Grants) {event : InputEvent} {command : Command} {i : Input}
    {plan : Plan} (hcompletes : ed.completes event = some (command, i))
    (hplan : (ed.withInput i).planOfCommand command = some plan) :
    ∃ lastChange recording, ed.press event =
      (some command,
        (((ed.withInput i).noted command).carried plan).withChange lastChange recording) := by
  have hinput : (ed.withInput i).host.Grants := hg
  have hexecute : Ends (execute command) (ed.withInput i)
      (fun _ after => ∃ lastChange recording, after =
        (((ed.withInput i).noted command).carried plan).withChange lastChange recording)
      (fun _ => False) := ends_execute_granted hinput hplan fun _ _ => ⟨_, _, rfl⟩
  unfold Ends at hexecute
  unfold press
  rw [dispatch_of_completes hcompletes, bind_apply]
  cases hrun : execute command (ed.withInput i) with
  | ok _ after =>
    rw [hrun] at hexecute
    obtain ⟨lastChange, recording, rfl⟩ := hexecute
    exact ⟨lastChange, recording, rfl⟩
  | error e after =>
    rw [hrun] at hexecute
    exact hexecute.elim

end Editor

end ModalEdit
