import ModalEdit.Session.Run

/-!
# What carrying out comes to

The work of a commit written as one case distinction on the host's answers (`commit_eq`), and that
of showing a visual selection likewise (`select_eq`). The editor after it, or at the refusal, is
given by the pure updates of the session. Each step of the work has one equation, and a refusal ends
the work because it ends the step (`bind_apply`).
-/

namespace ModalEdit.Editor

/-! ## One step at a time -/

theorem bind_apply {α β : Type} (work : Attempt α) (next : α → Attempt β) (ed : Editor) :
    (work >>= next) ed =
      match work ed with
      | .ok a ed => next a ed
      | .error e ed => .error e ed := by
  show EStateM.bind work next ed = _
  delta EStateM.bind
  cases work ed <;> rfl

theorem get_apply (ed : Editor) : (get : Attempt Editor) ed = .ok ed ed := rfl

theorem update_apply (f : Session → Session) (ed : Editor) :
    update f ed = .ok () { ed with session := f ed.session } := rfl

theorem ask_apply (request : EStateM HostError Host Unit) (ed : Editor) :
    ask request ed =
      match request ed.host with
      | .ok () host => .ok () { ed with host }
      | .error e host => .error e { ed with host } := rfl

/-! ## Whole plans -/

/-- The host after the edit of a commit, if it has one. -/
def requestCommitEdit (c : Commit) (h : Host) : EStateM.Result HostError Host Unit :=
  match c.edit with
  | some edit => Host.requestEdit edit h
  | none => .ok () h

/-- A commit fails at its edit with the session begun, fails at its cursor with the edit noted, or
settles. -/
theorem commit_eq (c : Commit) (ed : Editor) :
    commit c ed =
      match requestCommitEdit c ed.host with
      | .error e h => .error e ⟨ed.session.begin c, h⟩
      | .ok _ h =>
        match Host.requestSelection (.cursor (c.cursor h.text)) h with
        | .error e h => .error e ⟨(ed.session.begin c).afterEdit c, h⟩
        | .ok _ h => .ok () ⟨((ed.session.begin c).afterEdit c).settle c, h⟩ := by
  unfold commit requestCommitEdit
  cases c.edit with
  | none =>
    simp only [bind_apply, update_apply, get_apply, ask_apply]
    cases Host.requestSelection (.cursor (c.cursor ed.host.text)) ed.host <;> rfl
  | some edit =>
    simp only [bind_apply, update_apply, get_apply, ask_apply]
    cases Host.requestEdit edit ed.host with
    | error e h => rfl
    | ok _ h =>
      simp only
      cases Host.requestSelection (.cursor (c.cursor h.text)) h <;> rfl

theorem select_eq (kind : VisualKind) (ends : Endpoints) (column : ColumnRule) (ed : Editor) :
    select kind ends column ed =
      match Host.requestSelection (ends.selection kind ed.host.text) ed.host with
      | .error e h => .error e ⟨ed.session, h⟩
      | .ok _ h => .ok () ⟨ed.session.highlight kind ends column, h⟩ := by
  unfold select
  simp only [bind_apply, update_apply, get_apply, ask_apply]
  cases Host.requestSelection (ends.selection kind ed.host.text) ed.host <;> rfl

end ModalEdit.Editor
