import ModalEdit.Session.Run.Lemmas

/-!
# Outcomes

`Ends work ed Q E` says what work comes to when it is begun with the editor `ed`: `Q` holds of the
answer and the editor if every request is granted, and `E` holds of the editor at the first refusal.
There is one rule for each way of putting work together, so a law of a command follows its text.

A law that needs nothing of the host uses `ends_commit` and `ends_select`, where the host after a
request is any host at all.
-/

namespace ModalEdit

/-- The host after a request, granted or not. -/
def Host.after : EStateM.Result HostError Host Unit → Host
  | .ok _ h | .error _ h => h

namespace Editor

variable {α β : Type} {ed : Editor} {Q : α → Editor → Prop} {E : Editor → Prop}

/-- `Q` of the answer and the editor when the work is done, and `E` of the editor at a refusal. -/
def Ends (work : Attempt α) (ed : Editor) (Q : α → Editor → Prop) (E : Editor → Prop) : Prop :=
  match work ed with
  | .ok a ed => Q a ed
  | .error _ ed => E ed

/-- `P` of the editor when the work is over, done or refused. -/
def Leaves (work : Attempt α) (ed : Editor) (P : Editor → Prop) : Prop :=
  Ends work ed (fun _ => P) P

/-! ## Putting work together -/

theorem ends_pure {a : α} (h : Q a ed) : Ends (pure a) ed Q E := h

theorem ends_bind {work : Attempt β} {next : β → Attempt α}
    (h : Ends work ed (fun b ed => Ends (next b) ed Q E) E) : Ends (work >>= next) ed Q E := by
  unfold Ends at h ⊢
  rw [bind_apply]
  cases hw : work ed with
  | ok b ed' => rw [hw] at h; exact h
  | error e ed' => rw [hw] at h; exact h

theorem Ends.mono {work : Attempt α} {Q' : α → Editor → Prop} {E' : Editor → Prop}
    (h : Ends work ed Q E) (hQ : ∀ a ed, Q a ed → Q' a ed) (hE : ∀ ed, E ed → E' ed) :
    Ends work ed Q' E' := by
  unfold Ends at h ⊢
  cases hw : work ed with
  | ok a ed' => rw [hw] at h; exact hQ a ed' h
  | error e ed' => rw [hw] at h; exact hE ed' h

theorem ends_get {Q : Editor → Editor → Prop} (h : Q ed ed) : Ends get ed Q E := h

theorem ends_planned {plan : Session → Text → Selection → α}
    (h : Q (plan ed.session ed.host.text ed.host.selection) ed) : Ends (planned plan) ed Q E := h

theorem ends_modify {Q : Unit → Editor → Prop} {f : Editor → Editor} (h : Q () (f ed)) :
    Ends (modify f) ed Q E := h

theorem ends_update {Q : Unit → Editor → Prop} {f : Session → Session}
    (h : Q () { ed with session := f ed.session }) : Ends (update f) ed Q E := h

theorem ends_ask {Q : Unit → Editor → Prop} {request : EStateM HostError Host Unit}
    (hok : ∀ host, request ed.host = .ok () host → Q () { ed with host })
    (herr : ∀ e host, request ed.host = .error e host → E { ed with host }) :
    Ends (ask request) ed Q E := by
  unfold Ends
  rw [ask_apply]
  cases hr : request ed.host with
  | ok a host => exact hok host hr
  | error e host => exact herr e host hr

/-- What holds after a request, granted or not, is left by asking for it. -/
theorem leaves_ask {P : Editor → Prop} {request : EStateM HostError Host Unit}
    (h : P { ed with host := Host.after (request ed.host) }) : Leaves (ask request) ed P := by
  refine ends_ask (fun host hok => ?_) fun e host herr => ?_
  · rw [hok] at h; exact h
  · rw [herr] at h; exact h

/-! ## Answers to the edit of a commit -/

section

variable {c : Commit} {h h' : Host}

theorem requestCommitEdit_unedited (hc : c.edit = none) (h : Host) :
    requestCommitEdit c h = .ok () h := by
  unfold requestCommitEdit
  rw [hc]

/-- A refused edit leaves the refusals still to come, and an entry in the journal. -/
theorem requestCommitEdit_refused {e : HostError} (hr : requestCommitEdit c h = .error e h') :
    ∃ edit, c.edit = some edit ∧ h' =
      { h with
        editRefusals := h.editRefusals.tail
        journal := .edit h.text.length edit false :: h.journal } := by
  unfold requestCommitEdit at hr
  cases hedit : c.edit with
  | none => rw [hedit] at hr; cases hr
  | some edit =>
    rw [hedit] at hr
    simp only [Host.requestEdit] at hr
    split at hr
    · rename_i hrefused
      cases hr
      exact ⟨edit, rfl, by rw [hrefused]; rfl⟩
    · cases hr

/-- An edit that is granted is made. -/
theorem requestCommitEdit_granted (hr : requestCommitEdit c h = .ok () h') :
    c.edit = none ∧ h' = h ∨ ∃ edit, c.edit = some edit ∧ h' =
      { h.make edit with
        editRefusals := h.editRefusals.tail
        journal := .edit h.text.length edit true :: h.journal } := by
  unfold requestCommitEdit at hr
  cases hedit : c.edit with
  | none => rw [hedit] at hr; cases hr; exact Or.inl ⟨rfl, rfl⟩
  | some edit =>
    rw [hedit] at hr
    simp only [Host.requestEdit] at hr
    split at hr
    · cases hr
    · rename_i hgranted
      rw [Bool.not_eq_true] at hgranted
      cases hr
      exact Or.inr ⟨edit, rfl, by rw [hgranted]; rfl⟩

end

/-! ## Carrying out plans on any host -/

section

variable {Q : Unit → Editor → Prop}

theorem ends_commit {c : Commit} (hedit : ∀ host, E ⟨ed.session.begin c, host⟩)
    (hplace : ∀ host, E ⟨(ed.session.begin c).afterEdit c, host⟩)
    (hdone : ∀ host, Q () ⟨((ed.session.begin c).afterEdit c).settle c, host⟩) :
    Ends (commit c) ed Q E := by
  unfold Ends
  rw [commit_eq]
  cases requestCommitEdit c ed.host with
  | error e host => exact hedit host
  | ok _ host =>
    dsimp only
    cases Host.requestSelection (.cursor (c.cursor host.text)) host with
    | error e host => exact hplace host
    | ok _ host => exact hdone host

/-- A commit without an edit asks for its cursor, and for nothing else. -/
theorem ends_commit_selecting {H : Host → Prop} {c : Commit} (hc : c.edit = none)
    (hselect : H (Host.after (Host.requestSelection (.cursor (c.cursor ed.host.text)) ed.host)))
    (hplace : ∀ host, H host → E ⟨(ed.session.begin c).afterEdit c, host⟩)
    (hdone : ∀ host, H host → Q () ⟨((ed.session.begin c).afterEdit c).settle c, host⟩) :
    Ends (commit c) ed Q E := by
  unfold Ends
  rw [commit_eq, requestCommitEdit_unedited hc]
  dsimp only
  cases hr : Host.requestSelection (.cursor (c.cursor ed.host.text)) ed.host with
  | error e host => rw [hr] at hselect; exact hplace host hselect
  | ok _ host => rw [hr] at hselect; exact hdone host hselect

/-- A commit without an edit is refused at its cursor or not at all. -/
theorem ends_commit_unedited {c : Commit} (hc : c.edit = none)
    (hplace : ∀ host, E ⟨(ed.session.begin c).afterEdit c, host⟩)
    (hdone : ∀ host, Q () ⟨((ed.session.begin c).afterEdit c).settle c, host⟩) :
    Ends (commit c) ed Q E :=
  ends_commit_selecting (H := fun _ => True) hc trivial (fun host _ => hplace host)
    fun host _ => hdone host

/-- A law of the host alone, for a commit that is not refused at its edit. -/
theorem ends_commit_requests {H : Host → Prop} {c : Commit}
    (hedit : ∀ e host, requestCommitEdit c ed.host = .error e host →
      E ⟨ed.session.begin c, host⟩)
    (hplace : ∀ edited, requestCommitEdit c ed.host = .ok () edited →
      H (Host.after (Host.requestSelection (.cursor (c.cursor edited.text)) edited))) :
    Ends (commit c) ed (fun _ ed => H ed.host) fun ed => H ed.host ∨ E ed := by
  unfold Ends
  rw [commit_eq]
  cases hr : requestCommitEdit c ed.host with
  | error e host => exact Or.inr (hedit e host hr)
  | ok _ edited =>
    have hplaced := hplace edited hr
    dsimp only
    cases hs : Host.requestSelection (.cursor (c.cursor edited.text)) edited with
    | error e host => rw [hs] at hplaced; exact Or.inl hplaced
    | ok _ host => rw [hs] at hplaced; exact hplaced

theorem ends_select {kind : VisualKind} {ends : Endpoints} {column : ColumnRule}
    (hrefused : ∀ host, E ⟨ed.session, host⟩)
    (hdone : ∀ host, Q () ⟨ed.session.highlight kind ends column, host⟩) :
    Ends (select kind ends column) ed Q E := by
  unfold Ends
  rw [select_eq]
  cases Host.requestSelection (ends.selection kind ed.host.text) ed.host with
  | error e host => exact hrefused host
  | ok _ host => exact hdone host

theorem ends_unrecorded {work : Attempt Unit}
    (h : Ends work { ed with session.replaying := true }
      (fun a ed => Q a { ed with session.replaying := false })
      (fun ed => E { ed with session.replaying := false })) :
    Ends (unrecorded work) ed Q E := by
  unfold Ends unrecorded at *
  cases hw : work { ed with session.replaying := true } with
  | ok _ ed' => rw [hw] at h; exact h
  | error e ed' => rw [hw] at h; exact h

end

end Editor

end ModalEdit
