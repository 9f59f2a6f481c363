import ModalEdit.Proofs.Commands

/-!
# Refused edits

A key event whose first edit is refused leaves everything but the mode as it was: no command is
answered, the text, the registers with the clipboard, the marks and the last change are those from
before, and the session is idle in Normal mode (`refused_edit_spares`). Repeating a change is the
one exception, because it may write a register before it types its text.

What was requested so far is read off the journal, so the proof follows two facts through the work
of an event. As long as no edit was requested, the work has touched nothing that is spared
(`Untouched`): every register write and every recording comes after the edit of its commit. Once the
first edit was answered, the answer stays what it is, whatever is requested later.
-/

namespace ModalEdit

/-- The answer to a request to edit. -/
def JournalEntry.editGranted? : JournalEntry → Option Bool
  | edit _ _ granted => some granted
  | _ => none

namespace Host

variable {h h' : Host} {journal : List JournalEntry}

/-- The answer to the first request to edit among some entries, of which the latest comes first. -/
def firstEditGranted? (entries : List JournalEntry) : Option Bool :=
  entries.reverse.findSome? JournalEntry.editGranted?

theorem firstEditGranted?_cons (entry : JournalEntry) (entries : List JournalEntry) :
    firstEditGranted? (entry :: entries) =
      (firstEditGranted? entries).or entry.editGranted? := by
  simp [firstEditGranted?, List.findSome?_append]

/-- The journal goes on from an earlier one, and `A` holds of the answer to the first edit requested
since. -/
def Since (journal : List JournalEntry) (A : Option Bool → Prop) (h : Host) : Prop :=
  ∃ entries, h.journal = entries ++ journal ∧ A (firstEditGranted? entries)

/-- No edit was requested since. -/
def NoEditSince (journal : List JournalEntry) (h : Host) : Prop :=
  h.Since journal (· = none)

/-- The first edit requested since, if there is one, was granted. -/
def UnrefusedSince (journal : List JournalEntry) (h : Host) : Prop :=
  h.Since journal (· ≠ some false)

theorem NoEditSince.unrefused (hh : h.NoEditSince journal) : h.UnrefusedSince journal := by
  obtain ⟨entries, hjournal, hnone⟩ := hh
  exact ⟨entries, hjournal, by rw [hnone]; nofun⟩

theorem noEditSince_self (h : Host) : h.NoEditSince h.journal := ⟨[], rfl, rfl⟩

/-- One more entry decides the first answer only if there is none yet. -/
theorem Since.cons {A : Option Bool → Prop} {entry : JournalEntry} (hh : h.Since journal A)
    (hjournal : h'.journal = entry :: h.journal)
    (hA : ∀ answer, A answer → A (answer.or entry.editGranted?)) : h'.Since journal A := by
  obtain ⟨entries, hentries, hanswer⟩ := hh
  refine ⟨entry :: entries, by rw [hjournal, hentries]; rfl, ?_⟩
  rw [firstEditGranted?_cons]
  exact hA _ hanswer

/-- A request other than for an edit decides nothing. -/
theorem Since.cons_other {A : Option Bool → Prop} {entry : JournalEntry} (hh : h.Since journal A)
    (hjournal : h'.journal = entry :: h.journal) (hentry : entry.editGranted? = none) :
    h'.Since journal A := by
  refine hh.cons hjournal fun answer hanswer => ?_
  rw [hentry, Option.or_none]
  exact hanswer

/-! ## Requests -/

/-- A request for a selection is one more entry, and none for an edit. -/
theorem journal_requestSelection (s : Selection) (h : Host) :
    ∃ entry, (after (requestSelection s h)).journal = entry :: h.journal ∧
      entry.editGranted? = none := by
  simp only [Host.requestSelection]
  split <;> exact ⟨_, rfl, rfl⟩

theorem journal_requestUndo (n : Nat) (h : Host) :
    ∃ entry, (after (requestUndo n h)).journal = entry :: h.journal ∧
      entry.editGranted? = none := by
  simp only [Host.requestUndo]
  split
  · exact ⟨_, rfl, rfl⟩
  · split <;> exact ⟨_, rfl, rfl⟩

theorem Since.requestSelection {A : Option Bool → Prop} (hh : h.Since journal A) (s : Selection) :
    (after (requestSelection s h)).Since journal A := by
  obtain ⟨entry, hjournal, hentry⟩ := journal_requestSelection s h
  exact hh.cons_other hjournal hentry

theorem Since.requestUndo {A : Option Bool → Prop} (hh : h.Since journal A) (n : Nat) :
    (after (requestUndo n h)).Since journal A := by
  obtain ⟨entry, hjournal, hentry⟩ := journal_requestUndo n h
  exact hh.cons_other hjournal hentry

/-- The edit of a commit is the first one requested. -/
theorem NoEditSince.requestCommitEdit (hh : h.NoEditSince journal) {c : Commit}
    (hr : Editor.requestCommitEdit c h = .ok () h') : h'.UnrefusedSince journal := by
  obtain ⟨-, rfl⟩ | ⟨edit, -, rfl⟩ := Editor.requestCommitEdit_granted hr
  · exact hh.unrefused
  · refine hh.unrefused.cons rfl fun answer hanswer => ?_
    cases answer with
    | none => simp [JournalEntry.editGranted?]
    | some granted => exact hanswer

theorem text_after_requestSelection (s : Selection) (h : Host) :
    (after (requestSelection s h)).text = h.text := by
  simp only [requestSelection]
  split <;> rfl

theorem UnrefusedSince.requestSelection (hh : h.UnrefusedSince journal) (s : Selection) :
    (after (requestSelection s h)).UnrefusedSince journal := Since.requestSelection hh s

theorem UnrefusedSince.requestUndo (hh : h.UnrefusedSince journal) (n : Nat) :
    (after (requestUndo n h)).UnrefusedSince journal := Since.requestUndo hh n

end Host

namespace Editor

variable {start ed : Editor}

/-- The text and what is kept of it and of changes are as before. -/
structure Spared (before after : Editor) : Prop where
  text : after.host.text = before.host.text
  /-- The clipboard is among the registers. -/
  registers : after.session.registers = before.session.registers
  marks : after.session.marks = before.session.marks
  /-- With the text typed after its command. -/
  lastChange : after.session.lastChange = before.session.lastChange

theorem spared_self (ed : Editor) : Spared ed ed := ⟨rfl, rfl, rfl, rfl⟩

/-- No edit was requested, and nothing that is spared was touched. -/
structure Untouched (start ed : Editor) : Prop where
  spared : Spared start ed
  noEdit : ed.host.NoEditSince start.host.journal

theorem untouched_self (ed : Editor) : Untouched ed ed :=
  ⟨spared_self ed, ed.host.noEditSince_self⟩

/-- The first edit requested, if there is one, was granted. -/
def Unrefused (start ed : Editor) : Prop :=
  ed.host.UnrefusedSince start.host.journal

theorem Untouched.unrefused (h : start.Untouched ed) : start.Unrefused ed := h.noEdit.unrefused

/-- The first edit that the work requests is granted, or refused with everything spared. -/
def SparesIfRefused (start : Editor) (work : Attempt Unit) (ed : Editor) : Prop :=
  Ends work ed (fun _ => start.Unrefused) fun ed => start.Unrefused ed ∨ start.Spared ed

theorem sparesIfRefused_of_leaves {work : Attempt Unit} (h : Leaves work ed start.Unrefused) :
    SparesIfRefused start work ed :=
  h.mono (fun _ _ h => h) fun _ h => Or.inl h

/-! ## Carrying out plans -/

/-- **A commit touches nothing before its edit.** Placing the cursor after it is no edit. -/
theorem sparesIfRefused_commit (h : start.Untouched ed) (c : Commit) :
    SparesIfRefused start (commit c) ed := by
  refine ends_commit_requests (H := (·.UnrefusedSince start.host.journal)) ?_ ?_
  · intro e host hr
    obtain ⟨edit, -, rfl⟩ := requestCommitEdit_refused hr
    exact ⟨h.spared.text, h.spared.registers, h.spared.marks, h.spared.lastChange⟩
  · exact fun edited hr => (h.noEdit.requestCommitEdit hr).requestSelection _

/-- A commit without an edit requests none, whatever came before it. -/
theorem unrefused_commit (h : start.Unrefused ed) {c : Commit} (hc : c.edit = none) :
    Leaves (commit c) ed start.Unrefused := by
  refine Ends.mono (ends_commit_requests (H := (·.UnrefusedSince start.host.journal))
    (E := fun _ => False) ?_ ?_) (fun _ _ h => h) fun _ h => h.elim id False.elim
  · intro e host hr
    rw [requestCommitEdit_unedited hc] at hr
    cases hr
  · intro edited hr
    rw [requestCommitEdit_unedited hc] at hr
    cases hr
    exact Host.UnrefusedSince.requestSelection h _

theorem sparesIfRefused_carryOut (h : start.Untouched ed) (plan : Plan) :
    SparesIfRefused start (carryOut plan) ed := by
  cases plan with
  | drop => exact ends_update h.unrefused
  | commit c => exact sparesIfRefused_commit h c
  | select kind ends column =>
    refine sparesIfRefused_of_leaves (ends_bind (ends_get (ends_bind ?_)))
    refine (leaves_ask (P := start.Unrefused) ?_).mono (fun _ _ h => ends_update h) fun _ h => h
    exact h.unrefused.requestSelection _

theorem sparesIfRefused_carryOutChange (h : start.Untouched ed) (plan : Plan)
    (repeatable : Option Repeatable) :
    SparesIfRefused start (carryOutChange plan repeatable) ed :=
  ends_carryOutChange_record
    ((sparesIfRefused_carryOut h plan).mono (fun _ _ h _ _ => h) fun _ h => h)

/-! ## Insert mode -/

theorem sparesIfRefused_insertText (h : start.Untouched ed) (text : Text) :
    SparesIfRefused start (insertText text) ed :=
  ends_insertText ((sparesIfRefused_commit h _).mono (fun _ _ h _ _ => h) fun _ h => h)

theorem sparesIfRefused_eraseChar (h : start.Untouched ed) :
    SparesIfRefused start eraseChar ed :=
  ends_eraseChar h.unrefused fun c _ =>
    (sparesIfRefused_commit h c).mono (fun _ _ h _ _ => h) fun _ h => h

theorem sparesIfRefused_leaveInsert (h : start.Untouched ed) :
    SparesIfRefused start leaveInsert ed := by
  have hended : start.Untouched (ed.withRecord ed.session.lastChange false) :=
    ⟨⟨h.spared.text, h.spared.registers, h.spared.marks, h.spared.lastChange⟩, h.noEdit⟩
  exact ends_leaveInsert (sparesIfRefused_commit hended _)

theorem sparesIfRefused_insertStroke (h : start.Untouched ed) (k : Stroke) :
    SparesIfRefused start (insertStroke k) ed := by
  cases k with
  | char c => exact sparesIfRefused_insertText h [c]
  | backspace => exact sparesIfRefused_eraseChar h
  | escape => exact sparesIfRefused_leaveInsert h

/-! ## Commands -/

/-- Undoing changes the text without an edit, and what follows it has no edit either. -/
theorem unrefused_undo (h : start.Untouched ed) (count : Nat) :
    Leaves (undo count) ed start.Unrefused := by
  refine ends_bind ((leaves_ask (P := start.Unrefused) ?_).mono ?_ fun _ h => h)
  · exact h.unrefused.requestUndo _
  · exact fun _ _ h => ends_bind (ends_get (unrefused_commit h rfl))

theorem sparesIfRefused_execute (h : start.Untouched ed) {command : Command}
    (hcommand : ∀ count, command ≠ .instant .repeatChange count) :
    SparesIfRefused start (execute command) ed := by
  refine ends_execute ?_ ?_ ?_ ?_ ?_
  · intro plan _
    have hnoted : start.Untouched (ed.noted command) := by
      refine ⟨?_, h.noEdit⟩
      unfold noted
      rw [Session.noteCommand_frame]
      exact ⟨h.spared.text, h.spared.registers, h.spared.marks, h.spared.lastChange⟩
    exact sparesIfRefused_carryOutChange hnoted plan _
  · exact fun _ _ _ => h.unrefused
  · exact fun count _ => sparesIfRefused_of_leaves (unrefused_undo h count)
  · exact fun count hrepeat => absurd hrepeat (hcommand count)
  · exact fun _ _ _ _ => h.unrefused

/-! ## Keys -/

theorem reset_host (ed : Editor) :
    ed.reset.host =
      match ed.session.visual with
      | none => ed.host
      | some ends => Host.after
          (Host.requestSelection (.cursor (ed.host.text.restingIndex ends.cursor)) ed.host) := by
  unfold reset
  cases ed.session.visual with
  | none => rfl
  | some ends =>
    dsimp only
    cases Host.requestSelection (.cursor (ed.host.text.restingIndex ends.cursor)) ed.host <;> rfl

/-- Giving a command up asks the host for at most one selection. -/
theorem keeps_reset_host {H : Host → Prop} (h : H ed.host)
    (hselect : ∀ sel, H (Host.after (Host.requestSelection sel ed.host))) : H ed.reset.host := by
  rw [reset_host]
  split
  · exact h
  · exact hselect _

theorem text_reset (ed : Editor) : ed.reset.host.text = ed.host.text :=
  keeps_reset_host (H := (·.text = ed.host.text)) rfl
    fun sel => Host.text_after_requestSelection sel ed.host

theorem since_reset {A : Option Bool → Prop} {journal : List JournalEntry}
    (h : ed.host.Since journal A) : ed.reset.host.Since journal A :=
  keeps_reset_host h fun sel => h.requestSelection sel

theorem unrefused_reset (h : start.Unrefused ed) : start.Unrefused ed.reset :=
  since_reset (A := (· ≠ some false)) h

/-- Giving a command up spares what was spared before. -/
theorem spared_reset (h : start.Spared ed) : start.Spared ed.reset :=
  ⟨(text_reset ed).trans h.text, h.registers, h.marks, h.lastChange⟩

/-- An event other than one that repeats a change. -/
theorem sparesIfRefused_dispatch {event : InputEvent}
    (hdot : ∀ count i, ed.completes event ≠ some (.instant .repeatChange count, i)) :
    Ends (dispatch event) ed (fun _ => ed.Unrefused)
      fun after => ed.Unrefused after ∨ ed.Spared after := by
  have hself := untouched_self ed
  refine ends_dispatch ?_ (fun _ => hself.unrefused) ?_ fun _ => unrefused_reset hself.unrefused
  · exact fun _ k _ => sparesIfRefused_insertStroke hself k
  · intro hmode c hc
    refine ends_commandChar ?_ ?_ ?_
    · exact fun _ _ => hself.unrefused
    · intro i _
      have hinput : ed.Unrefused (ed.withInput i) := hself.unrefused
      exact unrefused_reset hinput
    · intro command i hread
      have hinput : ed.Untouched (ed.withInput i) := ⟨⟨rfl, rfl, rfl, rfl⟩, hself.noEdit⟩
      refine sparesIfRefused_execute hinput fun count hcommand => ?_
      rw [hcommand] at hread
      exact hdot count i (completes_eq hmode hc hread)

/-- The requests that an event makes of the host, in order. -/
def requests (ed : Editor) (event : InputEvent) : List JournalEntry :=
  let journal := (ed.press event).2.host.journal
  (journal.take (journal.length - ed.host.journal.length)).reverse

/-- The answer to the first edit that an event requests, if it requests one. -/
def firstEditGranted? (ed : Editor) (event : InputEvent) : Option Bool :=
  (ed.requests event).findSome? JournalEntry.editGranted?

theorem requests_eq {event : InputEvent} {entries : List JournalEntry}
    (h : (ed.press event).2.host.journal = entries ++ ed.host.journal) :
    ed.requests event = entries.reverse := by
  unfold requests
  rw [h]
  simp

theorem firstEditGranted?_ne_of_unrefused {event : InputEvent}
    (h : ed.Unrefused (ed.press event).2) : ed.firstEditGranted? event ≠ some false := by
  obtain ⟨entries, hjournal, hanswer⟩ := h
  unfold firstEditGranted?
  rw [requests_eq hjournal]
  exact hanswer

/-- **An event whose first edit is refused changes nothing but the mode**, unless it repeats a
change. It answers no command, spares the text, the registers, the marks and the last change, and
leaves Normal mode with no partial input, no labels, no visual selection and nothing recorded. -/
theorem refused_edit_spares {event : InputEvent}
    (hdot : ∀ count i, ed.completes event ≠ some (.instant .repeatChange count, i))
    (hrefused : ed.firstEditGranted? event = some false) :
    (ed.press event).1 = none ∧ ed.Spared (ed.press event).2 ∧
      (ed.press event).2.session.input = .idle .normal ∧
      (ed.press event).2.session.visual = none ∧
      (ed.press event).2.session.recording = false := by
  have hends := sparesIfRefused_dispatch hdot
  have hnot : ¬ed.Unrefused (ed.press event).2 :=
    fun h => firstEditGranted?_ne_of_unrefused h hrefused
  unfold Ends at hends
  unfold press at hnot ⊢
  cases hd : dispatch event ed with
  | ok command after =>
    rw [hd] at hends hnot
    exact absurd hends hnot
  | error e after =>
    rw [hd] at hends hnot
    rcases hends with h | h
    · exact absurd (unrefused_reset h) hnot
    · exact ⟨rfl, spared_reset h, rfl, rfl, rfl⟩

/-- A character is deleted, and then deleting its line into another register is refused. -/
theorem refused_edit_spares_deleteLine :
    let typed := ((⟨Session.new .normal {} (some none), .ofText ['a', 'b', '\n', 'c'] 0⟩ :
      Editor).press (.text 'x')).2
    let refusing : Editor := { typed with host := typed.host.refuseEdits 1 }
    let ed := (refusing.pressAll [.text '"', .text 'a', .text 'd']).2
    (∀ count i, ed.completes (.text 'd') ≠ some (.instant .repeatChange count, i)) ∧
      ed.firstEditGranted? (.text 'd') = some false ∧
      (ed.press (.text 'd')).1 = none ∧ ed.Spared (ed.press (.text 'd')).2 ∧
      (ed.press (.text 'd')).2.session.input = .idle .normal ∧
      (ed.press (.text 'd')).2.session.visual = none ∧
      (ed.press (.text 'd')).2.session.recording = false := by
  intro typed refusing ed
  have hcompletes : ed.completes (.text 'd') = some (.motion .wholeLines 1,
      { mode := .operatorPending, operator := some ⟨.delete, none⟩, register := some 'a' }) := by
    decide
  have hdot : ∀ count i, ed.completes (.text 'd') ≠ some (.instant .repeatChange count, i) := by
    intro count i hrepeat
    rw [hcompletes] at hrepeat
    cases hrepeat
  have hrefused : ed.firstEditGranted? (.text 'd') = some false := by decide
  exact ⟨hdot, hrefused, refused_edit_spares hdot hrefused⟩

end Editor

end ModalEdit
