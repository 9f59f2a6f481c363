import ModalEdit.Proofs.CountedMotions
import ModalEdit.Proofs.Positions
import ModalEdit.Proofs.Refusals
import ModalEdit.Proofs.Repeating

/-!
# Undo steps

One event is one undo step. Unless it repeats a change, it requests at most one edit, and the edit
before it places the cursor; an undo is followed by a selection and nothing else. So what holds of
the host as it is, of the host once any one edit was requested of it, and whatever is selected from
then on, holds after the event (`spans_press`).

So the latest step of the host's history, if an edit was made, is the text and the selection from
before the event (`oneStep_press`). Undoing restores both (`press_undo`). The cursor that is placed
then is where the restored one comes to rest, and at a Normal position that is the same.
-/

namespace ModalEdit

/-- How many of the entries are requests to edit. -/
def JournalEntry.countEdits (entries : List JournalEntry) : Nat :=
  entries.countP (·.editGranted?.isSome)

namespace Host

variable {h before : Host} {H : Host → Prop} {journal : List JournalEntry} {n : Nat}

/-! ## What one edit can come to -/

/-- `H` holds of the host as it is and after any one edit is requested of it, and then whatever is
selected. -/
structure Spans (H : Host → Prop) (h : Host) : Prop where
  self : H h
  edit : ∀ e, H (after (requestEdit e h))
  select : ∀ h' s, H h' → H (after (requestSelection s h'))

theorem Spans.requestCommitEdit (hs : h.Spans H) (c : Commit) :
    H (after (Editor.requestCommitEdit c h)) := by
  unfold Editor.requestCommitEdit
  cases c.edit with
  | none => exact hs.self
  | some e => exact hs.edit e

/-- The journal goes on from an earlier one, with at most `n` edits requested since. -/
def EditsSince (journal : List JournalEntry) (n : Nat) (h : Host) : Prop :=
  ∃ entries, h.journal = entries ++ journal ∧ JournalEntry.countEdits entries ≤ n

theorem EditsSince.cons {h' : Host} {entry : JournalEntry} (hh : h.EditsSince journal n)
    (hjournal : h'.journal = entry :: h.journal) (hentry : entry.editGranted? = none) :
    h'.EditsSince journal n := by
  obtain ⟨entries, hentries, hn⟩ := hh
  refine ⟨entry :: entries, by rw [hjournal, hentries]; rfl, ?_⟩
  simpa [JournalEntry.countEdits, List.countP_cons, hentry] using hn

/-- **One edit is one request to edit.** -/
theorem spans_editsSince (h : Host) : h.Spans (·.EditsSince h.journal 1) where
  self := ⟨[], rfl, Nat.zero_le 1⟩
  edit e := by
    simp only [requestEdit]
    split <;> exact ⟨[_], rfl, Nat.le_refl 1⟩
  select h' s hh := by
    obtain ⟨entry, hjournal, hentry⟩ := journal_requestSelection s h'
    exact hh.cons hjournal hentry

/-- Nothing was edited, or one step back is the text and the selection from before. -/
structure OneStep (before h : Host) : Prop where
  undosLeft : h.undosLeft = before.undosLeft
  history : h.text = before.text ∧ h.history = before.history ∨
    h.history = .take before.text before.selection :: before.history

/-- **One edit is one undo step.** -/
theorem spans_oneStep (h : Host) : h.Spans h.OneStep where
  self := ⟨rfl, Or.inl ⟨rfl, rfl⟩⟩
  edit e := by
    simp only [requestEdit]
    split
    · exact ⟨rfl, Or.inl ⟨rfl, rfl⟩⟩
    · exact ⟨rfl, Or.inr rfl⟩
  select h' s hh := by
    simp only [Host.requestSelection]
    split <;> exact ⟨hh.undosLeft, hh.history⟩

/-! ## One step back -/

/-- The text is that from before, and so is the selection, or it is the cursor where the active end
of that selection comes to rest. -/
structure BackAt (before h : Host) : Prop where
  text : h.text = before.text
  selection : h.selection = before.selection ∨
    h.selection = .cursor (before.text.restingIndex before.selection.active)

theorem backAt_requestSelection (htext : h.text = before.text)
    (hselection : h.selection = before.selection) :
    before.BackAt
      (after (requestSelection (.cursor (h.text.restingIndex h.selection.active)) h)) := by
  rw [htext, hselection]
  simp only [Host.requestSelection]
  split
  · exact ⟨htext, Or.inl hselection⟩
  · exact ⟨htext, Or.inr rfl⟩

theorem requestUndo_one {step : Snapshot} {history : List Snapshot}
    (hhistory : h.history = step :: history) (hundos : h.undosLeft ≠ some 0) :
    ∃ h', requestUndo 1 h = .ok () h' ∧ h'.text = step.text ∧ h'.selection = step.selection := by
  have hone : rewind 1 none (step :: history) = (some step, history) := rfl
  have hundo : (h.undo 1).text = step.text ∧ (h.undo 1).selection = step.selection := by
    simp [undo, hhistory, hone]
  unfold requestUndo
  cases hleft : h.undosLeft with
  | none => exact ⟨_, rfl, hundo⟩
  | some left =>
    have hpos : 1 ≤ left := Nat.one_le_iff_ne_zero.2 fun hzero => hundos (by rw [hleft, hzero])
    dsimp only
    rw [if_pos hpos]
    exact ⟨_, rfl, hundo⟩

end Host

namespace Editor

variable {ed : Editor} {H : Host → Prop} {event : InputEvent}

/-! ## Work with one edit -/

section

variable (hspans : ed.host.Spans H)

include hspans

theorem spans_commit (c : Commit) : Leaves (commit c) ed (H ·.host) := by
  have hedit := hspans.requestCommitEdit c
  unfold Leaves Ends
  rw [commit_eq]
  cases hr : requestCommitEdit c ed.host with
  | error e host =>
    rw [hr] at hedit
    exact hedit
  | ok _ edited =>
    rw [hr] at hedit
    have hselect := hspans.select edited (.cursor (c.cursor edited.text)) hedit
    dsimp only
    cases hs : Host.requestSelection (.cursor (c.cursor edited.text)) edited with
    | error e host => rw [hs] at hselect; exact hselect
    | ok _ host => rw [hs] at hselect; exact hselect

theorem spans_carryOut (plan : Plan) : Leaves (carryOut plan) ed (H ·.host) := by
  cases plan with
  | drop => exact ends_update hspans.self
  | commit c => exact spans_commit hspans c
  | select kind ends column =>
    have hselect := hspans.select ed.host (ends.selection kind ed.host.text) hspans.self
    refine ends_bind (ends_get (ends_bind ?_))
    exact (leaves_ask (P := (H ·.host)) hselect).mono (fun _ _ h => ends_update h) fun _ h => h

theorem spans_carryOutChange (plan : Plan) (repeatable : Option Repeatable) :
    Leaves (carryOutChange plan repeatable) ed (H ·.host) :=
  ends_carryOutChange_record ((spans_carryOut hspans plan).mono (fun _ _ h _ _ => h) fun _ h => h)

theorem spans_insertStroke (k : Stroke) : Leaves (insertStroke k) ed (H ·.host) := by
  cases k with
  | char c =>
    exact ends_insertText ((spans_commit hspans _).mono (fun _ _ h _ _ => h) fun _ h => h)
  | backspace =>
    exact ends_eraseChar hspans.self fun c _ =>
      (spans_commit hspans c).mono (fun _ _ h _ _ => h) fun _ h => h
  | escape =>
    have hrecord : (ed.withRecord ed.session.lastChange false).host.Spans H := hspans
    exact ends_leaveInsert (spans_commit hrecord _)

theorem spans_undo {count : Nat}
    (hundo : H (Host.after (Host.requestUndo (max count 1) ed.host))) :
    Leaves (undo count) ed (H ·.host) := by
  refine ends_bind ((leaves_ask (P := (H ·.host)) hundo).mono ?_ fun _ h => h)
  intro _ ed' h'
  refine ends_bind (ends_get (ends_commit_selecting rfl ?_ (fun _ h => h) fun _ h => h))
  exact hspans.select ed'.host _ h'

theorem spans_execute {command : Command} (hdot : ∀ count, command ≠ .instant .repeatChange count)
    (hundo : ∀ count, command = .instant .undo count →
      H (Host.after (Host.requestUndo (max count 1) ed.host))) :
    Leaves (execute command) ed (H ·.host) := by
  refine ends_execute ?_ ?_ ?_ ?_ ?_
  · intro plan _
    have hnoted : (ed.noted command).host.Spans H := hspans
    exact spans_carryOutChange hnoted plan _
  · exact fun _ _ _ => hspans.self
  · exact fun count hcount => spans_undo hspans (hundo count hcount)
  · exact fun count hrepeat => absurd hrepeat (hdot count)
  · exact fun _ _ _ _ => hspans.self

theorem spans_reset {after : Editor} (h : H after.host) : H after.reset.host :=
  keeps_reset_host h fun sel => hspans.select after.host sel h

/-- **An event comes to one edit or to undoing**, with selections after it, unless it repeats a
change. -/
theorem spans_press (hdot : ∀ count i, ed.completes event ≠ some (.instant .repeatChange count, i))
    (hundo : ∀ count i, ed.completes event = some (.instant .undo count, i) →
      H (Host.after (Host.requestUndo (max count 1) ed.host))) :
    H (ed.press event).2.host := by
  refine press_of_ends (P := (H ·.host)) (E := (H ·.host)) ?_ fun _ => spans_reset hspans
  refine ends_dispatch ?_ (fun _ => hspans.self) ?_ fun _ => spans_reset hspans hspans.self
  · exact fun _ k _ => spans_insertStroke hspans k
  · intro hmode c hc
    refine ends_commandChar (fun _ _ => hspans.self) ?_ ?_
    · intro i _
      have hinput : H (ed.withInput i).host := hspans.self
      exact spans_reset hspans hinput
    · intro command i hread
      have hinput : (ed.withInput i).host.Spans H := hspans
      have hcompletes := completes_eq hmode hc hread
      refine spans_execute hinput (fun count hcommand => ?_) fun count hcommand => ?_
      · exact hdot count i (hcommand ▸ hcompletes)
      · exact hundo count i (hcommand ▸ hcompletes)

end

theorem countEdits_requests_le
    (hdot : ∀ count i, ed.completes event ≠ some (.instant .repeatChange count, i)) :
    JournalEntry.countEdits (ed.requests event) ≤ 1 := by
  have hspans := ed.host.spans_editsSince
  obtain ⟨entries, hjournal, hcount⟩ := spans_press hspans hdot fun count i _ => by
    obtain ⟨entry, hjournal, hentry⟩ := Host.journal_requestUndo (max count 1) ed.host
    exact hspans.self.cons hjournal hentry
  rw [requests_eq hjournal]
  simpa [JournalEntry.countEdits] using hcount

/-- An event that neither repeats a change nor undoes is at most one step to undo. -/
theorem oneStep_press
    (hdot : ∀ count i, ed.completes event ≠ some (.instant .repeatChange count, i))
    (hundo : ∀ count i, ed.completes event ≠ some (.instant .undo count, i)) :
    ed.host.OneStep (ed.press event).2.host :=
  spans_press ed.host.spans_oneStep hdot fun count i hcompletes => absurd hcompletes (hundo count i)

end Editor

/-! ## Editing in place -/

/-- The command edits and stays in Normal mode: `d` with a motion or a text object, `x`, `X`, `D`,
`p`, `P` or `r`. -/
inductive Input.EditsInPlace (i : Input) : Command → Prop
  | deleteMotion {outer : Option Nat} (m : Motion) (count : Nat) :
      i.operator = some ⟨.delete, outer⟩ → EditsInPlace i (.motion m count)
  | deleteObject {outer : Option Nat} (o : TextObject) (scope : Scope) (count : Nat) :
      i.operator = some ⟨.delete, outer⟩ → EditsInPlace i (.object o scope count)
  | quick {edit : QuickEdit} (count : Nat) :
      edit ∈ [.deleteChar, .deleteCharBefore, .deleteToLineEnd, .putAfter, .putBefore] →
      EditsInPlace i (.instant (.quick edit) count)
  | replace (c : Char) (count : Nat) : EditsInPlace i (.replace c count)

namespace Session

variable {s : Session} {t : Text} {sel : Selection}

theorem planMotion_of_waiting {op : Operator} {outer : Option Nat}
    (hmode : s.mode = .operatorPending) (hop : s.input.operator = some ⟨op, outer⟩) (m : Motion)
    (count : Nat) :
    s.planMotion t sel m count = .drop ∨
      Editor.Settling (op == .change) (s.planMotion t sel m count) := by
  simp only [planMotion, hmode, hop]
  split
  · exact Or.inl rfl
  · exact Or.inr (Editor.settling_planOperator s t sel op _ _)

theorem planObject_of_waiting {op : Operator} {outer : Option Nat}
    (hmode : s.mode = .operatorPending) (hop : s.input.operator = some ⟨op, outer⟩)
    (o : TextObject) (scope : Scope) (count : Nat) :
    s.planObject t sel o scope count = .drop ∨
      Editor.Settling (op == .change) (s.planObject t sel o scope count) := by
  simp only [planObject, hmode, hop]
  split
  · exact Or.inl rfl
  · exact Or.inr (Editor.settling_planOperator s t sel op _ _)

theorem plan_of_editsInPlace (hvisual : s.mode.isVisual = false)
    (hpending : s.input.operator.isSome = true → s.mode = .operatorPending) {command : Command}
    (hcommand : s.input.EditsInPlace command) :
    ∃ plan, s.planCommand t sel command = some plan ∧
      (plan = .drop ∨ Editor.Settling false plan) := by
  cases hcommand with
  | deleteMotion m count hop =>
    exact ⟨_, rfl, planMotion_of_waiting (hpending (by rw [hop]; rfl)) hop m count⟩
  | deleteObject o scope count hop =>
    exact ⟨_, rfl, planObject_of_waiting (hpending (by rw [hop]; rfl)) hop o scope count⟩
  | @quick edit count hedit =>
    have hcases := @Editor.planQuick_cases s t sel edit count count
    have hstays : (Repeatable.quick edit count).entersInsert = false := by
      simp only [List.mem_cons, List.not_mem_nil, or_false] at hedit
      rcases hedit with rfl | rfl | rfl | rfl | rfl <;> rfl
    rw [hstays] at hcases
    exact ⟨_, rfl, hcases.imp_left And.left⟩
  | replace c count => exact ⟨_, rfl, Editor.planReplace_cases hvisual c count⟩

end Session

theorem Input.EditsInPlace.ne_instant {i : Input} {command : Command} (h : i.EditsInPlace command)
    (count : Nat) :
    command ≠ .instant .repeatChange count ∧ command ≠ .instant .undo count := by
  cases h <;> exact ⟨nofun, nofun⟩

namespace Editor

variable {ed done : Editor} {keys : List InputEvent} {event u : InputEvent} {command : Command}
  {i : Input}

/-! ## From Normal mode to Normal mode -/

theorem exists_idle_of_normal (h : ed.Resting) (hmode : ed.session.mode = .normal) :
    (ed.withInput (.idle .normal)).Idle ∧ (ed.withInput (.idle .normal)).Covers ed := by
  have hopen : ed.session.Open := h.1.open_of (by rw [hmode]; nofun) (by rw [hmode]; nofun)
  have hvisual : ed.session.visual = none := hopen.visual_eq_none (congrArg Mode.isVisual hmode)
  have hsound : (ed.withInput (.idle .normal)).session.Sound :=
    Session.sound_of_idle .normal rfl hvisual fun hr => absurd hr (by
      rw [Bool.not_eq_true]
      exact hopen.recording)
  refine ⟨⟨⟨hsound, h.2⟩, rfl⟩, ed.session.input, rfl, h.1.input, ?_⟩
  rw [hopen.input.standing]
  exact fun hinsert => Mode.noConfusion (hmode.symm.trans hinsert)

theorem ends_idle_carryOut {plan : Plan} (hgroups : ed.session.input.jumpGroups = [])
    (hvisual : ed.session.mode.isVisual = false) (hplan : plan = .drop ∨ Settling false plan) :
    Ends (carryOut plan) ed (fun _ ed' => ed'.session.input = .idle .normal) fun _ => True := by
  rcases hplan with rfl | ⟨c, rfl, hrest⟩
  · refine ends_update ?_
    show ed.session.input.switch (if ed.session.mode.isVisual then _ else _) = _
    rw [hvisual]
    exact switch_eq_idle hgroups .normal
  · have hnormal : c.rest = .normal := by
      cases hc : c.rest with
      | normal => rfl
      | insert => cases hrest.1 hc
    refine ends_commit (fun _ => trivial) (fun _ => trivial) fun _ => ?_
    refine (switch_eq_idle hgroups c.rest.mode).trans ?_
    rw [hnormal]
    rfl

/-- A command that edits in place and changes the text leaves Normal mode with no partial input, and
one step back the text and the selection from before it. -/
theorem idle_of_editsInPlace (h : ed.Resting) (hvisual : ed.session.visual = none)
    (hcompletes : ed.completes event = some (command, i)) (hcommand : i.EditsInPlace command)
    (htext : (ed.press event).2.host.text ≠ ed.host.text) :
    (ed.press event).2.Idle ∧ (ed.press event).2.host.undosLeft = ed.host.undosLeft ∧
      (ed.press event).2.host.history =
        .take ed.host.text ed.host.selection :: ed.host.history := by
  have hne := hcommand.ne_instant
  have hstep : ed.host.OneStep (ed.press event).2.host := by
    refine oneStep_press (fun count i' hdot => ?_) fun count i' hundo => ?_
    · rw [hcompletes] at hdot
      cases hdot
      exact (hne count).1 rfl
    · rw [hcompletes] at hundo
      cases hundo
      exact (hne count).2 rfl
  -- the text has changed, so the one step is on the history
  have hedited := hstep.history.resolve_left fun hsame => htext hsame.1
  obtain ⟨hmode, c, hc, hread⟩ := completes_cases hcompletes
  obtain ⟨hopen, -⟩ := open_of_read h hmode hread
  have hstays : i.mode.isVisual = false := by
    have hiff : ed.session.visual.isSome = true ↔ i.mode.isVisual = true := hopen.visual_iff
    simpa [hvisual] using hiff
  have hnoted : ((ed.withInput i).noted command).session.input = i := noted_input command _
  obtain ⟨plan, hplan, hcases⟩ : ∃ plan, (ed.withInput i).planOfCommand command = some plan ∧
      (plan = .drop ∨ Settling false plan) := by
    refine Session.plan_of_editsInPlace ?_ ?_ ?_
    · rw [noted_mode]
      exact hstays
    · rw [noted_mode, hnoted]
      exact hopen.input.operator_iff.1
    · rw [hnoted]
      exact hcommand
  refine ⟨⟨resting_press h event, ?_⟩, hstep.undosLeft, hedited⟩
  refine press_of_ends (P := (·.session.input = .idle .normal)) (E := fun _ => True)
    (ends_dispatch_of_completes hcompletes (ends_execute_planned hplan
      (ends_carryOutChange_record ?_))) fun _ _ => rfl
  refine (ends_idle_carryOut ?_ ?_ hcases).mono (fun _ _ h _ _ => h) fun _ _ => trivial
  · rw [hnoted]
    exact hopen.input.no_groups
  · rw [noted_mode]
    exact hstays

/-! ## Undoing -/

/-- The text and the cursor are those of an earlier editor. -/
structure Restored (before after : Editor) : Prop where
  text : after.host.text = before.host.text
  mode : after.session.mode = before.session.mode
  cursor : after.session.cursor after.host.text after.host.selection =
    before.session.cursor before.host.text before.host.selection
  /-- A selection that was a cursor in the text is the same again. -/
  selection : before.host.selection =
      .cursor (before.session.cursor before.host.text before.host.selection) →
    after.host.selection = before.host.selection

/-- One step back, with the cursor placed at the active end of the selection that is restored. A
host that refuses to place it has restored it already. -/
theorem press_undo (h : ed.Idle) {before : Host} {history : List Snapshot}
    (hhistory : ed.host.history = .take before.text before.selection :: history)
    (hundos : ed.host.undosLeft ≠ some 0) (hu : u.stroke? = some (.char 'u')) :
    (ed.press u).2.session.mode = .normal ∧ before.BackAt (ed.press u).2.host := by
  obtain ⟨undone, hrequest, htext, hselection⟩ := Host.requestUndo_one hhistory hundos
  rw [Snapshot.text_take] at htext
  rw [Snapshot.selection_take] at hselection
  have hcompletes : ed.completes u = some (.instant .undo 1, .idle .normal) := by
    refine completes_eq (by rw [Session.mode, h.input]; decide) hu ?_
    rw [h.input]
    rfl
  refine press_of_ends
    (P := fun after => after.session.mode = .normal ∧ before.BackAt after.host)
    (E := fun refused => refused.session.visual = none ∧ before.BackAt refused.host)
    (ends_dispatch_of_completes hcompletes (ends_bind (ends_get ?_))) ?_
  · have hgranted : Host.requestUndo (max 1 1) ed.host = .ok () undone := hrequest
    refine ends_bind (ends_ask (fun host hok => ?_) fun e host herr => ?_)
    · cases hgranted.symm.trans hok
      have hplaced := Host.backAt_requestSelection htext hselection
      exact ends_bind (ends_get (ends_commit_selecting rfl hplaced
        (fun _ hback => ⟨h.visual_eq_none, hback⟩) fun _ hback => ⟨rfl, hback⟩))
    · cases hgranted.symm.trans herr
  · intro refused hrefused
    refine ⟨rfl, ?_⟩
    rw [reset_host, hrefused.1]
    exact hrefused.2

theorem restored_of_backAt {before after : Editor} (hmode : before.session.mode = .normal)
    (hcursor : before.host.text.IsNormal
      (before.session.cursor before.host.text before.host.selection))
    (hafter : after.session.mode = .normal) (hback : before.host.BackAt after.host) :
    before.Restored after := by
  have hbefore : before.session.cursor before.host.text before.host.selection =
      min before.host.selection.active before.host.text.length :=
    Session.cursor_eq (by rw [hmode]; rfl)
  rw [hbefore] at hcursor
  have hle := hcursor.le_length
  have hrests : before.host.text.restingIndex before.host.selection.active =
      min before.host.selection.active before.host.text.length := by
    rw [Text.restingIndex, ← Position.ofIndex_min_length]
    exact hcursor.restingIndex_eq
  refine ⟨hback.text, hafter.trans hmode.symm, ?_, fun hselection => ?_⟩
  · rw [Session.cursor_eq (by rw [hafter]; rfl), hbefore, hback.text]
    rcases hback.selection with hsame | hplaced
    · rw [hsame]
    · rw [hplaced, hrests]
      exact Nat.min_eq_left hle
  · rcases hback.selection with hsame | hplaced
    · exact hsame
    · rw [hrests, ← hbefore] at hplaced
      exact hplaced.trans hselection.symm

/-- **One command is one undo step.** In every state a history leads to:

* an event requests at most one edit, unless it repeats a change;
* from Normal mode with the cursor at a Normal position, `u` takes back a command that edits in
  place and changes the text, if the host still undoes: text and cursor are those from before the
  first of its keys. -/
theorem one_undo_step (rest : Rest) (config : Config) (clipboard : Option (Option Text))
    (host : Host) (history : List Happening) (ed : Editor)
    (hed : ed = (⟨Session.new rest.mode config clipboard, host⟩ : Editor).happenAll history) :
    (∀ event : InputEvent,
      (∀ count i, ed.completes event ≠ some (.instant .repeatChange count, i)) →
      JournalEntry.countEdits (ed.requests event) ≤ 1) ∧
    ∀ (keys : List InputEvent) (event u : InputEvent) (command : Command) (i : Input),
      ed.session.mode = .normal →
      ed.host.text.IsNormal (ed.session.cursor ed.host.text ed.host.selection) →
      ed.host.undosLeft ≠ some 0 → ed.CompletesOnly (·.isOperator = true) keys →
      (ed.pressAll keys).2.completes event = some (command, i) → i.EditsInPlace command →
      (ed.pressAll (keys ++ [event])).2.host.text ≠ ed.host.text →
      u.stroke? = some (.char 'u') → ed.Restored (ed.pressAll (keys ++ [event, u])).2 := by
  have hresting : ed.Resting := hed ▸ resting_happenAll rest config clipboard host history
  refine ⟨fun event hdot => countEdits_requests_le hdot, ?_⟩
  intro keys event u command i hmode hcursor hundos honly hcompletes hcommand htext hu
  obtain ⟨hidle, hcovers⟩ := exists_idle_of_normal hresting hmode
  obtain ⟨j, hkeys, -, -⟩ := hidle.covers_pressAll hcovers honly
  have hpending : (ed.pressAll keys).2.Resting :=
    keeps_keys (P := Resting) (fun _ e h => resting_press h e) hresting keys
  have hhost : (ed.pressAll keys).2.host = ed.host := by rw [hkeys]; rfl
  have hvisual : (ed.pressAll keys).2.session.visual = none := by
    rw [hkeys]
    exact hidle.visual_eq_none
  rw [pressAll_append] at htext ⊢
  rw [← hhost] at htext
  obtain ⟨hdone, hleft, hstep⟩ := idle_of_editsInPlace hpending hvisual hcompletes hcommand htext
  rw [hhost] at hleft hstep
  obtain ⟨hnormal, hback⟩ := press_undo hdone hstep (hleft ▸ hundos) hu
  exact restored_of_backAt hmode hcursor hnormal hback

/-- With a count typed already, the two words on the line above are deleted, and `u` brings them
back with the cursor below them. -/
theorem one_undo_step_words :
    let ed : Editor := (⟨Session.new .normal {} none, .ofText ['a', ' ', 'b', '\n', 'c'] 4⟩ :
      Editor).happenAll [.event (.text '2')]
    JournalEntry.countEdits (ed.requests (.text 'x')) ≤ 1 ∧
      (ed.pressAll [.text 'd', .text 'b']).2.host.text = ['\n', 'c'] ∧
      ed.Restored (ed.pressAll [.text 'd', .text 'b', .text 'u']).2 := by
  intro ed
  obtain ⟨hedits, hundo⟩ := one_undo_step .normal {} none (.ofText ['a', ' ', 'b', '\n', 'c'] 4)
    [.event (.text '2')] ed rfl
  have hx : ed.completes (.text 'x') = some (.instant (.quick .deleteChar) 2, .idle .normal) := by
    decide
  have hd : ed.completes (.text 'd') = some (.operator .delete (some 2), .idle .normal) := by
    decide
  have hb : (ed.pressAll [.text 'd']).2.completes (.text 'b') =
      some (.motion (.prevWord false) 2, .pending .delete (some 2) none) := by decide
  have hdeleted : (ed.pressAll [.text 'd', .text 'b']).2.host.text = ['\n', 'c'] := by decide
  have hdot : ∀ count i, ed.completes (.text 'x') ≠ some (.instant .repeatChange count, i) := by
    intro count i hdot
    rw [hx] at hdot
    cases hdot
  have honly : ed.CompletesOnly (·.isOperator = true) [.text 'd'] := by
    refine ⟨fun command i hcommand => ?_, trivial⟩
    rw [hd] at hcommand
    cases hcommand
    rfl
  have hnormal : ed.host.text.IsNormal (ed.session.cursor ed.host.text ed.host.selection) :=
    Or.inl ⟨'c', by decide, by decide⟩
  have hchanged : (ed.pressAll ([.text 'd'] ++ [.text 'b'])).2.host.text ≠ ed.host.text := by
    decide
  refine ⟨hedits _ hdot, hdeleted, ?_⟩
  exact hundo [.text 'd'] (.text 'b') (.text 'u') _ _ (by decide) hnormal nofun honly hb
    (.deleteMotion _ _ rfl) hchanged (by decide)

end Editor

end ModalEdit
