import ModalEdit.Proofs.Effects

/-!
# When registers are written

A register is written once the edit of its command is made, and before the cursor is placed. So an
event none of whose edits is granted leaves the registers as they are, whatever else is refused,
with one exception (`registers_kept_without_edit`). An operator may take some of the text and have
nothing to edit: `y`, and `c` on a line that is empty already. It writes its register whatever the
host answers, even if the cursor is refused then (`yank_refused_writes`).

The proof follows the work of an event. As long as no edit was requested the registers are as
before (`Underway`), and the first edit ends the work or was granted. The exception is read off the
plan of the command: one that takes no range unedited writes only with an edit
(`writesEdited_of_untaken`), and one that takes a range unedited writes it
(`plan_of_takesUnedited`).
-/

namespace ModalEdit

/-! ## Operators that take without an edit -/

/-- There is something to take of the region, and the text stays as it is: it is yanked, or it is
changed and nothing is to be removed for that. -/
def Operator.TakesUnedited (op : Operator) (r : Region) : Prop :=
  r.isVoid = false ∧ (op = .yank ∨ op = .change ∧ r.changeStop ≤ r.start)

namespace Operator

variable {op : Operator} {r : Region}

theorem edit_eq_none_of_takesUnedited (h : op.TakesUnedited r) : op.edit r = none := by
  obtain ⟨-, rfl | ⟨rfl, hstop⟩⟩ := h
  · rfl
  · exact if_neg (Nat.not_lt.2 hstop)

theorem takesUnedited_of_edit_eq_none (hvoid : r.isVoid = false) (hedit : op.edit r = none) :
    op.TakesUnedited r := by
  refine ⟨hvoid, ?_⟩
  cases op with
  | yank => exact Or.inl rfl
  | delete =>
    rw [edit, hvoid] at hedit
    cases hedit
  | change =>
    refine Or.inr ⟨rfl, Nat.le_of_not_lt fun hlt => ?_⟩
    rw [edit, if_pos hlt] at hedit
    cases hedit

/-- Changing takes unedited only where it meets an empty line: of characters there is always
something to remove. -/
theorem TakesUnedited.linewise (h : Operator.change.TakesUnedited r) (hle : r.start ≤ r.stop) :
    r.linewise = true := by
  obtain ⟨hvoid, hyank | ⟨-, hstop⟩⟩ := h
  · cases hyank
  · cases hl : r.linewise with
    | true => rfl
    | false =>
      simp [Region.changeStop, Region.isVoid, Region.isEmpty, hl] at hstop hvoid
      omega

end Operator

/-- What the plan writes, it writes after an edit. -/
def Plan.WritesEdited (plan : Plan) : Prop :=
  plan.edit? = none → plan.write? = none

namespace Session

variable {s : Session} {t : Text} {sel : Selection} {command : Command} {op : Operator}
  {range : Range}

/-- The plan of a command that operates on a range is the commit of its operator. -/
theorem Operates.plan_eq (h : s.Operates t sel command op range)
    (hnormal : command.isNormalOnly = true → s.mode.isVisual = false) :
    ∃ column, s.planCommand t sel command =
      some (.commit (op.commit t (Region.ofRange t range) s.registerName (s.cursor t sel)
        column)) := by
  obtain ⟨since, hplan⟩ := h.plan hnormal
  obtain ⟨column, hcommit⟩ := s.planOperator_eq t sel op range since
  exact ⟨column, hplan.trans (congrArg some hcommit)⟩

/-- A command that takes no range unedited writes only with an edit. -/
theorem writesEdited_of_untaken {plan : Plan}
    (hnormal : command.isNormalOnly = true → s.mode.isVisual = false)
    (hplan : s.planCommand t sel command = some plan)
    (huntaken : ∀ op range, s.Operates t sel command op range →
      ¬op.TakesUnedited (Region.ofRange t range)) : plan.WritesEdited := by
  intro hedit
  by_contra hwrite
  obtain ⟨w, hw⟩ := Option.ne_none_iff_exists'.1 hwrite
  obtain ⟨op, range, hoperates, -⟩ := operates_of_write hnormal hplan hw
  obtain ⟨column, hcommit⟩ := hoperates.plan_eq hnormal
  obtain rfl := Option.some.inj (hplan.symm.trans hcommit)
  refine huntaken op range hoperates (Operator.takesUnedited_of_edit_eq_none ?_ hedit)
  cases hvoid : (Region.ofRange t range).isVoid with
  | false => rfl
  | true =>
    rw [Plan.write?, Operator.commit, Region.write?, if_pos hvoid] at hw
    cases hw

theorem plan_of_takesUnedited (h : s.Operates t sel command op range)
    (hnormal : command.isNormalOnly = true → s.mode.isVisual = false)
    (htakes : op.TakesUnedited (Region.ofRange t range)) :
    ∃ c : Commit, s.planCommand t sel command = some (.commit c) ∧ c.edit = none ∧
      c.write = some (s.registerName, (Region.ofRange t range).register t) := by
  obtain ⟨column, hcommit⟩ := h.plan_eq hnormal
  refine ⟨_, hcommit, Operator.edit_eq_none_of_takesUnedited htakes, ?_⟩
  exact if_neg (by rw [htakes.1]; nofun)

end Session

/-! ## Writing after the edit -/

namespace Host

variable {h h' : Host} {journal : List JournalEntry}

/-- The first edit requested since was granted. -/
def EditedSince (journal : List JournalEntry) (h : Host) : Prop :=
  h.Since journal (· = some true)

theorem EditedSince.cons {entry : JournalEntry} (hh : h.EditedSince journal)
    (hjournal : h'.journal = entry :: h.journal) : h'.EditedSince journal := by
  refine Since.cons hh hjournal fun answer hanswer => ?_
  rw [hanswer]
  rfl

theorem NoEditSince.edited (hh : h.NoEditSince journal) {length : Nat} {edit : Edit}
    (hjournal : h'.journal = .edit length edit true :: h.journal) : h'.EditedSince journal := by
  obtain ⟨entries, hentries, hnone⟩ := hh
  refine ⟨_ :: entries, by rw [hjournal, hentries]; rfl, ?_⟩
  rw [firstEditGranted?_cons, hnone]
  rfl

end Host

namespace Editor

variable {start ed : Editor}

/-- The registers are as before, or the first edit requested since was granted. -/
def Accounted (start ed : Editor) : Prop :=
  ed.session.registers = start.session.registers ∨ ed.host.EditedSince start.host.journal

/-- No edit was requested and the registers are as before, or the first edit was granted. -/
def Underway (start ed : Editor) : Prop :=
  ed.session.registers = start.session.registers ∧ ed.host.NoEditSince start.host.journal ∨
    ed.host.EditedSince start.host.journal

theorem Underway.accounted (h : start.Underway ed) : start.Accounted ed :=
  h.imp And.left id

theorem Underway.congr (h : start.Underway ed) {s : Session}
    (hs : s.registers = ed.session.registers) : start.Underway { ed with session := s } :=
  h.imp (fun h => ⟨hs.trans h.1, h.2⟩) id

/-- The work is done with nothing written ahead of an edit, or refused so. -/
def EndsAccounted (start : Editor) (work : Attempt Unit) (ed : Editor) : Prop :=
  Ends work ed (fun _ => start.Underway) start.Accounted

/-! ### Carrying out plans -/

/-- What the request to place the cursor leaves, granted or refused. -/
theorem Underway.requestSelection {host : Host} {s : Session} (h : start.Underway ⟨s, host⟩)
    (sel : Selection) : start.Underway ⟨s, Host.after (Host.requestSelection sel host)⟩ :=
  h.imp (fun h => ⟨h.1, Host.Since.requestSelection h.2 sel⟩)
    fun h => Host.Since.requestSelection h sel

/-- Once the edit of a commit is granted, its register may be written. -/
theorem Underway.afterEdit (h : start.Underway ed) {c : Commit} (hc : (Plan.commit c).WritesEdited)
    {host : Host} (hr : requestCommitEdit c ed.host = .ok () host) :
    start.Underway ⟨(ed.session.begin c).afterEdit c, host⟩ := by
  obtain ⟨hedit, rfl⟩ | ⟨edit, -, rfl⟩ := requestCommitEdit_granted hr
  · have hwrite : c.write = none := hc hedit
    exact h.congr (by simp only [Session.afterEdit, hwrite]; rfl)
  · refine Or.inr ?_
    rcases h with ⟨-, hnone⟩ | hedited
    · exact hnone.edited rfl
    · exact hedited.cons rfl

theorem Underway.refused (h : start.Underway ed) {c : Commit} {e : HostError} {host : Host}
    (hr : requestCommitEdit c ed.host = .error e host) :
    start.Accounted ⟨ed.session.begin c, host⟩ := by
  obtain ⟨edit, -, rfl⟩ := requestCommitEdit_refused hr
  rcases h with ⟨hregisters, -⟩ | hedited
  · exact Or.inl hregisters
  · exact Or.inr (hedited.cons rfl)

/-- **A commit writes after its edit.** Placing the cursor then is no edit, granted or refused. -/
theorem endsAccounted_commit (h : start.Underway ed) {c : Commit}
    (hc : (Plan.commit c).WritesEdited) : EndsAccounted start (commit c) ed := by
  unfold EndsAccounted Ends
  rw [commit_eq]
  cases hr : requestCommitEdit c ed.host with
  | error e host => exact h.refused hr
  | ok _ edited =>
    have hplaced := (h.afterEdit hc hr).requestSelection (.cursor (c.cursor edited.text))
    dsimp only
    cases hs : Host.requestSelection (.cursor (c.cursor edited.text)) edited with
    | error e host => rw [hs] at hplaced; exact hplaced.accounted
    | ok _ host => rw [hs] at hplaced; exact hplaced

theorem endsAccounted_carryOut (h : start.Underway ed) {plan : Plan} (hplan : plan.WritesEdited) :
    EndsAccounted start (carryOut plan) ed := by
  cases plan with
  | drop => exact ends_update h
  | commit c => exact endsAccounted_commit h hplan
  | select kind ends column =>
    have hshown := h.requestSelection (ends.selection kind ed.host.text)
    refine ends_bind (ends_get (ends_bind ?_))
    refine (leaves_ask (P := start.Underway) hshown).mono ?_ fun _ h => h.accounted
    exact fun _ _ h => ends_update h

theorem endsAccounted_carryOutChange (h : start.Underway ed) {plan : Plan}
    (hplan : plan.WritesEdited) (repeatable : Option Repeatable) :
    EndsAccounted start (carryOutChange plan repeatable) ed :=
  ends_carryOutChange_record
    ((endsAccounted_carryOut h hplan).mono (fun _ _ h _ _ => h) fun _ h => h)

/-! ### Insert mode -/

theorem endsAccounted_insertText (h : start.Underway ed) (text : Text) :
    EndsAccounted start (insertText text) ed := by
  have hcommit := endsAccounted_commit h
    (c := ed.session.planType ed.host.text ed.host.selection text) fun _ => rfl
  exact ends_insertText (hcommit.mono (fun _ _ h _ _ => h) fun _ h => h)

theorem endsAccounted_eraseChar (h : start.Underway ed) : EndsAccounted start eraseChar ed := by
  refine ends_eraseChar h fun c hplan => ?_
  have hwrite : c.write = none := Session.write_of_planErase hplan
  exact (endsAccounted_commit h fun _ => hwrite).mono (fun _ _ h _ _ => h) fun _ h => h

theorem endsAccounted_leaveInsert (h : start.Underway ed) : EndsAccounted start leaveInsert ed := by
  have hended : start.Underway (ed.withRecord ed.session.lastChange false) := h
  exact ends_leaveInsert (endsAccounted_commit hended fun _ => rfl)

theorem endsAccounted_insertStroke (h : start.Underway ed) (k : Stroke) :
    EndsAccounted start (insertStroke k) ed := by
  cases k with
  | char c => exact endsAccounted_insertText h [c]
  | backspace => exact endsAccounted_eraseChar h
  | escape => exact endsAccounted_leaveInsert h

/-! ### Commands -/

theorem endsAccounted_undo (h : start.Underway ed) (count : Nat) :
    EndsAccounted start (undo count) ed := by
  have hundone : start.Underway
      { ed with host := Host.after (Host.requestUndo (max count 1) ed.host) } :=
    h.imp (fun h => ⟨h.1, h.2.requestUndo _⟩) fun h => h.requestUndo _
  refine ends_bind ((leaves_ask (P := start.Underway) hundone).mono ?_ fun _ h => h.accounted)
  exact fun _ _ h => ends_bind (ends_get (endsAccounted_commit h fun _ => rfl))

theorem endsAccounted_replay (h : start.Underway ed) {change : Repeatable}
    (hplan : (ed.planOf change).WritesEdited) (typed : Text) :
    EndsAccounted start (replay change typed) ed := by
  have hprepared : start.Underway (ed.prepared change) :=
    h.congr (by rw [Session.prepareRepeat_frame])
  refine ends_replay ((endsAccounted_carryOut hprepared hplan).mono ?_ fun _ h => h)
  intro _ ed h
  refine ⟨fun _ => h, fun _ _ => endsAccounted_leaveInsert h, fun _ => ?_⟩
  exact (endsAccounted_insertText h typed).mono
    (fun _ _ h => endsAccounted_leaveInsert h) fun _ h => h

theorem endsAccounted_execute (h : start.Underway ed) {command : Command}
    (hplan : ∀ plan, ed.planOfCommand command = some plan → plan.WritesEdited)
    (hrepeat : ∀ count last, command = .instant .repeatChange count →
      ed.session.lastChange = some last →
      (ed.planOf
        (if count = 0 then last.command else last.command.withCount count)).WritesEdited) :
    EndsAccounted start (execute command) ed := by
  refine ends_execute ?_ ?_ ?_ ?_ ?_
  · intro plan hp
    have hnoted : start.Underway (ed.noted command) :=
      h.congr (by rw [Session.noteCommand_frame])
    exact endsAccounted_carryOutChange hnoted (hplan plan hp) _
  · exact fun _ _ _ => h.congr rfl
  · exact fun count _ => endsAccounted_undo h count
  · intro count hcommand
    refine ends_repeatChange (fun _ => h.congr rfl) fun last hlast => ?_
    have hreplaying : start.Underway ed.replaying := h.congr rfl
    refine (endsAccounted_replay hreplaying ?_ last.typed).mono (fun _ _ h => h.congr rfl) ?_
    · rw [planOf_replaying]
      exact hrepeat count last hcommand hlast
    · exact fun _ h => h
  · exact fun _ _ _ _ => h.congr rfl

/-! ### Events -/

theorem Underway.reset (h : start.Underway ed) : start.Underway ed.reset :=
  h.imp (fun h => ⟨h.1, since_reset h.2⟩) since_reset

theorem Accounted.reset (h : start.Accounted ed) : start.Accounted ed.reset :=
  h.imp id since_reset

/-- **An event writes after its first edit**, if its plan does. -/
theorem accounted_press {event : InputEvent}
    (hplan : ∀ command i plan, ed.completes event = some (command, i) →
      (ed.withInput i).planOfCommand command = some plan → plan.WritesEdited)
    (hrepeat : ∀ count i last, ed.completes event = some (.instant .repeatChange count, i) →
      ed.session.lastChange = some last →
      ((ed.withInput i).planOf
        (if count = 0 then last.command else last.command.withCount count)).WritesEdited) :
    ed.Accounted (ed.press event).2 := by
  have hself : ed.Underway ed := Or.inl ⟨rfl, ed.host.noEditSince_self⟩
  have hends : Ends (dispatch event) ed (fun _ => ed.Accounted) ed.Accounted := by
    refine ends_dispatch ?_ (fun _ => hself.accounted) ?_ fun _ => hself.reset.accounted
    · exact fun _ k _ => (endsAccounted_insertStroke hself k).mono (fun _ _ h => h.accounted)
        fun _ h => h
    · intro hmode c hc
      have hinput (i : Input) : ed.Underway (ed.withInput i) := hself.congr rfl
      refine ends_commandChar (fun i _ => (hinput i).accounted)
        (fun i _ => (hinput i).reset.accounted) ?_
      intro command i hread
      have hcompletes := completes_eq hmode hc hread
      have hexecute := endsAccounted_execute (hinput i)
        (fun plan hp => hplan command i plan hcompletes hp)
        fun count last hcommand => hrepeat count i last (hcommand ▸ hcompletes)
      exact hexecute.mono (fun _ _ h => h.accounted) fun _ h => h
  exact press_of_ends hends fun _ h => h.reset

/-! ## Writing without an edit -/

section

variable {c : Commit} {name : Char} {reg : Register}

theorem writes_commit (hedit : c.edit = none) (hwrite : c.write = some (name, reg)) :
    Leaves (commit c) ed (·.session.registers = ed.session.registers.write name reg) := by
  have hwritten : ((ed.session.begin c).afterEdit c).registers =
      ed.session.registers.write name reg := by
    simp only [Session.afterEdit, hwrite]
    rfl
  exact ends_commit_unedited hedit (fun _ => hwritten) fun _ => hwritten

theorem writes_replay {change : Repeatable} (hplan : ed.planOf change = .commit c)
    (hedit : c.edit = none) (hwrite : c.write = some (name, reg)) (typed : Text) :
    Leaves (replay change typed) ed
      (·.session.registers = ed.session.registers.write name reg) := by
  have hregisters : (ed.prepared change).session.registers = ed.session.registers := by
    unfold prepared
    rw [Session.prepareRepeat_frame]
  have hcommit : Leaves (commit c) (ed.prepared change) _ := writes_commit hedit hwrite
  rw [hregisters] at hcommit
  refine ends_replay ?_
  rw [hplan]
  refine hcommit.mono (fun _ after h => ?_) fun _ h => h
  -- typing a text after the change and leaving Insert mode write nothing
  have hleave {after : Editor}
      (h : after.session.registers = ed.session.registers.write name reg) :
      Leaves leaveInsert after (·.session.registers = ed.session.registers.write name reg) :=
    holds_leaveInsert (R := (· = ed.session.registers.write name reg)) h
  refine ⟨fun _ => h, fun _ _ => hleave h, fun _ => ?_⟩
  exact (holds_insertText (R := (· = ed.session.registers.write name reg)) h typed).mono
    (fun _ _ h => hleave h) fun _ h => h

theorem writes_execute {command : Command}
    (hplan : ed.planOfCommand command = some (.commit c)) (hedit : c.edit = none)
    (hwrite : c.write = some (name, reg)) :
    Leaves (execute command) ed
      (·.session.registers = ed.session.registers.write name reg) := by
  have hcommit : Leaves (commit c) (ed.noted command) _ := writes_commit hedit hwrite
  rw [noted_registers] at hcommit
  exact ends_execute_planned hplan
    (ends_carryOutChange_record (hcommit.mono (fun _ _ h _ _ => h) fun _ h => h))

end

/-- An event takes a range and has nothing to edit for it. -/
def TakesUnedited (ed : Editor) (event : InputEvent) (range : Range) : Prop :=
  ∃ op, ed.Operates event op range ∧ op.TakesUnedited (Region.ofRange ed.host.text range)

/-- What an event takes without an edit it writes, whatever the host answers. -/
theorem press_of_takesUnedited (h : ed.Resting) {event : InputEvent} {range : Range}
    (htakes : ed.TakesUnedited event range) :
    (ed.press event).2.session.registers = ed.registersHolding range := by
  obtain ⟨op, hoperates, htakes⟩ := htakes
  have hpress (hends : Leaves (dispatch event) ed
      (·.session.registers = ed.registersHolding range)) :
      (ed.press event).2.session.registers = ed.registersHolding range :=
    press_of_ends (P := (·.session.registers = ed.registersHolding range)) hends fun _ h => h
  cases hoperates with
  | @command command i hcompletes hoperates =>
    obtain ⟨hvisual, hname⟩ := planned_of_completes h hcompletes
    obtain ⟨c, hplan, hedit, hwrite⟩ := Session.plan_of_takesUnedited hoperates hvisual htakes
    have hexecute : Leaves (execute command) (ed.withInput i) _ :=
      writes_execute hplan hedit hwrite
    refine hpress (ends_dispatch_of_completes hcompletes ?_)
    exact hexecute.mono (fun _ _ h => h.trans (write_eq_registersHolding hname rfl))
      fun _ h => h.trans (write_eq_registersHolding hname rfl)
  | @repeated count i last change hcompletes hlast hchange hoperates =>
    obtain ⟨hvisual, hname⟩ := prepared_of_completes h hcompletes change
    obtain ⟨c, hplan, hedit, hwrite⟩ :=
      Session.plan_of_takesUnedited hoperates (fun _ => hvisual) htakes
    have hplanOf : (ed.withInput i).planOf change = .commit c :=
      Option.some.inj ((Session.planCommand_command _ _ _ change).symm.trans hplan)
    have hreplay : Leaves (replay change last.typed) (ed.withInput i).replaying _ :=
      writes_replay (by rw [planOf_replaying]; exact hplanOf) hedit hwrite last.typed
    refine hpress (ends_dispatch_repeat hcompletes hlast ?_)
    rw [← hchange]
    exact hreplay.mono (fun _ _ h => h.trans (write_eq_registersHolding hname rfl))
      fun _ h => h.trans (write_eq_registersHolding hname rfl)

/-- **Registers are written with an edit, or for want of one.** In every state a history leads to,
on any host, whatever it refuses:

* an event that has no edit granted leaves the registers and the clipboard as they are, unless it
  takes a range without one;
* an event that takes a range without an edit writes what the range holds. -/
theorem registers_kept_without_edit (rest : Rest) (config : Config)
    (clipboard : Option (Option Text)) (host : Host) (history : List Happening)
    (event : InputEvent) :
    let ed := (⟨Session.new rest.mode config clipboard, host⟩ : Editor).happenAll history
    let after := (ed.press event).2
    ((∀ entry ∈ ed.requests event, entry.editGranted? ≠ some true) →
      (∀ range, ¬ed.TakesUnedited event range) →
      after.session.registers = ed.session.registers) ∧
    ∀ range, ed.TakesUnedited event range →
      after.session.registers = ed.registersHolding range := by
  intro ed after
  have h : ed.Resting := resting_happenAll rest config clipboard host history
  refine ⟨fun hrefused huntaken => ?_, fun range => press_of_takesUnedited h⟩
  have haccounted : ed.Accounted after := by
    refine accounted_press ?_ ?_
    · intro command i plan hcompletes hplan
      obtain ⟨hvisual, -⟩ := planned_of_completes h hcompletes
      refine Session.writesEdited_of_untaken hvisual hplan fun op range hoperates htakes => ?_
      exact huntaken range ⟨op, .command hcompletes hoperates, htakes⟩
    · intro count i last hcompletes hlast
      generalize hchange :
        (if count = 0 then last.command else last.command.withCount count) = change
      obtain ⟨hvisual, -⟩ := prepared_of_completes h hcompletes change
      refine Session.writesEdited_of_untaken (fun _ => hvisual)
        (Session.planCommand_command _ _ _ change) fun op range hoperates htakes => ?_
      exact huntaken range ⟨op, .repeated change hcompletes hlast hchange.symm hoperates, htakes⟩
  rcases haccounted with hsame | ⟨entries, hjournal, hfirst⟩
  · exact hsame
  · obtain ⟨entry, hentry, hgranted⟩ := List.exists_of_findSome?_eq_some hfirst
    exact absurd hgranted (hrefused entry (by rw [requests_eq hjournal]; exact hentry))

/-- `y` on a character, of which the cursor is refused: no edit is granted, because none is asked
for, and the character is in the register. -/
theorem yank_refused_writes :
    let ed := ((⟨Session.new .normal {} none, (Host.ofText ['a', 'b'] 0).refuseSelections 1⟩ :
      Editor).press (.text 'y')).2
    ed.requests (.text 'l') = [.select 2 (.cursor 0) false] ∧
      ed.session.registers.read Registers.unnamed = none ∧
      (ed.press (.text 'l')).1 = none ∧
      (ed.press (.text 'l')).2.session.registers.read Registers.unnamed =
        some ⟨false, ['a']⟩ := by
  decide

end Editor

end ModalEdit
