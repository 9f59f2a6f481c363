import ModalEdit.Proofs.Columns
import ModalEdit.Proofs.Effects
import ModalEdit.Proofs.Escaping

/-!
# Forgetting the preferred column

The column that `j` and `k` keep has to be forgotten when something else moves the cursor. A motion
to the side forgets it, and so do an operator that takes something and every command that enters
Insert mode (`Session.ForgetsColumn`); no column is preferred while text is typed. So after such a
command, after its repetition, and after Insert mode, `j` and `k` start from the cursor's column
(`vertical_after_forgetting`).

Puts, `r` and the changes of case place the cursor as well and keep the column that was preferred
before (`put_keeps_column`).

What a command forgets is read off the column rule of its commit (`ForgetsColumn.plan`). The rest of
the work keeps the column, because what is typed and leaving Insert mode do (`fresh_leaveInsert`).
-/

namespace ModalEdit

/-! ## Plans that forget -/

/-- No column is preferred when the commit is over. -/
def ColumnRule.forgets : ColumnRule → Bool
  | keep => false
  | forget _ => true
  | become column => column.isNone

/-- Before the end no column comes to be preferred. -/
theorem ColumnRule.reach_none (rule : ColumnRule) {stage : Stage} (h : stage ≠ .placed) :
    rule.reach stage none = none := by
  cases rule with
  | keep => rfl
  | forget since => exact ite_self none
  | become column => exact if_neg h

/-- A plan that settles in Insert mode forgets the column. -/
def Plan.FreesTyping (plan : Plan) : Prop :=
  ∀ c, plan = .commit c → c.rest = .insert → c.column.forgets = true

theorem Plan.freesTyping_of_normal {c : Commit} (h : c.rest = .normal) :
    (Plan.commit c).FreesTyping := by
  rintro _ ⟨⟩ hinsert
  cases h.symm.trans hinsert

theorem Plan.freesTyping_of_forgets {c : Commit} (h : c.column.forgets = true) :
    (Plan.commit c).FreesTyping := by
  rintro _ ⟨⟩ -
  exact h

namespace Session

variable {s : Session} {t : Text} {sel : Selection} {command : Command} {op : Operator}
  {range : Range}

theorem preferred_committed {c : Commit} (h : c.column.forgets = true) :
    (s.committed c).preferred = none := by
  simp only [committed, settle, afterEdit, begin]
  cases hrule : c.column with
  | keep => rw [hrule] at h; cases h
  | forget since => cases since <;> simp [ColumnRule.reach]
  | become column =>
    rw [hrule] at h
    simpa [ColumnRule.reach, ColumnRule.forgets] using h

/-- An operator forgets the column from the stage on that it is told, if it takes something or
enters Insert mode. From the start on it forgets it in any case. -/
theorem planOperator_forgets (s : Session) (t : Text) (sel : Selection) {since : Stage}
    (h : since = .start ∨ (Region.ofRange t range).isVoid = false ∨ op = .change) :
    ∃ c, s.planOperator t sel op range since = .commit c ∧ c.column.forgets = true := by
  simp only [planOperator]
  by_cases hvoid : (Region.ofRange t range).isVoid = true ∧ op ≠ .change
  · rw [if_pos hvoid]
    refine ⟨_, rfl, ?_⟩
    obtain rfl | hsome | rfl := h
    · rfl
    · cases hvoid.1.symm.trans hsome
    · exact absurd rfl hvoid.2
  · rw [if_neg hvoid]
    cases op <;> exact ⟨_, rfl, rfl⟩

theorem freesTyping_planOperator (s : Session) (t : Text) (sel : Selection) (op : Operator)
    (range : Range) (since : Stage) : (s.planOperator t sel op range since).FreesTyping := by
  by_cases hchange : op = .change
  · obtain ⟨c, hplan, hforgets⟩ := s.planOperator_forgets t sel (Or.inr (Or.inr hchange))
    rw [hplan]
    exact Plan.freesTyping_of_forgets hforgets
  · obtain ⟨column, hplan⟩ := s.planOperator_eq t sel op range since
    rw [hplan]
    refine Plan.freesTyping_of_normal ?_
    cases op with
    | change => exact absurd rfl hchange
    | _ => rfl

theorem freesTyping_planMotion (m : Motion) (count : Nat) :
    (s.planMotion t sel m count).FreesTyping := by
  simp only [planMotion]
  split
  · rintro _ ⟨⟩
  · split
    · split
      · exact freesTyping_planOperator _ _ _ _ _ _
      · rintro _ ⟨⟩
    · rintro _ ⟨⟩
    · exact Plan.freesTyping_of_normal rfl

theorem freesTyping_planObject (o : TextObject) (scope : Scope) (count : Nat) :
    (s.planObject t sel o scope count).FreesTyping := by
  simp only [planObject]
  split
  · rintro _ ⟨⟩
  · split
    · split
      · exact freesTyping_planOperator _ _ _ _ _ _
      · rintro _ ⟨⟩
    · split <;> rintro _ ⟨⟩
    · rintro _ ⟨⟩

theorem planInsert_forgets (s : Session) (t : Text) (sel : Selection) (place : Insertion) :
    ∃ c, s.planInsert t sel place = .commit c ∧ c.column.forgets = true := by
  cases place <;> exact ⟨_, rfl, rfl⟩

theorem freesTyping_planEnter (entry : Entry) : (s.planEnter t sel entry).FreesTyping := by
  cases entry with
  | insert place =>
    obtain ⟨c, hplan, hforgets⟩ := s.planInsert_forgets t sel place
    show (s.planInsert t sel place).FreesTyping
    rw [hplan]
    exact Plan.freesTyping_of_forgets hforgets
  | visual kind => rintro _ ⟨⟩

theorem freesTyping_planOperateTo (op : Operator) (m : Motion) (count : Nat) :
    (s.planOperateTo t sel op m count).FreesTyping := by
  unfold planOperateTo
  split
  · exact freesTyping_planOperator _ _ _ _ _ _
  · rintro _ ⟨⟩

theorem freesTyping_planPut (count : Nat) (after : Bool) :
    (s.planPut t sel count after).FreesTyping := by
  simp only [planPut]
  split
  · rintro _ ⟨⟩
  · split
    · exact Plan.freesTyping_of_normal rfl
    · rintro _ ⟨⟩

theorem freesTyping_planTransform (f : Text → Text) (always : Bool) :
    (s.planTransform t f always).FreesTyping := by
  simp only [planTransform]
  split
  · exact Plan.freesTyping_of_normal rfl
  · rintro _ ⟨⟩

theorem freesTyping_planReplace (c : Char) (count : Nat) :
    (s.planReplace t sel c count).FreesTyping := by
  simp only [planReplace]
  split
  · exact freesTyping_planTransform _ _
  · split
    · rintro _ ⟨⟩
    · split <;> exact Plan.freesTyping_of_normal rfl

theorem freesTyping_planOperateSelection (op : Operator) (lines : Bool) :
    (s.planOperateSelection t sel op lines).FreesTyping := by
  unfold planOperateSelection
  split
  · exact freesTyping_planOperator _ _ _ _ _ _
  · rintro _ ⟨⟩

theorem freesTyping_planQuick (edit : QuickEdit) (count : Nat) :
    (s.planQuick t sel edit count).FreesTyping := by
  simp only [planQuick]
  cases edit with
  | putAfter | putBefore => exact freesTyping_planPut _ _
  | deleteChar | deleteCharBefore | substituteChar => exact freesTyping_planOperator _ _ _ _ _ _
  | changeToLineEnd | deleteToLineEnd | substituteLine => exact freesTyping_planOperateTo _ _ _

theorem freesTyping_planInstant (instant : Instant) (count : Nat) :
    (s.planInstant t sel instant count).FreesTyping := by
  cases instant with
  | quick edit => exact freesTyping_planQuick edit count
  | selection command =>
    cases command with
    | lowerCase | upperCase => exact freesTyping_planTransform _ _
    | _ => exact freesTyping_planOperateSelection _ _
  | yankLine => exact freesTyping_planOperateTo .yank .wholeLines count
  | _ => rintro _ ⟨⟩

/-- **Every command that enters Insert mode forgets the column.** -/
theorem freesTyping_planCommand {plan : Plan} (hplan : s.planCommand t sel command = some plan) :
    plan.FreesTyping := by
  cases command with
  | motion m count => cases hplan; exact freesTyping_planMotion m count
  | object o scope count => cases hplan; exact freesTyping_planObject o scope count
  | enter entry => cases hplan; exact freesTyping_planEnter entry
  | replace c count => cases hplan; exact freesTyping_planReplace c count
  | operator op count => cases hplan
  | instant instant count =>
    cases instant with
    | undo | repeatChange | setMark => cases hplan
    | _ => cases hplan; exact freesTyping_planInstant _ count

/-! ## Commands that forget -/

/-- Commands that forget the preferred column: outside Visual mode a motion that has a target, other
than one to another line by number of lines and `$`; an operator given a motion; any other operator
that takes something, and every one that enters Insert mode; and the other commands that do. -/
inductive ForgetsColumn (s : Session) (t : Text) (sel : Selection) : Command → Prop
  | motion {m : Motion} {count : Nat} {range : Range} :
      s.mode.isVisual = false → s.mode ≠ .operatorPending → m.isVertical = false →
      m ≠ .lineEnd → s.motionRange t m count (s.cursor t sel) = some range →
      ForgetsColumn s t sel (.motion m count)
  | operateTo {m : Motion} {count : Nat} {op : Operator} {range : Range} :
      s.Operates t sel (.motion m count) op range → ForgetsColumn s t sel (.motion m count)
  | operate {command : Command} {op : Operator} {range : Range} :
      s.Operates t sel command op range →
      (Region.ofRange t range).isVoid = false ∨ op = .change → ForgetsColumn s t sel command
  | insert (place : Insertion) : ForgetsColumn s t sel (.enter (.insert place))

/-- **The commit of such a command forgets the column.** -/
theorem ForgetsColumn.plan (h : s.ForgetsColumn t sel command)
    (hnormal : command.isNormalOnly = true → s.mode.isVisual = false) :
    ∃ c, s.planCommand t sel command = some (.commit c) ∧ c.column.forgets = true := by
  cases h with
  | @motion m count range hvisual hpending hvertical hline hrange =>
    have hcolumn : s.columnAfter m t (s.cursor t sel) = none := by
      simp [columnAfter, hvertical, hline]
    simp only [planCommand, planMotion, hrange, hcolumn]
    cases hmode : s.mode with
    | operatorPending => exact absurd hmode hpending
    | visual kind => rw [hmode] at hvisual; cases hvisual
    | _ => exact ⟨_, rfl, rfl⟩
  | operateTo hoperates =>
    cases hoperates with
    | motion hwaiting hrange =>
      obtain ⟨hmode, pending, hpending, rfl⟩ := waiting_eq_some.1 hwaiting
      simp only [planCommand, planMotion, hrange, hmode, hpending]
      obtain ⟨c, hplan, hforgets⟩ := s.planOperator_forgets t sel (Or.inl rfl)
      exact ⟨c, congrArg some hplan, hforgets⟩
  | operate hoperates htakes =>
    obtain ⟨since, hplan⟩ := hoperates.plan hnormal
    obtain ⟨c, hcommit, hforgets⟩ := s.planOperator_forgets t sel (Or.inr htakes)
    exact ⟨c, hplan.trans (congrArg some hcommit), hforgets⟩
  | insert place =>
    obtain ⟨c, hplan, hforgets⟩ := s.planInsert_forgets t sel place
    exact ⟨c, congrArg some hplan, hforgets⟩

end Session

/-- Sound input outside Insert mode does not stand for it either. -/
theorem Input.Sound.standing_ne_insert {i : Input} (h : i.Sound) (hmode : i.mode ≠ .insert) :
    i.standing ≠ .insert := by
  cases h with
  | insert => exact absurd rfl hmode
  | opened hopen => rw [hopen.standing]; exact hmode
  | labels hjump hlabel htargets hopen =>
    simp only [standing, hlabel]
    exact hopen.mode_ne_insert

namespace Editor

variable {ed : Editor} {event : InputEvent}

/-! ## No column while text is typed -/

/-- No column is preferred while text is typed. -/
def FreeTyping (ed : Editor) : Prop :=
  ed.session.mode = .insert → ed.session.preferred = none

theorem freeTyping_of_mode (hmode : ed.session.mode ≠ .insert) : ed.FreeTyping :=
  fun hinsert => absurd hinsert hmode

theorem FreeTyping.congr (h : ed.FreeTyping) {s : Session} {host : Host}
    (hmode : s.mode = ed.session.mode) (hpreferred : s.preferred = ed.session.preferred) :
    FreeTyping ⟨s, host⟩ :=
  fun hinsert => hpreferred.trans (h (hmode.symm.trans hinsert))

/-- A commit that settles in Insert mode is to forget the column. -/
theorem freeTyping_commit (h : ed.FreeTyping) {c : Commit}
    (hc : c.rest = .insert → (ed.session.committed c).preferred = none) :
    Leaves (commit c) ed FreeTyping := by
  have hbegun (hmode : ed.session.mode = .insert) : (ed.session.begin c).preferred = none := by
    show c.column.reach .start ed.session.preferred = none
    rw [h hmode]
    exact ColumnRule.reach_none _ nofun
  refine ends_commit (fun _ => hbegun) (fun _ hmode => ?_) fun _ hmode => hc ?_
  · show c.column.reach .edited (ed.session.begin c).preferred = none
    rw [hbegun hmode]
    exact ColumnRule.reach_none _ nofun
  · cases hrest : c.rest with
    | insert => rfl
    | normal =>
      have hsettled : c.rest.mode = .insert := hmode
      rw [hrest] at hsettled
      cases hsettled

theorem freeTyping_carryOut (h : ed.FreeTyping) {plan : Plan} (hplan : plan.FreesTyping) :
    Leaves (carryOut plan) ed FreeTyping := by
  cases plan with
  | drop => exact ends_update (freeTyping_of_mode (dropPending_mode_ne_insert ed.session))
  | commit c =>
    exact freeTyping_commit h fun hrest => Session.preferred_committed (hplan c rfl hrest)
  | select kind ends column =>
    exact ends_select (fun _ => h) fun _ => freeTyping_of_mode nofun

theorem freeTyping_carryOutChange (h : ed.FreeTyping) {plan : Plan} (hplan : plan.FreesTyping)
    (repeatable : Option Repeatable) : Leaves (carryOutChange plan repeatable) ed FreeTyping :=
  ends_carryOutChange_record
    ((freeTyping_carryOut h hplan).mono (fun _ _ h _ _ => h) fun _ h => h)

theorem freeTyping_insertText (h : ed.FreeTyping) (hmode : ed.session.mode = .insert)
    (text : Text) : Leaves (insertText text) ed FreeTyping := by
  have hcommit := freeTyping_commit h
    (c := ed.session.planType ed.host.text ed.host.selection text) fun _ => h hmode
  exact ends_insertText (hcommit.mono (fun _ _ h _ _ => h) fun _ h => h)

theorem freeTyping_eraseChar (h : ed.FreeTyping) (hmode : ed.session.mode = .insert) :
    Leaves eraseChar ed FreeTyping := by
  refine ends_eraseChar h fun c hplan => ?_
  have hkeep : (ed.session.committed c).preferred = none := by
    simp only [Session.planErase, Option.ite_none_left_eq_some, Option.some.injEq] at hplan
    obtain ⟨-, rfl⟩ := hplan
    exact h hmode
  exact (freeTyping_commit h fun _ => hkeep).mono (fun _ _ h _ _ => h) fun _ h => h

theorem freeTyping_leaveInsert (h : ed.FreeTyping) : Leaves leaveInsert ed FreeTyping := by
  have hended : (ed.withRecord ed.session.lastChange false).FreeTyping := h
  exact ends_leaveInsert (freeTyping_commit hended fun hrest => by cases hrest)

theorem freeTyping_insertStroke (h : ed.FreeTyping) (hmode : ed.session.mode = .insert)
    (k : Stroke) : Leaves (insertStroke k) ed FreeTyping := by
  cases k with
  | char c => exact freeTyping_insertText h hmode [c]
  | backspace => exact freeTyping_eraseChar h hmode
  | escape => exact freeTyping_leaveInsert h

theorem FreeTyping.prepared (h : ed.FreeTyping) (change : Repeatable) :
    (ed.prepared change).FreeTyping := by
  cases change with
  | operateMotion op m count => cases m <;> exact freeTyping_of_mode nofun
  | operateObject op o scope count => exact freeTyping_of_mode nofun
  | _ => exact h

theorem freeTyping_replay (h : ed.FreeTyping) (change : Repeatable) (typed : Text) :
    Leaves (replay change typed) ed FreeTyping := by
  have hplan : (ed.planOf change).FreesTyping :=
    Session.freesTyping_planCommand (Session.planCommand_command _ _ _ change)
  refine ends_replay ((freeTyping_carryOut (h.prepared change) hplan).mono ?_ fun _ h => h)
  intro _ ed h
  refine ⟨fun _ => h, fun _ _ => freeTyping_leaveInsert h, fun hinsert => ?_⟩
  exact (freeTyping_insertText h hinsert typed).mono (fun _ _ h => freeTyping_leaveInsert h)
    fun _ h => h

theorem freeTyping_execute (h : ed.FreeTyping) (command : Command) :
    Leaves (execute command) ed FreeTyping := by
  refine ends_execute ?_ ?_ ?_ ?_ ?_
  · intro plan hplan
    have hnoted : (ed.noted command).FreeTyping := by
      unfold noted
      rw [Session.noteCommand_frame]
      exact h
    exact freeTyping_carryOutChange hnoted (Session.freesTyping_planCommand hplan) _
  · exact fun _ _ _ => freeTyping_of_mode nofun
  · intro count _
    refine ends_bind (ends_ask (fun host _ => ends_bind (ends_get ?_)) fun _ _ _ => h)
    refine freeTyping_commit ?_ fun hrest => by cases hrest
    exact h
  · intro count _
    have hdropped : FreeTyping { ed with session := ed.session.dropPending } :=
      freeTyping_of_mode (dropPending_mode_ne_insert ed.session)
    refine ends_repeatChange (fun _ => hdropped) fun last _ => ?_
    have hreplaying : ed.replaying.FreeTyping := h
    exact (freeTyping_replay hreplaying _ _).mono (fun _ _ h => h) fun _ h => h
  · exact fun name p _ _ => freeTyping_of_mode (dropPending_mode_ne_insert (ed.session.mark name p))

/-! ## Histories -/

theorem freeTyping_dispatch (hrest : ed.Resting) (h : ed.FreeTyping) (event : InputEvent) :
    Ends (dispatch event) ed (fun _ => FreeTyping) FreeTyping := by
  refine ends_dispatch ?_ (fun _ => h) ?_ fun _ => freeTyping_of_mode nofun
  · exact fun hinsert k _ => freeTyping_insertStroke h hinsert k
  · intro hmode c _
    have hreads := Input.read_sound hrest.1.input hmode ed.host.text ed.session.config c
    have hstanding := hrest.1.input.standing_ne_insert hmode
    refine ends_commandChar ?_ (fun _ _ => freeTyping_of_mode nofun) ?_
    · intro i hread
      rw [hread] at hreads
      exact freeTyping_of_mode (hreads.1.mode_ne_insert (hreads.2 ▸ hstanding))
    · intro command i hread
      rw [hread] at hreads
      have hinput : (ed.withInput i).FreeTyping := freeTyping_of_mode hreads.1.mode_ne_insert
      exact freeTyping_execute hinput command

theorem freeTyping_press (hrest : ed.Resting) (h : ed.FreeTyping) (event : InputEvent) :
    (ed.press event).2.FreeTyping :=
  press_of_ends (freeTyping_dispatch hrest h event) fun _ _ => freeTyping_of_mode nofun

theorem FreeTyping.noteSelections (h : ed.FreeTyping) (selections : List Selection) :
    FreeTyping { ed with session := ed.session.noteSelections selections } := by
  cases selections with
  | nil => exact h
  | cons sel rest =>
    unfold Session.noteSelections
    cases hmode : ed.session.mode with
    | normal =>
      dsimp only
      split
      · exact h
      · exact freeTyping_of_mode nofun
    | visual kind =>
      dsimp only
      split
      · exact freeTyping_of_mode nofun
      · exact h
    | _ => exact h

/-- Whatever happens keeps it so. -/
theorem freeTyping_happen (h : ed.Resting ∧ ed.FreeTyping) (x : Happening) :
    (ed.happen x).Resting ∧ (ed.happen x).FreeTyping := by
  have hpress (ed : Editor) (event : InputEvent) (h : ed.Resting ∧ ed.FreeTyping) :
      (ed.press event).2.Resting ∧ (ed.press event).2.FreeTyping :=
    ⟨resting_press h.1 event, freeTyping_press h.1 h.2 event⟩
  refine ⟨resting_happen h.1 x, ?_⟩
  cases x with
  | event event => exact (hpress ed event h).2
  | key written =>
    refine (keeps_key (P := fun ed => ed.Resting ∧ ed.FreeTyping) hpress ?_ h written).2
    exact fun ed h => ⟨resting_reset h.1.2, freeTyping_of_mode nofun⟩
  | keys written =>
    exact (keeps_keys (P := fun ed => ed.Resting ∧ ed.FreeTyping) hpress h _).2
  | forward =>
    simp only [happen, forward]
    split
    · exact h.2
    · exact h.2.congr rfl rfl
  | changesReported after changes => exact h.2.congr rfl rfl
  | selectionsReported selections => exact h.2.noteSelections selections
  | hostChanges host => exact h.2
  | registersChange registers => exact h.2.congr rfl rfl

/-- **No column is preferred while text is typed**, after any history on any host. -/
theorem freeTyping_happenAll (rest : Rest) (config : Config) (clipboard : Option (Option Text))
    (host : Host) (history : List Happening) :
    ((⟨Session.new rest.mode config clipboard, host⟩ : Editor).happenAll history).FreeTyping := by
  have hnew : (⟨Session.new rest.mode config clipboard, host⟩ : Editor).Resting :=
    ⟨Session.sound_new rest config clipboard, rfl⟩
  refine (history_induction (P := fun ed => ed.Resting ∧ ed.FreeTyping) (A := fun _ => True) ?_ ?_
    history fun _ _ => trivial).2
  · exact fun _ x _ h => freeTyping_happen h x
  · exact ⟨hnew, fun _ => rfl⟩

/-! ## After forgetting -/

/-- No column is preferred, and no partial input is left. -/
structure Fresh (ed : Editor) : Prop where
  preferred : ed.session.preferred = none
  lookahead : ed.session.input.lookahead = none
  operator : ed.session.input.operator = none
  count : ed.session.input.count = none

theorem Fresh.withRecord (h : ed.Fresh) (last : Option LastChange) (recording : Bool) :
    (ed.withRecord last recording).Fresh :=
  ⟨h.preferred, h.lookahead, h.operator, h.count⟩

/-- The work leaves the editor fresh if it is done. -/
def EndsFresh (work : Attempt Unit) (ed : Editor) : Prop :=
  Ends work ed (fun _ => Fresh) (fun _ => True)

theorem fresh_commit {c : Commit} (h : (ed.session.committed c).preferred = none) :
    EndsFresh (commit c) ed :=
  ends_commit (fun _ => trivial) (fun _ => trivial) fun _ => ⟨h, rfl, rfl, rfl⟩

theorem fresh_carryOutChange {c : Commit} (h : c.column.forgets = true)
    (repeatable : Option Repeatable) : EndsFresh (carryOutChange (.commit c) repeatable) ed := by
  have hcommit : EndsFresh (commit c) ed := fresh_commit (Session.preferred_committed h)
  exact ends_carryOutChange_record (hcommit.mono (fun _ _ h => h.withRecord) fun _ h => h)

/-- What is typed keeps the column, and so does leaving Insert mode. -/
theorem fresh_insertText (h : ed.session.preferred = none) (text : Text) :
    EndsFresh (insertText text) ed := by
  have hcommit : EndsFresh (commit (ed.session.planType ed.host.text ed.host.selection text)) ed :=
    fresh_commit h
  exact ends_insertText (hcommit.mono (fun _ _ h => h.withRecord) fun _ h => h)

theorem fresh_leaveInsert (h : ed.session.preferred = none) : EndsFresh leaveInsert ed :=
  ends_leaveInsert (fresh_commit h)

theorem fresh_replay {change : Repeatable} {c : Commit} (hplan : ed.planOf change = .commit c)
    (hforgets : c.column.forgets = true) (typed : Text) : EndsFresh (replay change typed) ed := by
  have hcommit : EndsFresh (commit c) (ed.prepared change) :=
    fresh_commit (Session.preferred_committed hforgets)
  refine ends_replay ?_
  rw [hplan]
  refine hcommit.mono (fun _ ed h => ?_) fun _ h => h
  refine ⟨fun _ => h, fun _ _ => fresh_leaveInsert h.preferred, fun _ => ?_⟩
  exact (fresh_insertText h.preferred typed).mono (fun _ _ h => fresh_leaveInsert h.preferred)
    fun _ h => h

/-- Events that forget the preferred column: those that complete a command which does, or repeat a
change which does, and leaving Insert mode. -/
inductive ForgetsColumn (ed : Editor) (event : InputEvent) : Prop
  | command {command : Command} {i : Input} : ed.completes event = some (command, i) →
      ((ed.withInput i).noted command).session.ForgetsColumn ed.host.text ed.host.selection
        command → ForgetsColumn ed event
  | repeated {count : Nat} {i : Input} {last : LastChange} (change : Repeatable) :
      ed.completes event = some (.instant .repeatChange count, i) →
      ed.session.lastChange = some last →
      change = (if count = 0 then last.command else last.command.withCount count) →
      ((ed.withInput i).prepared change).session.ForgetsColumn ed.host.text ed.host.selection
        change.command → ForgetsColumn ed event
  | left : ed.session.mode = .insert → event.stroke? = some .escape → ForgetsColumn ed event

/-- **Such an event leaves the editor fresh** if it is done. -/
theorem fresh_dispatch (hrest : ed.Resting) (h : ed.FreeTyping)
    (hforgets : ed.ForgetsColumn event) :
    Ends (dispatch event) ed (fun _ => Fresh) (fun _ => True) := by
  cases hforgets with
  | @command command i hcompletes hcommand =>
    obtain ⟨hvisual, -⟩ := planned_of_completes hrest hcompletes
    obtain ⟨c, hplan, hcolumn⟩ := hcommand.plan hvisual
    refine ends_dispatch_of_completes hcompletes ?_
    exact ends_execute_planned hplan (fresh_carryOutChange hcolumn _)
  | @repeated count i last change hcompletes hlast hchange hcommand =>
    obtain ⟨hvisual, -⟩ := prepared_of_completes hrest hcompletes change
    obtain ⟨c, hplan, hcolumn⟩ := hcommand.plan fun _ => hvisual
    have hplanOf : (ed.withInput i).planOf change = .commit c :=
      Option.some.inj ((Session.planCommand_command _ _ _ change).symm.trans hplan)
    have hreplay : EndsFresh (replay change last.typed) (ed.withInput i).replaying :=
      fresh_replay (by rw [planOf_replaying]; exact hplanOf) hcolumn last.typed
    refine ends_dispatch_repeat hcompletes hlast ?_
    rw [← hchange]
    exact hreplay.mono (fun _ _ h => ⟨h.preferred, h.lookahead, h.operator, h.count⟩) fun _ h => h
  | left hinsert hescape =>
    exact ends_dispatch_insert hinsert hescape (fresh_leaveInsert (h hinsert))

/-- On a host that grants everything such an event is done. -/
theorem fresh_press (hrest : ed.Resting) (hsettled : ed.Settled) (h : ed.FreeTyping)
    (hforgets : ed.ForgetsColumn event) : (ed.press event).2.Fresh := by
  have hfresh := fresh_dispatch hrest h hforgets
  have hdone := settled_dispatch hsettled event
  unfold Ends at hfresh hdone
  unfold press
  cases hd : dispatch event ed with
  | ok command after =>
    rw [hd] at hfresh
    exact hfresh
  | error e refused =>
    rw [hd] at hdone
    exact hdone.elim

/-- **A column that is forgotten is not used.** Keys are fed to an editor on a host that grants
everything and changes nothing by itself, and then an event that forgets the preferred column and
ends in Normal mode. It leaves the cursor at a Normal position, and any counted `j` and `k` after it
lead to the column that this one is in, or to the last one of a shorter line. -/
theorem vertical_after_forgetting (rest : Rest) {host : Host} (hg : host.Grants) {i : Nat}
    (hselection : host.selection = .cursor i)
    (hstart : rest = .normal ∧ host.text.IsNormal i ∨ rest = .insert ∧ i ≤ host.text.length)
    (config : Config) (clipboard : Option (Option Text)) {history : List Happening}
    (hinput : ∀ x ∈ history, x.isInput = true) {ed after : Editor}
    (hed : ed = (⟨Session.new rest.mode config clipboard, host⟩ : Editor).happenAll history)
    {event : InputEvent} (hforgets : ed.ForgetsColumn event) (hafter : after = (ed.press event).2)
    (hmode : after.session.mode = .normal) :
    ∃ j, after.host.selection = .cursor j ∧ after.host.text.IsNormal j ∧
      ∀ (keys : List Char) (steps : List LineStep) (events : List InputEvent),
        VerticalKeys none keys steps → events.map (·.stroke?) = (keys.map .char).map some →
        let t := after.host.text
        let l := t.walkLines (t.lineOf j) steps
        (after.pressAll events).2.host.text = t ∧
          (after.pressAll events).2.CursorAt .normal
            (t.lineStart l + min (Position.ofIndex t j).col (t.lastColumn l)) := by
  have hresting : ed.Resting := hed ▸ resting_happenAll rest config clipboard host history
  have hsettled : ed.Settled :=
    hed ▸ settled_happenAll rest hg hselection hstart config clipboard hinput
  have hfree : ed.FreeTyping := hed ▸ freeTyping_happenAll rest config clipboard host history
  have hfresh : after.Fresh := hafter ▸ fresh_press hresting hsettled hfree hforgets
  have hsettled' : after.Settled := hafter ▸ settled_press hsettled event
  have hresting' : after.Resting := hafter ▸ resting_press hresting event
  obtain ⟨j, hj, hnormal⟩ := hsettled'.atRest hresting' (Or.inl hmode)
  refine ⟨j, hj, hnormal, fun keys steps events hkeys hevents => ?_⟩
  have honLine := onLine_of_isNormal hsettled'.grants hmode hfresh.lookahead hfresh.operator
    hfresh.preferred hj hnormal
  rw [hfresh.count] at honLine
  obtain ⟨count, hwalked⟩ := onLine_keys honLine Count.typed_none hkeys events hevents
  exact ⟨hwalked.text, hwalked.cursorAt⟩

/-- Down to a shorter line, a character deleted there, and down to a longer one. -/
theorem vertical_after_forgetting_delete :
    let start : Editor := ⟨Session.new .normal {} none,
      .ofText ['a', 'b', 'c', '\n', 'd', 'e', '\n', 'f', 'g', 'h'] 2⟩
    let ed := start.happenAll [.event (.text 'j')]
    let after := (ed.press (.text 'x')).2
    ed.session.preferred = some (.column 2) ∧ ed.ForgetsColumn (.text 'x') ∧
      after.host.selection = .cursor 4 ∧ (after.pressAll [.text 'j']).2.CursorAt .normal 6 := by
  intro start ed after
  have hnormal : start.host.text.IsNormal 2 := Or.inl ⟨'c', rfl, by decide⟩
  have hforgets : ed.ForgetsColumn (.text 'x') := by
    have hcompletes : ed.completes (.text 'x') =
        some (.instant (.quick .deleteChar) 1, .idle .normal) := by decide
    refine .command hcompletes (.operate (.key rfl rfl) (Or.inl ?_))
    decide
  have hdown : VerticalKeys none ['j'] [⟨true, 1⟩] := .step true (.nil none)
  obtain ⟨j, hj, -, hwalk⟩ := @vertical_after_forgetting .normal start.host ⟨rfl, rfl, rfl⟩ 2 rfl
    (Or.inl ⟨rfl, hnormal⟩) {} none _ (by decide) ed after rfl (.text 'x') hforgets rfl (by decide)
  obtain rfl : j = 4 := by
    have hselection : after.host.selection = .cursor 4 := by decide
    rw [hselection] at hj
    cases hj
    rfl
  have hcursor := (hwalk ['j'] [⟨true, 1⟩] [.text 'j'] hdown rfl).2
  have hindex : after.host.text.lineStart
      (after.host.text.walkLines (after.host.text.lineOf 4) [⟨true, 1⟩]) +
      min (Position.ofIndex after.host.text 4).col (after.host.text.lastColumn
        (after.host.text.walkLines (after.host.text.lineOf 4) [⟨true, 1⟩])) = 6 := by decide
  rw [hindex] at hcursor
  exact ⟨by decide, hforgets, hj, hcursor⟩

/-- A character is put after a move down. The cursor is in column 3 then, and the next move down
leads to column 2, in which it was before. -/
theorem put_keeps_column :
    let start : Editor := ⟨Session.new .normal {} none,
      .ofText ['a', 'b', 'c', 'd', '\n', 'a', 'b', 'c', 'd', '\n', 'a', 'b', 'c', 'd'] 2⟩
    let after := (start.happenAll [.keys ['y', 'l', 'j', 'p']])
    let t := after.host.text
    start.host.Grants ∧ start.host.text.IsNormal 2 ∧ after.CursorAt .normal 8 ∧
      (Position.ofIndex t 8).col = 3 ∧ t.lineOf 8 = 1 ∧ t.lastColumn 2 = 3 ∧
      (after.press (.text 'j')).2.CursorAt .normal (t.lineStart 2 + 2) := by
  intro start after t
  exact ⟨⟨rfl, rfl, rfl⟩, Or.inl ⟨'c', rfl, by decide⟩, ⟨by decide, by decide⟩, by decide,
    by decide, by decide, ⟨by decide, by decide⟩⟩

end Editor

end ModalEdit
