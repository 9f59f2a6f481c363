import ModalEdit.Proofs.Bounds
import ModalEdit.Proofs.Typing

/-!
# Repeating a change

Repeating the last change with `.` and typing its keys again show the same: text, cursor, mode and
registers (`repeat_sameView_retype`). The two runs differ in what they pass through. Retyping reads
the keys one at a time, remembers the change anew and edits the text with every stroke in Insert
mode. Repeating takes the change and its text as they were remembered, puts the text in as one edit
and remembers nothing.

They meet at three points. Both carry out the same plan, because a plan reads neither what is
remembered nor an operator's own count. If that enters Insert mode, both stand between the same two
parts of the text, before and after any text is typed (`Inserting`). And leaving Insert mode from
there is the same.
-/

namespace ModalEdit

/-- A change as it is typed: the keys of its command, and the strokes in Insert mode if it enters
that. -/
structure TypedChange where
  keys : List Char
  change : Repeatable
  spells : Spells keys change
  typing : List Stroke := []
  text : Text := []
  types : typedText [] typing = some text
  quiet : change.entersInsert = false → typing = []

namespace TypedChange

/-- All strokes of a change. Escape leaves Insert mode. -/
def strokes (k : TypedChange) : List Stroke :=
  k.keys.map .char ++ if k.change.entersInsert then k.typing ++ [.escape] else []

/-- What is remembered of a change. -/
def remembered (k : TypedChange) : LastChange := ⟨k.change, k.text⟩

end TypedChange

namespace Editor

variable {ed a b : Editor}

/-- The editors show the same. -/
structure SameView (a b : Editor) : Prop where
  text : a.host.text = b.host.text
  selection : a.host.selection = b.host.selection
  mode : a.session.mode = b.session.mode
  registers : a.session.registers = b.session.registers

theorem SameView.symm (h : a.SameView b) : b.SameView a :=
  ⟨h.text.symm, h.selection.symm, h.mode.symm, h.registers.symm⟩

theorem SameView.trans {c : Editor} (h : a.SameView b) (h' : b.SameView c) : a.SameView c :=
  ⟨h.text.trans h'.text, h.selection.trans h'.selection, h.mode.trans h'.mode,
    h.registers.trans h'.registers⟩

/-- An operator's motion or text object finds something from the cursor. Other changes need no
target. -/
def hasTarget (change : Repeatable) (ed : Editor) : Bool :=
  let s := (ed.prepared change).session
  let cursor := s.cursor ed.host.text ed.host.selection
  match change with
  | .operateMotion _ m count => (s.motionRange ed.host.text m count cursor).isSome
  | .operateObject _ o scope count => (o.range ed.host.text scope count cursor).isSome
  | _ => true

/-! ## The plan of a change -/

/-- The plan is a commit that settles in Insert mode exactly if `insert` says so. -/
def Settling (insert : Bool) (plan : Plan) : Prop :=
  ∃ c, plan = .commit c ∧ (c.rest = .insert ↔ insert = true)

theorem settling_of_insert {c : Commit} (h : c.rest = .insert) : Settling true (.commit c) :=
  ⟨c, rfl, by simp [h]⟩

theorem settling_of_normal {c : Commit} (h : c.rest = .normal) : Settling false (.commit c) :=
  ⟨c, rfl, by simp [h]⟩

theorem settling_planOperator (s : Session) (t : Text) (sel : Selection) (op : Operator)
    (range : Range) (since : Stage) :
    Settling (op == .change) (s.planOperator t sel op range since) := by
  simp only [Session.planOperator]
  by_cases hvoid : (Region.ofRange t range).isVoid = true ∧ op ≠ .change
  · rw [if_pos hvoid, beq_false_of_ne hvoid.2]
    exact settling_of_normal rfl
  · rw [if_neg hvoid]
    cases op with
    | change => exact settling_of_insert rfl
    | delete => exact settling_of_normal rfl
    | yank => exact settling_of_normal rfl

section Plans

variable {s : Session} {t : Text} {sel : Selection}

theorem planMotion_awaitMotion {op : Operator} {before : Input} {outer : Option Nat}
    (hs : s.input = before.awaitMotion op outer) (m : Motion) (count : Nat) :
    s.planMotion t sel m count =
      (s.motionRange t m count (s.cursor t sel)).elim .drop
        (s.planOperator t sel op · .start) := by
  simp only [Session.planMotion, Session.mode, hs, Input.awaitMotion, Input.switch]
  cases s.motionRange t m count (s.cursor t sel) <;> rfl

theorem planObject_awaitMotion {op : Operator} {before : Input} {outer : Option Nat}
    (hs : s.input = before.awaitMotion op outer) (o : TextObject) (scope : Scope) (count : Nat) :
    s.planObject t sel o scope count =
      (o.range t scope count (s.cursor t sel)).elim .drop
        (s.planOperator t sel op · .placed) := by
  simp only [Session.planObject, Session.mode, hs, Input.awaitMotion, Input.switch]
  cases o.range t scope count (s.cursor t sel) <;> rfl

theorem planPut_cases (count : Nat) (after : Bool) :
    s.planPut t sel count after = .drop ∨ Settling false (s.planPut t sel count after) := by
  simp only [Session.planPut]
  split
  · exact Or.inl rfl
  · split
    · exact Or.inr (settling_of_normal rfl)
    · exact Or.inl rfl

theorem settling_planOperateTo (op : Operator) (m : Motion) (count : Nat)
    (h : (m.range t s.motionContext count (s.cursor t sel)).isSome = true) :
    Settling (op == .change) (s.planOperateTo t sel op m count) := by
  obtain ⟨range, hrange⟩ := Option.isSome_iff_exists.1 h
  unfold Session.planOperateTo
  rw [hrange]
  exact settling_planOperator s t sel op range .placed

theorem range_lineEnd_isSome (ctx : MotionContext) (count cursor : Nat) :
    (Motion.lineEnd.range t ctx count cursor).isSome = true := by
  simp only [Motion.range]
  split <;> rfl

theorem planQuick_cases (edit : QuickEdit) (count n : Nat) :
    (s.planQuick t sel edit count = .drop ∧ (Repeatable.quick edit n).entersInsert = false) ∨
      Settling (Repeatable.quick edit n).entersInsert (s.planQuick t sel edit count) := by
  cases edit with
  | putAfter | putBefore => exact (planPut_cases _ _).imp_left fun h => ⟨h, rfl⟩
  | deleteChar | deleteCharBefore => exact Or.inr (settling_planOperator _ _ _ .delete _ _)
  | substituteChar => exact Or.inr (settling_planOperator _ _ _ .change _ _)
  | changeToLineEnd =>
    exact Or.inr (settling_planOperateTo .change .lineEnd _ (range_lineEnd_isSome _ _ _))
  | deleteToLineEnd =>
    exact Or.inr (settling_planOperateTo .delete .lineEnd _ (range_lineEnd_isSome _ _ _))
  | substituteLine => exact Or.inr (settling_planOperateTo .change .wholeLines (max count 1) rfl)

theorem planReplace_cases (hs : s.mode.isVisual = false) (c : Char) (count : Nat) :
    s.planReplace t sel c count = .drop ∨ Settling false (s.planReplace t sel c count) := by
  simp only [Session.planReplace, hs, Bool.false_eq_true, if_false]
  split
  · exact Or.inl rfl
  · split
    · exact Or.inr (settling_of_normal rfl)
    · exact Or.inr (settling_of_normal rfl)

theorem settling_planInsert (place : Insertion) : Settling true (s.planInsert t sel place) := by
  cases place <;> exact settling_of_insert rfl

end Plans

/-- A change either has nothing to do, or commits and settles as its command says. A command that
enters Insert mode has nothing to do only without a target. -/
theorem planOf_cases (hmode : ed.session.mode = .normal) (change : Repeatable) :
    (ed.planOf change = .drop ∧ (change.entersInsert = true → ed.hasTarget change = false)) ∨
      Settling change.entersInsert (ed.planOf change) := by
  cases change with
  | operateMotion op m count =>
    unfold planOf hasTarget
    rw [prepared_operateMotion, Session.planRepeatable, planMotion_awaitMotion rfl]
    dsimp only
    cases Session.motionRange _ ed.host.text m count _ with
    | none => exact Or.inl ⟨rfl, fun _ => rfl⟩
    | some range => exact Or.inr (settling_planOperator _ _ _ op range _)
  | operateObject op o scope count =>
    unfold planOf hasTarget
    rw [prepared_operateObject, Session.planRepeatable, planObject_awaitMotion rfl]
    dsimp only
    cases o.range ed.host.text scope count _ with
    | none => exact Or.inl ⟨rfl, fun _ => rfl⟩
    | some range => exact Or.inr (settling_planOperator _ _ _ op range _)
  | quick edit count =>
    refine (planQuick_cases edit count count).imp_left fun hdrop => ⟨hdrop.1, fun hinsert => ?_⟩
    rw [hdrop.2] at hinsert
    cases hinsert
  | replace c count =>
    have hvisual : ed.session.mode.isVisual = false := by rw [hmode]; rfl
    refine (planReplace_cases hvisual c count).imp_left fun hdrop => ⟨hdrop, fun hinsert => ?_⟩
    cases hinsert
  | insert place => exact Or.inr (settling_planInsert place)

/-! ## In Insert mode -/

section Insert

variable {before after : Text} {registers : Registers} {change : Repeatable}

theorem sameView_left (ha : a.Inserting before after registers)
    (hb : b.Inserting before after registers) : SameView a.left b.left := by
  have hplan : a.session.planLeave a.host.text a.host.selection =
      b.session.planLeave b.host.text b.host.selection := by
    simp only [Session.planLeave, ha.cursor, hb.cursor]
    rw [ha.text, hb.text]
  have htext : a.left.host.text = b.left.host.text := by
    show (a.host.committed _).text = (b.host.committed _).text
    rw [hplan, Host.text_committed, Host.text_committed]
    exact ha.text.trans hb.text.symm
  refine ⟨htext, ?_, rfl, ha.registers.trans hb.registers.symm⟩
  show Selection.cursor (Commit.cursor _ a.left.host.text) = .cursor (Commit.cursor _ _)
  rw [htext, hplan]
  rfl

/-- A commit that settles in Insert mode leaves the cursor between two parts of the text. -/
theorem inserting_of_committed (hg : ed.host.Grants) {c : Commit} (hrest : c.rest = .insert) :
    ∃ before after, (ed.committed c).Inserting before after (ed.committed c).session.registers := by
  refine ⟨(ed.host.committed c).text.take (c.cursor (ed.host.committed c).text),
    (ed.host.committed c).text.drop (c.cursor (ed.host.committed c).text),
    hg.committed c, ?_, (List.take_append_drop _ _).symm, ?_, rfl⟩
  · show c.rest.mode = .insert
    rw [hrest]
    rfl
  · show (ed.host.committed c).selection = _
    rw [Host.selection_committed, List.length_take, Nat.min_eq_left (c.cursor_le _)]

end Insert

/-! ## Repeating -/

section Repeat

variable {change : Repeatable} {P : Editor → Prop}

theorem planOf_replaying (ed : Editor) (change : Repeatable) :
    ed.replaying.planOf change = ed.planOf change := by
  cases change with
  | operateMotion op m count => cases m <;> rfl
  | _ => rfl

theorem applied_replaying (ed : Editor) (change : Repeatable) :
    ed.replaying.applied change = (ed.applied change).replaying := by
  unfold applied
  rw [planOf_replaying]
  have hprepared : ed.replaying.prepared change = (ed.prepared change).replaying := by
    cases change with
    | operateMotion op m count => cases m <;> rfl
    | _ => rfl
  rw [hprepared]
  cases ed.planOf change <;> rfl

/-- A change that does not settle in Insert mode is repeated by its plan. -/
theorem ends_replay_of_not_insert (hg : ed.host.Grants)
    (hmode : (ed.applied change).session.mode ≠ .insert) (typed : Text) :
    Ends (replay change typed) ed (fun _ ed' => ed' = ed.applied change) fun _ => False := by
  have hprepared : (ed.prepared change).host.Grants := hg
  refine ends_replay (ends_carryOut_granted hprepared ⟨fun _ => rfl, ?_, ?_⟩)
  · exact fun hinsert => absurd hinsert hmode
  · exact fun hinsert => absurd hinsert hmode

/-- A change that settles in Insert mode is repeated by its plan, its text and leaving. -/
theorem ends_replay_of_insert {before after : Text} {registers : Registers} (hg : ed.host.Grants)
    (h : (ed.applied change).Inserting before after registers) (typed : Text) :
    Ends (replay change typed) ed
      (fun _ ed' => ∃ a : Editor, a.Inserting (before ++ typed) after registers ∧ ed' = a.left)
      fun _ => False := by
  have hprepared : (ed.prepared change).host.Grants := hg
  refine ends_replay (ends_carryOut_granted hprepared ⟨?_, ?_, ?_⟩)
  · exact fun hmode => absurd h.mode hmode
  · intro _ htyped
    refine ends_leaveInsert_granted h.grants ⟨_, ?_, rfl⟩
    rw [htyped, List.append_nil]
    exact h
  · intro _
    have hinserted := inserting_inserted h typed
    refine ends_insertText_granted h.grants ?_
    exact ends_leaveInsert_granted hinserted.grants ⟨_, hinserted, rfl⟩

/-- Repeating is the work of the last change, while nothing is recorded. -/
theorem ends_repeat {typed : Text} (hlast : ed.session.lastChange = some ⟨change, typed⟩)
    (hreplay : Ends (replay change typed) ed.replaying
      (fun _ ed => P { ed with session := { ed.session with replaying := false } })
      fun _ => False) :
    Ends (execute (.instant .repeatChange 0)) ed (fun _ => P) fun _ => False := by
  refine ends_bind (ends_get (ends_repeatChange ?_ ?_))
  · intro hnone
    rw [hlast] at hnone
    cases hnone
  · intro last hsome
    rw [hlast] at hsome
    cases hsome
    exact hreplay

theorem types_dot (h : ed.Ready)
    (hrepeat : Ends (execute (.instant .repeatChange 0)) ed (fun _ => P) fun _ => False) :
    Types ed [.char '.'] P := by
  rw [← withInput_idle h.input] at hrepeat
  have htypes : Types ed (([] ++ ['.']).map .char) P :=
    types_normal h Count.spelled_nil (.last nofun rfl) hrepeat
  exact htypes

end Repeat

/-! ## The two runs -/

section Runs

variable {change : Repeatable}

theorem dropPending_mode_ne_insert (s : Session) : s.dropPending.mode ≠ .insert := by
  show (if s.mode.isVisual then s.mode else Mode.normal) ≠ .insert
  by_cases hvisual : s.mode.isVisual = true
  · rw [if_pos hvisual]
    intro hmode
    rw [hmode] at hvisual
    cases hvisual
  · rw [if_neg hvisual]
    nofun

theorem applied_mode_ne_insert (hmode : ed.session.mode = .normal)
    (hinsert : change.entersInsert = false) :
    (ed.applied change).session.mode ≠ .insert := by
  unfold applied
  rcases planOf_cases hmode change with ⟨hplan, -⟩ | ⟨c, hplan, hrest⟩
  · rw [hplan]
    exact dropPending_mode_ne_insert _
  · rw [hplan]
    show c.rest.mode ≠ .insert
    cases hc : c.rest with
    | normal => nofun
    | insert =>
      rw [hinsert] at hrest
      exact absurd (hrest.1 hc) nofun

/-- A command that enters Insert mode is a change where it has a target. -/
theorem isChange_of_target (hmode : ed.session.mode = .normal)
    (hinsert : change.entersInsert = true) (htarget : ed.hasTarget change = true) :
    (ed.planOf change).isChange = true := by
  rcases planOf_cases hmode change with ⟨-, hnone⟩ | ⟨c, hplan, hrest⟩
  · rw [hnone hinsert] at htarget
    cases htarget
  · rw [hplan]
    simp [Plan.isChange, Commit.isChange, hrest.2 hinsert]

theorem inserting_applied (hg : ed.host.Grants) (hmode : ed.session.mode = .normal)
    (hinsert : change.entersInsert = true) (hchange : (ed.planOf change).isChange = true) :
    ∃ before after,
      (ed.applied change).Inserting before after (ed.applied change).session.registers := by
  unfold applied
  rcases planOf_cases hmode change with ⟨hplan, -⟩ | ⟨c, hplan, hrest⟩
  · rw [hplan] at hchange
    cases hchange
  · rw [hplan]
    refine inserting_of_committed ?_ (hrest.2 hinsert)
    exact hg

theorem changed_eq (hchange : (ed.planOf change).isChange = true) :
    ed.changed change = { ed.applied change with
      session := (ed.applied change).session.recordChange change } := by
  unfold changed remembered
  rw [if_pos hchange]
  rfl

theorem sameView_changed (ed : Editor) (change : Repeatable) :
    SameView (ed.applied change) (ed.changed change) := by
  cases hchange : (ed.planOf change).isChange with
  | true =>
    rw [changed_eq hchange]
    refine ⟨rfl, rfl, ?_, ?_⟩
    · rw [Session.recordChange_frame]; rfl
    · rw [Session.recordChange_frame]
  | false =>
    unfold changed remembered
    rw [hchange]
    exact ⟨rfl, rfl, rfl, rfl⟩

theorem applied_not_replaying (h : ed.session.replaying = false) (change : Repeatable) :
    (ed.applied change).session.replaying = false := by
  have hprepared : (ed.session.prepareRepeat change).replaying = false := by
    rw [Session.prepareRepeat_frame]
    exact h
  unfold applied
  cases ed.planOf change <;> exact hprepared

theorem lastChange_changed (h : ed.session.replaying = false)
    (hchange : (ed.planOf change).isChange = true) :
    (ed.changed change).session.lastChange = some ⟨change, []⟩ := by
  rw [changed_eq hchange]
  simp [Session.recordChange, applied_not_replaying h]

/-- What is typed after a command that enters Insert mode is recorded. -/
theorem recording_changed (h : ed.session.replaying = false)
    (hchange : (ed.planOf change).isChange = true)
    (hmode : (ed.applied change).session.mode = .insert) :
    (ed.changed change).Recording change [] := by
  refine ⟨lastChange_changed h hchange, ?_, ?_⟩
  · rw [changed_eq hchange]
    simp [Session.recordChange, applied_not_replaying h, hmode]
  · rw [changed_eq hchange, Session.recordChange_frame]
    exact applied_not_replaying h change

/-- What is typed after a command that entered Insert mode, and Escape. The last state before Escape
stands between the same parts of the text as the command left, with the text typed between them, and
has recorded that text. -/
theorem types_typed {before after typed : Text} {registers : Registers} {typing : List Stroke}
    (h : ed.session.replaying = false) (hchange : (ed.planOf change).isChange = true)
    (happlied : (ed.applied change).Inserting before after registers)
    (htyped : typedText [] typing = some typed) :
    Types (ed.changed change) (typing ++ [.escape]) fun ed' => ∃ a : Editor,
      a.Inserting (before ++ typed) after registers ∧ a.Recording change typed ∧
        ed' = a.left := by
  have hstart : (ed.changed change).Inserting (before ++ []) after registers := by
    rw [List.append_nil, changed_eq hchange]
    refine happlied.congr ?_ ?_
    · rw [Session.recordChange_frame]
    · rw [Session.recordChange_frame]
  have htyping := types_typing hstart (recording_changed h hchange happlied.mode) htyped
  refine htyping.append fun a ha => ?_
  obtain ⟨ha, hr⟩ := ha
  exact types_insert ha.mode (ends_leaveInsert_granted ha.grants ⟨a, ha, hr, rfl⟩)

theorem types_of_insert (k : TypedChange) (h : ed.Ready) (hinsert : k.change.entersInsert = true)
    (hchange : (ed.planOf k.change).isChange = true) {before after : Text} {registers : Registers}
    (happlied : (ed.applied k.change).Inserting before after registers) :
    Types ed k.strokes fun ed' => ∃ a : Editor, a.Inserting (before ++ k.text) after registers ∧
      a.Recording k.change k.text ∧ ed' = a.left := by
  have htyped := types_typed h.not_replaying hchange happlied k.types
  unfold TypedChange.strokes
  rw [if_pos hinsert]
  exact (types_spelled h k.spells).append fun _ hed => hed ▸ htyped

theorem types_of_not_insert (k : TypedChange) (h : ed.Ready)
    (hinsert : k.change.entersInsert = false) :
    Types ed k.strokes (· = ed.changed k.change) := by
  have htypes := types_spelled h k.spells
  unfold TypedChange.strokes
  simpa [hinsert] using htypes

/-- Keys that carry a change out remember it where it is one, with the text typed after them. -/
theorem lastChange_of_types {start : Editor} {keys typing : List Stroke} {typed : Text}
    (hg : ed.host.Grants) (hmode : ed.session.mode = .normal)
    (hreplaying : ed.session.replaying = false) (hchange : (ed.planOf change).isChange = true)
    (htyped : typedText [] typing = some typed)
    (hquiet : change.entersInsert = false → typing = [])
    (hkeys : Types start keys (· = ed.changed change)) :
    Types start (keys ++ if change.entersInsert then typing ++ [.escape] else [])
      (·.session.lastChange = some ⟨change, typed⟩) := by
  cases hinsert : change.entersInsert with
  | true =>
    obtain ⟨before, after, happlied⟩ := inserting_applied hg hmode hinsert hchange
    refine hkeys.append fun _ hed => hed ▸ ?_
    intro events hevents
    obtain ⟨a, -, hrecording, hleft⟩ := types_typed hreplaying hchange happlied htyped events hevents
    rw [hleft]
    exact hrecording.lastChange
  | false =>
    rw [hquiet hinsert] at htyped
    cases htyped
    intro events hevents
    rw [hkeys events (by simpa using hevents)]
    exact lastChange_changed hreplaying hchange

/-- Typing a change where it is one remembers it, with its text. -/
theorem remembered_of_types (k : TypedChange) (h : ed.Ready)
    (hchange : (ed.planOf k.change).isChange = true) :
    Types ed k.strokes fun ed => ed.session.lastChange = some k.remembered :=
  lastChange_of_types h.grants h.mode h.not_replaying hchange k.types k.quiet
    (types_spelled h k.spells)

/-- Repeating a change that enters Insert mode comes to what leaving Insert mode does once its text
is typed. -/
theorem ends_repeat_of_insert {before after typed : Text} {registers : Registers}
    (hg : ed.host.Grants) (hlast : ed.session.lastChange = some ⟨change, typed⟩)
    (happlied : (ed.applied change).Inserting before after registers)
    (ha : a.Inserting (before ++ typed) after registers) :
    Ends (execute (.instant .repeatChange 0)) ed (fun _ ed' => ed'.SameView a.left)
      fun _ => False := by
  have hreplaying : (ed.replaying.applied change).Inserting before after registers := by
    rw [applied_replaying]
    exact happlied.congr rfl rfl
  have hreplay := ends_replay_of_insert (show ed.replaying.host.Grants from hg) hreplaying typed
  refine ends_repeat hlast (hreplay.mono ?_ fun _ h => h)
  intro _ _ hb
  obtain ⟨b, hb, rfl⟩ := hb
  have hview := sameView_left hb ha
  exact ⟨hview.text, hview.selection, hview.mode, hview.registers⟩

theorem ends_repeat_of_not_insert {typed : Text} (hg : ed.host.Grants)
    (hmode : ed.session.mode = .normal) (hlast : ed.session.lastChange = some ⟨change, typed⟩)
    (hinsert : change.entersInsert = false) :
    Ends (execute (.instant .repeatChange 0)) ed (fun _ ed' => ed'.SameView (ed.applied change))
      fun _ => False := by
  have happlied : (ed.replaying.applied change).session.mode ≠ .insert := by
    rw [applied_replaying]
    exact applied_mode_ne_insert hmode hinsert
  have hreplay := ends_replay_of_not_insert (show ed.replaying.host.Grants from hg) happlied typed
  refine ends_repeat hlast (hreplay.mono ?_ fun _ h => h)
  intro _ ed' hed
  rw [hed, applied_replaying]
  exact ⟨rfl, rfl, rfl, rfl⟩

theorem sameView_of_insert (k : TypedChange) (h : ed.Ready)
    (hlast : ed.session.lastChange = some k.remembered) (hinsert : k.change.entersInsert = true)
    (htarget : ed.hasTarget k.change = true) {dot : InputEvent} {events : List InputEvent}
    (hdot : dot.stroke? = some (.char '.'))
    (hevents : events.map (·.stroke?) = k.strokes.map some) :
    SameView (ed.press dot).2 (ed.pressAll events).2 := by
  have hchange := isChange_of_target h.mode hinsert htarget
  obtain ⟨before, after, happlied⟩ := inserting_applied h.grants h.mode hinsert hchange
  obtain ⟨a, ha, -, hleft⟩ := types_of_insert k h hinsert hchange happlied events hevents
  rw [hleft]
  exact types_dot h (ends_repeat_of_insert h.grants hlast happlied ha) [dot] (by simp [hdot])

theorem sameView_of_not_insert (k : TypedChange) (h : ed.Ready)
    (hlast : ed.session.lastChange = some k.remembered) (hinsert : k.change.entersInsert = false)
    {dot : InputEvent} {events : List InputEvent} (hdot : dot.stroke? = some (.char '.'))
    (hevents : events.map (·.stroke?) = k.strokes.map some) :
    SameView (ed.press dot).2 (ed.pressAll events).2 := by
  have hrepeat := types_dot h (ends_repeat_of_not_insert h.grants h.mode hlast hinsert)
  rw [types_of_not_insert k h hinsert events hevents]
  exact (hrepeat [dot] (by simp [hdot])).trans (sameView_changed ed k.change)

/-- **Repeating a change shows what typing it again does.** The change is the last one remembered,
as it is once it was typed where it changes something. A command that enters Insert mode with a
motion or text object needs a target, or its text would be typed as commands. -/
theorem repeat_sameView_retype (k : TypedChange) :
    (∀ ed : Editor, ed.Ready → (ed.planOf k.change).isChange = true →
      Types ed k.strokes fun ed => ed.session.lastChange = some k.remembered) ∧
    ∀ ed : Editor, ed.Ready → ed.session.lastChange = some k.remembered →
      (k.change.entersInsert = true → ed.hasTarget k.change = true) →
      ∀ (dot : InputEvent) (events : List InputEvent), dot.stroke? = some (.char '.') →
        events.map (·.stroke?) = k.strokes.map some →
        SameView (ed.press dot).2 (ed.pressAll events).2 := by
  refine ⟨fun ed h hchange => remembered_of_types k h hchange, ?_⟩
  intro ed h hlast htarget dot events hdot hevents
  cases hinsert : k.change.entersInsert with
  | true => exact sameView_of_insert k h hlast hinsert (htarget hinsert) hdot hevents
  | false => exact sameView_of_not_insert k h hlast hinsert hdot hevents

/-- Changing a word to `z`. -/
def changeWord : TypedChange where
  keys := ['c', 'w']
  change := .operateMotion .change (.nextWord false) 1
  spells := by
    have hkeys : MotionKeys .change ['w'] (.nextWord false) := .key rfl
    exact .operateMotion Count.spelled_nil Count.spelled_nil (by decide) hkeys (by decide)
  typing := [.char 'z']
  text := ['z']
  types := rfl
  quiet := nofun

/-- A word is changed, and the next one after it. -/
theorem repeat_sameView_retype_changeWord :
    let keys : List InputEvent := [.text 'c', .text 'w', .text 'z', .plain .escape]
    let ed : Editor := ⟨Session.new .normal {} none, .ofText ['a', 'b', ' ', 'c', 'd'] 0⟩
    let next : Editor := ((ed.pressAll keys).2.press (.text 'w')).2
    (ed.pressAll keys).2.session.lastChange = some changeWord.remembered ∧
      SameView (next.press (.text '.')).2 (next.pressAll keys).2 := by
  intro keys ed next
  obtain ⟨hfirst, hnext⟩ := repeat_sameView_retype changeWord
  refine ⟨hfirst ed ⟨rfl, rfl, rfl, rfl, rfl⟩ (by decide) keys rfl, ?_⟩
  exact hnext next ⟨by decide, by decide, by decide, by decide, by decide⟩ (by decide)
    (fun _ => by decide) _ keys rfl rfl

end Runs

end Editor

end ModalEdit
