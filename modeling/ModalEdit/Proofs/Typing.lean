import ModalEdit.Proofs.Commands
import ModalEdit.Proofs.Granting
import ModalEdit.Proofs.History
import ModalEdit.Proofs.Spelling

/-!
# Typing a change

What an editor comes to when a change is typed, on a host that grants everything. `Types` is about
strokes, whatever events they arrive as. The keys that spell a change carry out its plan and
remember it (`types_spelled`): an operator is carried out on the editor where it waits, and neither
counts nor other partial input leave a trace behind. In Insert mode the cursor stands between what
was typed and the rest of the text (`Inserting`), and the recorded change holds exactly what was
typed as long as Backspace takes back no more than that (`types_typing`).
-/

namespace ModalEdit

/-- What some strokes type in Insert mode after a text. Escape types nothing, and Backspace has to
find something typed. -/
def typedText : Text → List Stroke → Option Text
  | typed, [] => some typed
  | typed, .char c :: strokes => typedText (typed ++ [c]) strokes
  | typed, .backspace :: strokes =>
    if typed.isEmpty then none else typedText typed.dropLast strokes
  | _, .escape :: _ => none

/-- An operator waits that was typed over this partial input, so with its register. -/
def Input.WaitsOver (op : Operator) (before i : Input) : Prop :=
  ∃ lookahead inner outer, i = { before.awaitMotion op outer with lookahead, count := inner }

namespace Editor

variable {ed : Editor} {P Q : Editor → Prop}

/-! ## Feeding strokes -/

/-- `P` of the editor after these strokes, whatever events they are fed by. -/
def Types (ed : Editor) (strokes : List Stroke) (P : Editor → Prop) : Prop :=
  ∀ events : List InputEvent, events.map (·.stroke?) = strokes.map some → P (ed.pressAll events).2

theorem pressAll_append (ed : Editor) (events rest : List InputEvent) :
    (ed.pressAll (events ++ rest)).2 = ((ed.pressAll events).2.pressAll rest).2 := by
  induction events generalizing ed with
  | nil => rfl
  | cons e events ih => exact ih (ed.press e).2

theorem types_nil (h : P ed) : Types ed [] P := by
  intro events hevents
  rw [List.map_eq_nil_iff.1 hevents]
  exact h

theorem Types.append {strokes rest : List Stroke} (h : Types ed strokes P)
    (hrest : ∀ ed, P ed → Types ed rest Q) : Types ed (strokes ++ rest) Q := by
  intro events hevents
  rw [List.map_append] at hevents
  obtain ⟨first, last, rfl, hfirst, hlast⟩ := List.map_eq_append_iff.1 hevents
  rw [pressAll_append]
  exact hrest _ (h first hfirst) last hlast

/-- A stroke whose work is never refused. -/
theorem types_of_ends {k : Stroke} (h : Ends (stroke k) ed (fun _ => P) fun _ => False) :
    Types ed [k] P := by
  intro events hevents
  obtain ⟨e, rest, rfl, he, hrest⟩ := List.map_eq_cons_iff.1 hevents
  rw [List.map_eq_nil_iff.1 hrest]
  have hdispatch : dispatch e = stroke k := by
    unfold dispatch
    rw [he]
  exact press_of_ends (hdispatch ▸ h) fun _ => False.elim

/-! ## Reading keys -/

variable {c : Char} {input : Input} {command : Command}

theorem withInput_idle (h : ed.session.input = .idle .normal) :
    ed.withInput (.idle .normal) = ed := by
  unfold withInput
  rw [← h]

theorem types_incomplete (hmode : ed.session.mode ≠ .insert)
    (hread : ed.session.input.read ed.host.text ed.session.config c = (.incomplete, input))
    (h : P (ed.withInput input)) : Types ed [.char c] P := by
  refine types_of_ends (ends_bind (ends_get ?_))
  rw [if_neg hmode]
  refine ends_bind (ends_get ?_)
  dsimp only
  rw [hread]
  exact ends_bind (ends_update h)

theorem types_command (hmode : ed.session.mode ≠ .insert)
    (hread : ed.session.input.read ed.host.text ed.session.config c = (.command command, input))
    (h : Ends (execute command) (ed.withInput input) (fun _ => P) fun _ => False) :
    Types ed [.char c] P := by
  refine types_of_ends (ends_bind (ends_get ?_))
  rw [if_neg hmode]
  refine ends_bind (ends_get ?_)
  dsimp only
  rw [hread]
  exact ends_bind (ends_update (ends_bind (h.mono (fun _ _ h => h) fun _ h => h)))

/-- Keys that complete a command do what the command does. -/
theorem types_completes {keys : List Char} {i i' : Input}
    (h : Input.Completes ed.host.text ed.session.config i keys command i')
    (hexecute : Ends (execute command) (ed.withInput i') (fun _ => P) fun _ => False) :
    Types (ed.withInput i) (keys.map .char) P := by
  induction h with
  | last hmode hread => exact types_command hmode hread hexecute
  | @more i _ _ _ _ i' hmode hread _ ih =>
    have hkey : Types (ed.withInput i) [.char _] (· = ed.withInput i') :=
      types_incomplete hmode hread rfl
    exact hkey.append fun _ hed => hed ▸ ih hexecute

/-! ## Changes -/

/-- The editor after the plan of a change. -/
def applied (change : Repeatable) (ed : Editor) : Editor :=
  (ed.prepared change).carried (ed.planOf change)

/-- The editor after a plan, with the change remembered if the plan is one. -/
def remembered (plan : Plan) (change : Repeatable) (ed : Editor) : Editor :=
  if plan.isChange then
    { ed.carried plan with session := (ed.carried plan).session.recordChange change }
  else ed.carried plan

/-- The editor after a change was typed, or after its command if that enters Insert mode. -/
def changed (change : Repeatable) (ed : Editor) : Editor :=
  (ed.prepared change).remembered (ed.planOf change) change

theorem ends_carryOutChange_granted (hg : ed.host.Grants) {plan : Plan} {change : Repeatable} :
    Ends (carryOutChange plan (some change)) ed (fun _ ed' => ed' = ed.remembered plan change)
      fun _ => False := by
  refine ends_bind (ends_carryOut_granted hg ?_)
  unfold remembered
  dsimp only
  split
  · exact ends_update rfl
  · exact ends_pure rfl

/-- Partial input leaves no trace in what a plan comes to. -/
theorem carried_withInput {i i' : Input} (hgroups : i.jumpGroups = i'.jumpGroups)
    (hi : i.mode.isVisual = false) (hi' : i'.mode.isVisual = false) (plan : Plan) :
    (ed.withInput i).carried plan = (ed.withInput i').carried plan := by
  cases plan with
  | drop =>
    simp [carried, withInput, Session.dropPending, Session.mode, hi, hi', Input.switch, hgroups]
  | commit c =>
    simp [carried, withInput, committed, Session.committed, Session.settle, Session.afterEdit,
      Session.begin, Input.switch, hgroups]
  | select kind ends column => simp [carried, withInput, Session.highlight, Input.switch, hgroups]

theorem remembered_withInput {i i' : Input} (hgroups : i.jumpGroups = i'.jumpGroups)
    (hi : i.mode.isVisual = false) (hi' : i'.mode.isVisual = false) (plan : Plan)
    (change : Repeatable) :
    (ed.withInput i).remembered plan change = (ed.withInput i').remembered plan change := by
  unfold remembered
  rw [carried_withInput hgroups hi hi']

/-- Normal mode with no partial input, between key events, on a host that grants everything. -/
structure Ready (ed : Editor) : Prop where
  input : ed.session.input = .idle .normal
  not_replaying : ed.session.replaying = false
  grants : ed.host.Grants

theorem Ready.mode (h : ed.Ready) : ed.session.mode = .normal := by
  rw [Session.mode, h.input]
  rfl

/-- A command that comes to a commit in Normal mode leaves no partial input there. -/
theorem ends_execute_ready {E : Editor → Prop} (h : ed.Ready) {i : Input} {c : Commit}
    (hgroups : i.jumpGroups = []) (hrest : c.rest = .normal)
    (hplan : (ed.withInput i).planOfCommand command = some (.commit c))
    (hafter : ∀ after, After c ed after → after.Ready → P after) :
    Ends (execute command) (ed.withInput i) (fun _ => P) E := by
  have hinput : (ed.withInput i).host.Grants := h.grants
  refine ends_execute_granted hinput hplan fun lastChange recording => hafter _ ?_ ?_
  all_goals
    unfold noted
    rw [Session.noteCommand_frame]
  · exact ⟨rfl, rfl, rfl⟩
  · refine ⟨?_, h.not_replaying, h.grants.committed c⟩
    show Input.switch i c.rest.mode = .idle .normal
    rw [Input.switch, hgroups, hrest]
    rfl

/-! ### Carrying out -/

section Execute

variable {op : Operator} {i : Input}

theorem Ready.waitsOver_pending (h : ed.Ready) (op : Operator) (outer : Option Nat) :
    Input.WaitsOver op ed.session.input (.pending op outer none) := by
  rw [h.input]
  exact ⟨none, none, outer, rfl⟩

theorem prepared_operateMotion (ed : Editor) (op : Operator) (m : Motion) (count : Nat) :
    ed.prepared (.operateMotion op m count) =
      { ed with session := ed.session.noteFind m }.withInput
        (ed.session.input.awaitMotion op none) := by
  cases m <;> rfl

theorem noteFind_withInput (i : Input) (m : Motion) :
    { ed.withInput i with session := (ed.withInput i).session.noteFind m } =
      { ed with session := ed.session.noteFind m }.withInput i := by
  cases m <;> rfl

theorem ends_execute_motion (hg : ed.host.Grants) (hi : Input.WaitsOver op ed.session.input i)
    (hop : op ≠ .yank) (m : Motion) (count : Nat) :
    Ends (execute (.motion m count)) (ed.withInput i)
      (fun _ ed' => ed' = ed.changed (.operateMotion op m count)) fun _ => False := by
  obtain ⟨lookahead, inner, outer, rfl⟩ := hi
  have hrepeatable : (ed.withInput { ed.session.input.awaitMotion op outer with
      lookahead, count := inner }).session.repeatable (.motion m count) =
        some (.operateMotion op m count) := by
    cases op with
    | yank => exact absurd rfl hop
    | _ => rfl
  refine ends_bind (ends_get ?_)
  dsimp only
  rw [hrepeatable]
  refine ends_bind (ends_update (ends_bind (ends_planned ?_)))
  rw [noteFind_withInput]
  refine (ends_carryOutChange_granted ?_).mono ?_ fun _ h => h
  · exact hg
  · -- An operator's own count is no matter of its plan.
    intro _ ed' hed
    rw [hed]
    unfold changed planOf
    rw [prepared_operateMotion]
    exact remembered_withInput rfl rfl rfl _ _

theorem prepared_operateObject (ed : Editor) (op : Operator) (o : TextObject) (scope : Scope)
    (count : Nat) : ed.prepared (.operateObject op o scope count) =
      ed.withInput (ed.session.input.awaitMotion op none) := rfl

theorem ends_execute_object (hg : ed.host.Grants) (hi : Input.WaitsOver op ed.session.input i)
    (hop : op ≠ .yank) (o : TextObject) (scope : Scope) (count : Nat) :
    Ends (execute (.object o scope count)) (ed.withInput i)
      (fun _ ed' => ed' = ed.changed (.operateObject op o scope count)) fun _ => False := by
  obtain ⟨lookahead, inner, outer, rfl⟩ := hi
  have hrepeatable : (ed.withInput { ed.session.input.awaitMotion op outer with
      lookahead, count := inner }).session.repeatable (.object o scope count) =
        some (.operateObject op o scope count) := by
    cases op with
    | yank => exact absurd rfl hop
    | _ => rfl
  refine ends_bind (ends_get ?_)
  dsimp only
  rw [hrepeatable]
  refine ends_bind (ends_planned ((ends_carryOutChange_granted ?_).mono ?_ fun _ h => h))
  · exact hg
  · intro _ ed' hed
    rw [hed]
    unfold changed planOf
    rw [prepared_operateObject]
    exact remembered_withInput rfl rfl rfl _ _

theorem ends_execute_quick (hg : ed.host.Grants) (hmode : ed.session.mode = .normal)
    (edit : QuickEdit) (count : Nat) :
    Ends (execute (.instant (.quick edit) count)) ed
      (fun _ ed' => ed' = ed.changed (.quick edit count)) fun _ => False := by
  have hrepeatable : ed.session.repeatable (.instant (.quick edit) count) =
      some (.quick edit count) := if_pos hmode
  refine ends_bind (ends_get ?_)
  dsimp only
  rw [hrepeatable]
  exact ends_bind (ends_planned (ends_carryOutChange_granted hg))

theorem ends_execute_replace (h : ed.Ready) (c : Char) (count : Nat) :
    Ends (execute (.replace c count)) (ed.withInput (.idle .normal))
      (fun _ ed' => ed' = ed.changed (.replace c count)) fun _ => False := by
  rw [withInput_idle h.input]
  have hrepeatable : ed.session.repeatable (.replace c count) = some (.replace c count) := by
    simp [Session.repeatable, Session.mode, h.input, Input.idle]
  refine ends_bind (ends_get ?_)
  dsimp only
  rw [hrepeatable]
  exact ends_bind (ends_planned (ends_carryOutChange_granted h.grants))

/-- A count typed before an insertion is of no matter. -/
theorem ends_execute_insert (h : ed.Ready) (place : Insertion) (count : Option Nat) :
    Ends (execute (.enter (.insert place))) (ed.withInput { mode := .normal, count })
      (fun _ ed' => ed' = ed.changed (.insert place)) fun _ => False := by
  refine ends_bind (ends_get (ends_bind (ends_planned ?_)))
  refine (ends_carryOutChange_granted ?_).mono ?_ fun _ h => h
  · exact h.grants
  · intro _ ed' hed
    have hinput : ed = ed.withInput (.idle .normal) := (withInput_idle h.input).symm
    rw [hed, hinput]
    exact remembered_withInput rfl rfl rfl _ _

end Execute

/-! ### Typing the keys -/

/-- Keys that complete a command after a count, in Normal mode. -/
theorem types_normal (h : ed.Ready) {digits keys : List Char} {i' : Input}
    (hdigits : Count.Spelled digits)
    (hkeys : Input.Completes ed.host.text ed.session.config
      { mode := .normal, count := Count.ofDigits digits } keys command i')
    (hexecute : Ends (execute command) (ed.withInput i') (fun _ => P) fun _ => False) :
    Types ed ((digits ++ keys).map .char) P := by
  have htypes := types_completes
    (Input.completes_digits (Input.counting_normal none) rfl hdigits hkeys) hexecute
  rwa [← Input.idle, withInput_idle h.input] at htypes

/-- An operator waits after its key. -/
theorem types_operator (h : ed.Ready) (op : Operator) {digits : List Char}
    (hdigits : Count.Spelled digits) :
    Types ed ((digits ++ [op.key]).map .char)
      (· = ed.withInput (.pending op (Count.ofDigits digits) none)) :=
  types_normal h hdigits (.last nofun (Input.read_operatorKey op _))
    (ends_bind (ends_get (ends_update rfl)))

section Operator

variable {op : Operator} {outer : Option Nat} {inner keys : List Char}

theorem types_motion (h : ed.Ready) (hop : op ≠ .yank) {m : Motion} (hinner : Count.Spelled inner)
    (hkeys : MotionKeys op keys m) (hzero : keys = ['0'] → inner = []) :
    Types (ed.withInput (.pending op outer none)) ((inner ++ keys).map .char)
      (· = ed.changed (.operateMotion op m
        ((Input.pending op outer (Count.ofDigits inner)).composedCount m.defaultCount))) := by
  refine types_completes (Input.completes_digits (Input.counting_pending op outer none) rfl hinner
    (Input.completes_motionKeys hkeys ?_))
    (ends_execute_motion h.grants (h.waitsOver_pending op outer) hop m _)
  intro hk
  rw [hzero hk]
  rfl

theorem types_object (h : ed.Ready) (hop : op ≠ .yank) {o : TextObject} {scope : Scope}
    (hinner : Count.Spelled inner) (hkeys : ObjectKeys keys o scope) :
    Types (ed.withInput (.pending op outer none)) ((inner ++ keys).map .char)
      (· = ed.changed (.operateObject op o scope
        ((Input.pending op outer (Count.ofDigits inner)).composedCount 1))) :=
  types_completes (Input.completes_digits (Input.counting_pending op outer none) rfl hinner
    (Input.completes_objectKeys hkeys))
    (ends_execute_object h.grants (h.waitsOver_pending op outer) hop o scope _)

end Operator

/-- **The keys of a change carry it out.** -/
theorem types_spelled (h : ed.Ready) {keys : List Char} {change : Repeatable}
    (hkeys : Spells keys change) : Types ed (keys.map .char) (· = ed.changed change) := by
  cases hkeys with
  | operateMotion houter hinner hop hm hzero =>
    have htypes := (types_operator h _ houter).append fun _ hed =>
      hed ▸ types_motion h hop hinner hm hzero
    simpa using htypes
  | operateObject houter hinner hop ho =>
    have htypes := (types_operator h _ houter).append fun _ hed =>
      hed ▸ types_object h hop hinner ho
    simpa using htypes
  | quick houter hc =>
    refine types_normal h houter (.last nofun (Input.read_quickKey hc rfl rfl)) ?_
    rw [← Input.idle, withInput_idle h.input]
    exact ends_execute_quick h.grants h.mode _ _
  | replace c houter =>
    exact types_normal h houter (.more _ nofun rfl (.last nofun rfl))
      (ends_execute_replace h c _)
  | insert houter hc =>
    exact types_normal h houter (.last nofun (Input.read_insertKey hc rfl rfl))
      (ends_execute_insert h _ _)
  | insertLineStart houter =>
    exact types_normal h houter (.more _ nofun rfl (.last nofun rfl)) (ends_execute_insert h _ _)

/-! ## Insert mode -/

/-- Text is typed at a cursor between two parts of the text. -/
structure Inserting (before after : Text) (registers : Registers) (ed : Editor) : Prop where
  grants : ed.host.Grants
  mode : ed.session.mode = .insert
  text : ed.host.text = before ++ after
  selection : ed.host.selection = .cursor before.length
  registers : ed.session.registers = registers

/-- What is typed extends a change that it has extended by `typed`. -/
structure Recording (change : Repeatable) (typed : Text) (ed : Editor) : Prop where
  lastChange : ed.session.lastChange = some ⟨change, typed⟩
  recording : ed.session.recording = true
  not_replaying : ed.session.replaying = false

/-- The editor after a text was put in. -/
def inserted (text : Text) (ed : Editor) : Editor :=
  let after := ed.committed (ed.session.planType ed.host.text ed.host.selection text)
  { after with session := after.session.recordTyped text }

/-- The editor after a character was erased. -/
def erased (c : Commit) (ed : Editor) : Editor :=
  { ed.committed c with session := (ed.committed c).session.recordErased }

/-- The editor after Insert mode was left. -/
def left (ed : Editor) : Editor :=
  { ed with session := { ed.session with recording := false } }.committed
    (ed.session.planLeave ed.host.text ed.host.selection)

section Insert

variable {before after typed : Text} {registers : Registers} {change : Repeatable}
  {Q : Unit → Editor → Prop} {E : Editor → Prop}

theorem ends_insertText_granted (hg : ed.host.Grants) {text : Text} (h : Q () (ed.inserted text)) :
    Ends (insertText text) ed Q E :=
  ends_bind (ends_planned (ends_bind (ends_commit_granted hg (ends_update h))))

theorem ends_eraseChar_granted (hg : ed.host.Grants) {c : Commit}
    (hc : ed.session.planErase ed.host.text ed.host.selection = some c)
    (h : Q () (ed.erased c)) : Ends eraseChar ed Q E := by
  refine ends_bind (ends_planned ?_)
  rw [hc]
  exact ends_bind (ends_commit_granted hg (ends_update h))

theorem ends_leaveInsert_granted (hg : ed.host.Grants) (h : Q () ed.left) :
    Ends leaveInsert ed Q E := by
  refine ends_bind (ends_planned (ends_bind (ends_update (ends_commit_granted ?_ ?_))))
  · exact hg
  · exact h

theorem Inserting.cursor (h : ed.Inserting before after registers) :
    ed.session.cursor ed.host.text ed.host.selection = before.length := by
  rw [Session.cursor, h.mode, h.text, h.selection]
  simp [Mode.isVisual, Selection.cursor]

/-- A commit that stays in Insert mode and leaves the cursor between two parts of the text. -/
theorem inserting_committed (hg : ed.host.Grants) {c : Commit} (hrest : c.rest = .insert)
    (htext : c.edit.elim ed.host.text (·.apply ed.host.text) = before ++ after)
    (hlanding : c.landing = .index before.length)
    (hregisters : (ed.session.committed c).registers = registers) :
    (ed.committed c).Inserting before after registers := by
  have hcommitted : (ed.host.committed c).text = before ++ after :=
    (Host.text_committed c ed.host).trans htext
  refine ⟨hg.committed c, ?_, hcommitted, ?_, hregisters⟩
  · show c.rest.mode = .insert
    rw [hrest]
    rfl
  · show (ed.host.committed c).selection = _
    rw [Host.selection_committed, hcommitted, Commit.cursor, hrest, hlanding]
    simp [Landing.resolve, Rest.place]

/-- Recording is no matter of the text. -/
theorem Inserting.congr (h : ed.Inserting before after registers) {s : Session}
    (hinput : s.input = ed.session.input) (hregisters : s.registers = ed.session.registers) :
    Inserting before after registers { ed with session := s } :=
  ⟨h.grants, by rw [Session.mode, hinput]; exact h.mode, h.text, h.selection,
    hregisters.trans h.registers⟩

theorem inserting_inserted (h : ed.Inserting before after registers) (text : Text) :
    (ed.inserted text).Inserting (before ++ text) after registers := by
  have hcommitted :
      (ed.committed (ed.session.planType ed.host.text ed.host.selection text)).Inserting
        (before ++ text) after registers := by
    refine inserting_committed h.grants rfl ?_ ?_ h.registers
    · simp only [Session.planType, h.cursor]
      simp [h.text, Edit.apply, Edit.insertion, Text.splice]
    · simp [Session.planType, h.cursor]
  refine hcommitted.congr ?_ ?_
  · rw [Session.recordTyped_frame]
  · rw [Session.recordTyped_frame]

/-- Backspace takes back the last character before the cursor. -/
theorem inserting_erased {c : Char} (h : ed.Inserting (before ++ [c]) after registers) :
    ∃ commit, ed.session.planErase ed.host.text ed.host.selection = some commit ∧
      (ed.erased commit).Inserting before after registers := by
  have hcommitted : (ed.committed
      { edit := some (.deletion before.length (before ++ [c]).length)
        landing := .index before.length
        rest := .insert }).Inserting before after registers := by
    refine inserting_committed h.grants rfl ?_ rfl h.registers
    simp [h.text, Edit.apply, Edit.deletion, Text.splice]
  refine ⟨_, ?_, hcommitted.congr ?_ ?_⟩
  · simp [Session.planErase, h.cursor]
  · rw [Session.recordErased_frame]
  · rw [Session.recordErased_frame]

/-! ### Recording what is typed -/

theorem Recording.committed (h : ed.Recording change typed) (c : Commit) :
    (ed.committed c).Recording change typed :=
  ⟨h.lastChange, h.recording, h.not_replaying⟩

theorem recording_inserted (h : ed.Recording change typed) (text : Text) :
    (ed.inserted text).Recording change (typed ++ text) := by
  obtain ⟨hlast, hrecording, hreplaying⟩ :=
    h.committed (ed.session.planType ed.host.text ed.host.selection text)
  refine ⟨?_, ?_, ?_⟩
  · simp [inserted, Session.recordTyped, hlast, hrecording, hreplaying]
  · simp only [inserted]
    rw [Session.recordTyped_frame]
    exact hrecording
  · simp only [inserted]
    rw [Session.recordTyped_frame]
    exact hreplaying

theorem recording_erased (h : ed.Recording change typed) (c : Commit) :
    (ed.erased c).Recording change typed.dropLast := by
  obtain ⟨hlast, hrecording, hreplaying⟩ := h.committed c
  refine ⟨?_, ?_, ?_⟩
  · simp [erased, Session.recordErased, hlast, hrecording]
  · simp only [erased]
    rw [Session.recordErased_frame]
    exact hrecording
  · simp only [erased]
    rw [Session.recordErased_frame]
    exact hreplaying

/-! ### Typing strokes -/

theorem types_insert {k : Stroke} (hmode : ed.session.mode = .insert)
    (h : Ends (insertStroke k) ed (fun _ => P) fun _ => False) : Types ed [k] P := by
  refine types_of_ends (ends_bind (ends_get ?_))
  rw [if_pos hmode]
  exact ends_bind (h.mono (fun _ _ h => h) fun _ h => h)

/-- **Strokes type their text, and the recorded change follows them.** -/
theorem types_typing {strokes : List Stroke} {text : Text}
    (h : ed.Inserting (before ++ typed) after registers) (hrecording : ed.Recording change typed)
    (htyped : typedText typed strokes = some text) :
    Types ed strokes fun ed =>
      ed.Inserting (before ++ text) after registers ∧ ed.Recording change text := by
  induction strokes generalizing ed typed with
  | nil =>
    cases htyped
    exact types_nil ⟨h, hrecording⟩
  | cons k strokes ih =>
    cases k with
    | char c =>
      have hinserted := inserting_inserted h [c]
      rw [List.append_assoc] at hinserted
      have hkey : Types ed [.char c] (· = ed.inserted [c]) :=
        types_insert h.mode (ends_insertText_granted h.grants rfl)
      refine hkey.append ?_
      intro ed' hed
      rw [hed]
      exact ih hinserted (recording_inserted hrecording [c]) htyped
    | backspace =>
      rcases List.eq_nil_or_concat typed with rfl | ⟨init, c, rfl⟩
      · cases htyped
      · rw [List.concat_eq_append, ← List.append_assoc] at h
        obtain ⟨commit, hplan, herased⟩ := inserting_erased h
        have hinit := recording_erased hrecording commit
        rw [List.concat_eq_append, List.dropLast_concat] at hinit
        have hkey : Types ed [.backspace] (· = ed.erased commit) :=
          types_insert h.mode (ends_eraseChar_granted h.grants hplan rfl)
        refine hkey.append ?_
        intro ed' hed
        rw [hed]
        refine ih herased hinit ?_
        simpa [typedText] using htyped
    | escape => cases htyped

end Insert

end Editor

end ModalEdit
