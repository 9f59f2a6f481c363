import ModalEdit.Proofs.ChangeKeys
import ModalEdit.Proofs.ClipboardRegister

/-!
# Repeating with a register

A change is remembered without the register that was selected for its command. So `.` repeats it
with the register selected for `.` itself, which without one is the unnamed register
(`repeat_forgets_register`).

Repeating and typing again are both brought back to one editor, with a register selected and nothing
else typed, where they meet as they do without one (`Finished`). Two editors that differ in the
register selected take the same text, into the one register or the other (`exists_takes`). Puts take
nothing, and look at what the register selected holds (`planOf_put_congr`).
-/

namespace ModalEdit

namespace Repeatable

/-- The change is a put. Puts read a register; other changes write one if they take text. -/
def isPut : Repeatable → Bool
  | quick edit _ => edit == .putAfter || edit == .putBefore
  | _ => false

/-- The strokes of a change: the keys of its command, and if that enters Insert mode what is typed
there. Escape leaves it. -/
def strokes (change : Repeatable) (keys : List Char) (typing : List Stroke) : List Stroke :=
  keys.map .char ++ if change.entersInsert then typing ++ [.escape] else []

end Repeatable

namespace Editor

variable {ed a b : Editor} {change : Repeatable} {name : Option Char} {i : Input}
  {keys : List Char}

/-! ## What a change comes to -/

/-- The editor shows the end of a change whose command came to `applied`: that, or if that entered
Insert mode what leaving it shows once a text is typed. -/
inductive Finished (typed : Text) (applied : Editor) : Editor → Prop
  | done {after : Editor} : applied.session.mode ≠ .insert → after.SameView applied →
      Finished typed applied after
  | left {after a : Editor} {before rest : Text} {registers : Registers} :
      applied.Inserting before rest registers → a.Inserting (before ++ typed) rest registers →
      after.SameView a.left → Finished typed applied after

theorem Inserting.parts_eq {before rest before' rest' : Text} {r r' : Registers}
    (ha : a.Inserting before rest r) (hb : b.Inserting before' rest' r') (hhost : a.host = b.host) :
    before = before' ∧ rest = rest' := by
  have htext := ha.text.symm.trans ((congrArg Host.text hhost).trans hb.text)
  have hselection := ha.selection.symm.trans ((congrArg Host.selection hhost).trans hb.selection)
  exact List.append_inj htext (congrArg Selection.active hselection)

/-- **What a command comes to settles the screen, and its registers stay.** -/
theorem Finished.withRegisters {typed : Text} {applied after after' : Editor} {r r' : Registers}
    (h : Finished typed (applied.withRegisters r) after)
    (h' : Finished typed (applied.withRegisters r') after') :
    after.SameScreen after' ∧ after.session.registers = r ∧ after'.session.registers = r' := by
  cases h with
  | done hmode hview =>
    cases h' with
    | done _ hview' =>
      exact ⟨⟨hview.text.trans hview'.text.symm, hview.selection.trans hview'.selection.symm,
        hview.mode.trans hview'.mode.symm⟩, hview.registers, hview'.registers⟩
    | left happlied' => exact absurd happlied'.mode hmode
  | @left a before rest registers happlied ha hview =>
    cases h' with
    | done hmode' => exact absurd happlied.mode hmode'
    | @left b before' rest' registers' happlied' hb hview' =>
      obtain ⟨rfl, rfl⟩ := happlied.parts_eq happlied' rfl
      have hb' : (b.withRegisters registers).Inserting (before ++ typed) rest registers :=
        ⟨hb.grants, hb.mode, hb.text, hb.selection, rfl⟩
      have hleft := hview.trans (sameView_left ha hb')
      refine ⟨⟨hleft.text.trans hview'.text.symm, hleft.selection.trans hview'.selection.symm,
        hleft.mode.trans hview'.mode.symm⟩, ?_, ?_⟩
      · exact hleft.registers.trans happlied.registers.symm
      · exact hview'.registers.trans (hb.registers.trans happlied'.registers.symm)

theorem Finished.sameView {typed : Text} {applied after after' : Editor}
    (h : Finished typed applied after) (h' : Finished typed applied after') :
    after.SameView after' := by
  obtain ⟨hscreen, hregisters, hregisters'⟩ :=
    @Finished.withRegisters typed applied after after' applied.session.registers
      applied.session.registers h h'
  exact ⟨hscreen.text, hscreen.selection, hscreen.mode, hregisters.trans hregisters'.symm⟩

theorem hasTarget_selecting (ed : Editor) (change : Repeatable) (name : Option Char) :
    (ed.selecting name).hasTarget change = ed.hasTarget change := by
  cases change with
  | operateMotion op m count => cases m <;> rfl
  | _ => rfl

section

variable {typing : List Stroke} {typed : Text}

/-- Where a command enters Insert mode, its target leaves the cursor between two parts of the text,
whatever register is selected. -/
theorem inserting_selecting (h : ed.Ready) (hinsert : change.entersInsert = true)
    (htarget : ed.hasTarget change = true) (name : Option Char) :
    ((ed.selecting name).planOf change).isChange = true ∧ ∃ before rest registers,
      ((ed.selecting name).applied change).Inserting before rest registers := by
  have hg : (ed.selecting name).host.Grants := h.grants
  have hmode : (ed.selecting name).session.mode = .normal := h.mode
  have hchange := isChange_of_target hmode hinsert
    ((hasTarget_selecting ed change name).trans htarget)
  obtain ⟨before, rest, happlied⟩ := inserting_applied hg hmode hinsert hchange
  exact ⟨hchange, before, rest, _, happlied⟩

theorem finished_retype (h : ed.Ready)
    (hkeys : Input.ReadsChange ed.host.text ed.session.config keys change name)
    (htyped : typedText [] typing = some typed)
    (htarget : change.entersInsert = true → ed.hasTarget change = true) :
    Types ed (change.strokes keys typing) (Finished typed ((ed.selecting name).applied change)) := by
  have htypes := types_readsChange h hkeys
  unfold Repeatable.strokes
  cases hinsert : change.entersInsert with
  | true =>
    obtain ⟨hchange, before, rest, registers, happlied⟩ :=
      inserting_selecting h hinsert (htarget hinsert) name
    have hreplaying : (ed.selecting name).session.replaying = false := h.not_replaying
    refine htypes.append fun _ hed => hed ▸ ?_
    intro events hevents
    obtain ⟨a, ha, -, hleft⟩ := types_typed hreplaying hchange happlied htyped events hevents
    exact .left happlied ha (hleft ▸ ⟨rfl, rfl, rfl, rfl⟩)
  | false =>
    have hmode : (ed.selecting name).session.mode = .normal := h.mode
    intro events hevents
    rw [htypes events (by simpa using hevents)]
    exact .done (applied_mode_ne_insert hmode hinsert) (sameView_changed _ change).symm

theorem finished_repeat (h : ed.Ready) (hlast : ed.session.lastChange = some ⟨change, typed⟩)
    (hkeys : Input.Completes ed.host.text ed.session.config (.idle .normal) keys
      (.instant .repeatChange 0) i)
    (htarget : change.entersInsert = true → ed.hasTarget change = true) :
    Types ed (keys.map .char) (Finished typed ((ed.selecting i.register).applied change)) := by
  obtain ⟨lookahead, count, hi⟩ := hkeys.eq_normal
  have happlied : (ed.withInput i).applied change = (ed.selecting i.register).applied change := by
    rw [h.selecting_eq, hi]
    exact applied_typed ed lookahead count i.register change
  have hg : (ed.withInput i).host.Grants := h.grants
  have hmode : (ed.withInput i).session.mode = .normal := by
    rw [hi]
    rfl
  have hlast : (ed.withInput i).session.lastChange = some ⟨change, typed⟩ := hlast
  rw [← happlied]
  refine types_repeatKeys h hkeys ?_
  cases hinsert : change.entersInsert with
  | true =>
    obtain ⟨-, before, rest, registers, hstart⟩ :=
      inserting_selecting h hinsert (htarget hinsert) i.register
    rw [← happlied] at hstart
    have hend := inserting_inserted hstart typed
    refine (ends_repeat_of_insert hg hlast hstart hend).mono ?_ fun _ h => h
    exact fun _ _ hview => .left hstart hend hview
  | false =>
    refine (ends_repeat_of_not_insert hg hmode hlast hinsert).mono ?_ fun _ h => h
    exact fun _ _ hview => .done (applied_mode_ne_insert hmode hinsert) hview

end

/-! ## One register or another -/

theorem carried_withWrite (ed : Editor) (plan : Plan) (name : Option Char)
    (w : Option (Char × Register)) :
    (ed.selecting name).carried (plan.withWrite w) =
      (ed.carried plan).withRegisters
        (ed.session.registers.written (plan.withWrite w).write?) := by
  cases plan with
  | commit c => cases w <;> rfl
  | _ => rfl

theorem registers_prepared (ed : Editor) (change : Repeatable) :
    (ed.prepared change).session.registers = ed.session.registers := by
  show (ed.session.prepareRepeat change).registers = _
  rw [Session.prepareRepeat_frame]

/-- A change takes this text, if any, into the register selected, and does all else whatever that
register is. -/
def Takes (ed : Editor) (change : Repeatable) (taken : Option Register) : Prop :=
  ∃ plan : Plan, ∀ name : Option Char, let w := taken.map (name.getD Registers.unnamed, ·)
    (ed.selecting name).planOf change = plan.withWrite w ∧ (plan.withWrite w).write? = w

theorem takes_of_operates (op : Operator) (range : Range)
    (hoperates : (ed.prepared change).session.Operates ed.host.text ed.host.selection
      change.command op range)
    (hvisual : (ed.prepared change).session.mode.isVisual = false) :
    ∃ taken, ed.Takes change taken := by
  let region := Region.ofRange ed.host.text range
  let taken := if region.isVoid then none else some (region.register ed.host.text)
  refine ⟨taken, (ed.prepared change).session.planOperator ed.host.text ed.host.selection op range
    (Session.forgetsSince change.command), fun name => ?_⟩
  have hwrite : taken.map (name.getD Registers.unnamed, ·) =
      region.write? ed.host.text (name.getD Registers.unnamed) := by
    unfold taken Region.write?
    cases region.isVoid <;> rfl
  rw [hwrite]
  exact ⟨planOf_selecting hoperates hvisual name, Session.write_withWrite_planOperator ..⟩

theorem takes_none (plan : Plan) (hplan : ∀ name, (ed.selecting name).planOf change = plan)
    (hwrite : plan.write? = none) : ed.Takes change none := by
  have hsame : plan = plan.withWrite none := by
    rw [← hwrite]
    exact plan.withWrite_self
  exact ⟨plan, fun name => ⟨(hplan name).trans hsame, hsame ▸ hwrite⟩⟩

theorem takes_operateMotion (ed : Editor) (op : Operator) (m : Motion) (count : Nat) :
    ∃ taken, ed.Takes (.operateMotion op m count) taken := by
  let s := ({ ed with session := ed.session.noteFind m }.withInput
    (ed.session.input.awaitMotion op none)).session
  cases hrange : s.motionRange ed.host.text m count (s.cursor ed.host.text ed.host.selection) with
  | none =>
    refine ⟨none, takes_none .drop (fun name => ?_) rfl⟩
    have hnone : (s.selecting name).motionRange ed.host.text m count
        ((s.selecting name).cursor ed.host.text ed.host.selection) = none := hrange
    have hplan := @planMotion_awaitMotion (s.selecting name) ed.host.text ed.host.selection op
      (ed.session.input.selecting name) none rfl m count
    rw [hnone] at hplan
    unfold planOf
    rw [prepared_selecting, prepared_operateMotion]
    exact hplan
  | some range =>
    refine takes_of_operates op range ?_ ?_
    · rw [prepared_operateMotion]
      exact .motion rfl hrange
    · rw [prepared_operateMotion]
      rfl

theorem takes_operateObject (ed : Editor) (op : Operator) (o : TextObject) (scope : Scope)
    (count : Nat) : ∃ taken, ed.Takes (.operateObject op o scope count) taken := by
  let s := (ed.withInput (ed.session.input.awaitMotion op none)).session
  cases hrange : o.range ed.host.text scope count (s.cursor ed.host.text ed.host.selection) with
  | none =>
    refine ⟨none, takes_none .drop (fun name => ?_) rfl⟩
    unfold planOf
    rw [prepared_operateObject, Session.planRepeatable, planObject_awaitMotion rfl]
    exact congrArg (Option.elim · Plan.drop _) hrange
  | some range => exact takes_of_operates op range (.object rfl hrange) rfl

theorem takes_quick (hmode : ed.session.mode = .normal) {edit : QuickEdit} (count : Nat)
    (hput : (Repeatable.quick edit count).isPut = false) :
    ∃ taken, ed.Takes (.quick edit count) taken := by
  obtain ⟨op, m, hoperation⟩ : ∃ op m, (Instant.quick edit).operation = some (op, m) := by
    cases edit with
    | putAfter | putBefore => cases hput
    | _ => exact ⟨_, _, rfl⟩
  obtain ⟨range, hrange⟩ := Instant.range_of_operation hoperation ed.host.text count
    (ed.session.cursor ed.host.text ed.host.selection)
  have hvisual : ed.session.mode.isVisual = false := by rw [hmode]; rfl
  exact takes_of_operates op range (.key hoperation (hrange ed.session).2) hvisual

/-- **Any change but a put takes the same whatever register is selected.** -/
theorem exists_takes (hmode : ed.session.mode = .normal) (hput : change.isPut = false) :
    ∃ taken, ed.Takes change taken := by
  cases change with
  | operateMotion op m count => exact takes_operateMotion ed op m count
  | operateObject op o scope count => exact takes_operateObject ed op o scope count
  | quick edit count => exact takes_quick hmode count hput
  | replace c count =>
    exact ⟨none, takes_none (ed.session.planReplace ed.host.text ed.host.selection c count)
      (fun _ => rfl) (Session.write_planReplace c count)⟩
  | insert place =>
    refine ⟨none, takes_none (ed.session.planInsert ed.host.text ed.host.selection place)
      (fun _ => ?_) (Session.write_planInsert place)⟩
    cases place <;> rfl

theorem Takes.applied {taken : Option Register} (h : ed.Takes change taken) :
    ∃ applied : Editor, ∀ name : Option Char, (ed.selecting name).applied change =
      applied.withRegisters
        (ed.session.registers.written (taken.map (name.getD Registers.unnamed, ·))) := by
  obtain ⟨plan, hplan⟩ := h
  refine ⟨(ed.prepared change).carried plan, fun name => ?_⟩
  obtain ⟨hplan, hwrite⟩ := hplan name
  unfold Editor.applied
  rw [hplan, prepared_selecting, carried_withWrite, hwrite, registers_prepared]

theorem planOf_put (hput : change.isPut = true) :
    ∃ count after, ∀ ed : Editor, ed.prepared change = ed ∧
      ed.planOf change = ed.session.planPut ed.host.text ed.host.selection count after := by
  cases change with
  | quick edit count =>
    cases edit with
    | putAfter => exact ⟨max count 1, true, fun _ => ⟨rfl, rfl⟩⟩
    | putBefore => exact ⟨max count 1, false, fun _ => ⟨rfl, rfl⟩⟩
    | _ => cases hput
  | _ => cases hput

theorem applied_put (ed : Editor) (hput : change.isPut = true) (name : Option Char) :
    (ed.selecting name).applied change =
      (ed.carried ((ed.selecting name).planOf change)).withRegisters ed.session.registers := by
  obtain ⟨count, after, hplan⟩ := planOf_put hput
  obtain ⟨hprepared, hplan⟩ := hplan (ed.selecting name)
  have hwrite : ((ed.selecting name).planOf change).write? = none := by
    rw [hplan]
    exact Session.write_planPut count after
  have hcarried := carried_withWrite ed ((ed.selecting name).planOf change) name none
  rw [← hwrite, ← Plan.withWrite_self, hwrite] at hcarried
  unfold applied
  rw [hprepared]
  exact hcarried

/-- **Puts look at the register selected only.** -/
theorem planOf_put_congr (hput : change.isPut = true) {name name' : Option Char}
    (hread : ed.session.registers.read (name.getD Registers.unnamed) =
      ed.session.registers.read (name'.getD Registers.unnamed)) :
    (ed.selecting name).planOf change = (ed.selecting name').planOf change := by
  obtain ⟨count, after, hplan⟩ := planOf_put hput
  rw [(hplan (ed.selecting name)).2, (hplan (ed.selecting name')).2]
  exact @Session.planPut_congr (ed.selecting name).session ed.host.text ed.host.selection
    (ed.selecting name').session hread rfl count after

/-! ## Repeating without the register -/

/-- How a change that was repeated with one register stands to the same change typed with another.
Puts show what each of the registers holds, and write none. Any other change shows the same, and
takes the same text, if any, into the one register and into the other. -/
structure DiffersInRegister (ed : Editor) (change : Repeatable) (name name' : Option Char)
    (repeated retyped : Editor) : Prop where
  put : change.isPut = true →
    repeated.session.registers = ed.session.registers ∧
      retyped.session.registers = ed.session.registers ∧
      (ed.session.registers.read (name.getD Registers.unnamed) =
        ed.session.registers.read (name'.getD Registers.unnamed) → repeated.SameView retyped)
  taken : change.isPut = false → repeated.SameScreen retyped ∧ ∃ taken : Option Register,
    repeated.session.registers =
        ed.session.registers.written (taken.map (name.getD Registers.unnamed, ·)) ∧
      retyped.session.registers =
        ed.session.registers.written (taken.map (name'.getD Registers.unnamed, ·))

theorem differsInRegister (h : ed.Ready) {typed : Text} {name name' : Option Char}
    {repeated retyped : Editor}
    (hrepeated : Finished typed ((ed.selecting name).applied change) repeated)
    (hretyped : Finished typed ((ed.selecting name').applied change) retyped) :
    ed.DiffersInRegister change name name' repeated retyped := by
  refine ⟨fun hput => ?_, fun hput => ?_⟩
  · rw [applied_put ed hput] at hrepeated hretyped
    have hregisters := hrepeated.withRegisters hrepeated
    have hregisters' := hretyped.withRegisters hretyped
    refine ⟨hregisters.2.1, hregisters'.2.1, fun hread => ?_⟩
    rw [planOf_put_congr hput hread] at hrepeated
    exact hrepeated.sameView hretyped
  · obtain ⟨taken, htakes⟩ := exists_takes h.mode hput
    obtain ⟨applied, happlied⟩ := htakes.applied
    rw [happlied] at hrepeated hretyped
    obtain ⟨hscreen, hregisters, hregisters'⟩ := hrepeated.withRegisters hretyped
    exact ⟨hscreen, taken, hregisters, hregisters'⟩

theorem lastChange_retype (h : ed.Ready) {typing : List Stroke} {typed : Text}
    (hkeys : Input.ReadsChange ed.host.text ed.session.config keys change name)
    (htyped : typedText [] typing = some typed)
    (hquiet : change.entersInsert = false → typing = [])
    (hchange : ((ed.selecting name).planOf change).isChange = true) :
    Types ed (change.strokes keys typing) (·.session.lastChange = some ⟨change, typed⟩) := by
  have hg : (ed.selecting name).host.Grants := h.grants
  exact lastChange_of_types hg h.mode h.not_replaying hchange htyped hquiet
    (types_readsChange h hkeys)

/-- **Repeating a change forgets the register it was typed with.** The change is a `d` or `c` with a
motion or text object, or one of `p P x X C D S s`, typed with whatever register; if it enters Insert
mode, with a text typed there and Escape.

* Typed where it is a change, it is remembered by its command and its text.
* From then on, `.` shows what typing the change again with the register of `.` itself shows: without
  one for `.`, what typing it without one shows.
* Typing it again with another register, the one it had first for instance, differs from that by the
  register. -/
theorem repeat_forgets_register (change : Repeatable) {typing : List Stroke} {typed : Text}
    (htyped : typedText [] typing = some typed)
    (hquiet : change.entersInsert = false → typing = []) :
    (∀ ed : Editor, ed.Ready → ∀ (keys : List Char) (name : Option Char),
      Input.ReadsChange ed.host.text ed.session.config keys change name →
      ((ed.selecting name).planOf change).isChange = true →
      Types ed (change.strokes keys typing) (·.session.lastChange = some ⟨change, typed⟩)) ∧
    ∀ ed : Editor, ed.Ready → ed.session.lastChange = some ⟨change, typed⟩ →
      (change.entersInsert = true → ed.hasTarget change = true) →
      ∀ (dot : List Char) (i : Input), Input.Completes ed.host.text ed.session.config
        (.idle .normal) dot (.instant .repeatChange 0) i →
      ∀ (keys : List Char) (name : Option Char),
        Input.ReadsChange ed.host.text ed.session.config keys change name →
      ∀ repeating retyping : List InputEvent,
        repeating.map (·.stroke?) = (dot.map .char).map some →
        retyping.map (·.stroke?) = (change.strokes keys typing).map some →
        let repeated := (ed.pressAll repeating).2
        let retyped := (ed.pressAll retyping).2
        (i.register = name → repeated.SameView retyped) ∧
          ed.DiffersInRegister change i.register name repeated retyped := by
  refine ⟨fun ed h keys name hkeys => lastChange_retype h hkeys htyped hquiet, ?_⟩
  intro ed h hlast htarget dot i hdot keys name hkeys repeating retyping hrepeating hretyping
  have hrepeated := finished_repeat h hlast hdot htarget repeating hrepeating
  have hretyped := finished_retype h hkeys htyped htarget retyping hretyping
  refine ⟨fun hname => ?_, differsInRegister h hrepeated hretyped⟩
  rw [hname] at hrepeated
  exact hrepeated.sameView hretyped

/-- A word is changed into a register, and the next one after it. -/
theorem repeat_forgets_register_changeWord :
    let plain : List InputEvent := [.text 'c', .text 'w', .text 'z', .plain .escape]
    let prefixed : List InputEvent := [.text '"', .text 'a'] ++ plain
    let ed : Editor := ⟨Session.new .normal {} none, .ofText ['a', 'b', ' ', 'c', 'd'] 0⟩
    let change : Repeatable := .operateMotion .change (.nextWord false) 1
    let next : Editor := ((ed.pressAll prefixed).2.press (.text 'w')).2
    let repeated := (next.pressAll [.text '.']).2
    (ed.pressAll prefixed).2.session.lastChange = some ⟨change, ['z']⟩ ∧
      repeated.SameView (next.pressAll plain).2 ∧
      next.DiffersInRegister change none (some 'a') repeated (next.pressAll prefixed).2 := by
  intro plain prefixed ed change next repeated
  have hnil : Input.Preface [] none none := .nil
  have ha : Input.Preface ['"', 'a'] none (some 'a') := hnil.register (by decide)
  have hop : Operator.change ≠ .yank := by decide
  have hw : MotionKeys .change ['w'] (.nextWord false) := .key rfl
  have hready : next.Ready := ⟨by decide, by decide, by decide, by decide, by decide⟩
  have hlast : next.session.lastChange = some ⟨change, ['z']⟩ := by decide
  have htarget : change.entersInsert = true → next.hasTarget change = true := by decide
  have hdot : Input.Completes next.host.text next.session.config (.idle .normal) ['.']
      (.instant .repeatChange 0) (.idle .normal) := .last nofun rfl
  have hplain : Input.SpellsWith ['c', 'w'] change none :=
    .motion hnil hop Count.spelled_nil hw fun _ => rfl
  have hprefixed : Input.SpellsWith ['"', 'a', 'c', 'w'] change (some 'a') :=
    .motion ha hop Count.spelled_nil hw fun _ => rfl
  obtain ⟨hfirst, hnext⟩ := @repeat_forgets_register change [.char 'z'] ['z'] rfl nofun
  have hnext := hnext next hready hlast htarget ['.'] _ hdot
  refine ⟨?_, ?_, ?_⟩
  · exact hfirst ed ⟨rfl, rfl, rfl, rfl, rfl⟩ _ _ hprefixed.readsChange (by decide) prefixed rfl
  · exact (hnext _ none hplain.readsChange [.text '.'] plain rfl rfl).1 rfl
  · exact (hnext _ (some 'a') hprefixed.readsChange [.text '.'] prefixed rfl rfl).2

/-- Repeating a change is not typing it again with its register:

* a character is deleted into the unnamed register;
* the unnamed register is put;
* a jump goes where it went, and not where its label leads;
* and Backspace takes back no more than was typed. -/
theorem repeat_unlike_retype :
    let after (t : Text) (cursor : Nat) (events : List InputEvent) : Editor :=
      ((⟨Session.new .normal {} none, .ofText t cursor⟩ : Editor).pressAll events).2
    let cut : List InputEvent := [.text '"', .text 'a', .text 'x']
    let put : List InputEvent := [.text '"', .text 'a', .text 'p']
    let jump : List InputEvent := [.text '"', .text 'a', .text 'd', .text 'Q', .text 'y', .text 'A']
    let erase : List InputEvent :=
      [.text '"', .text 'a', .text 's', .plain .backspace, .plain .escape]
    let dot : List InputEvent := [.text '.']
    (after ['a', 'b', 'c'] 0 (cut ++ dot)).session.registers.read 'a' = some ⟨false, ['a']⟩ ∧
      (after ['a', 'b', 'c'] 0 (cut ++ cut)).session.registers.read 'a' = some ⟨false, ['b']⟩ ∧
      (after ['a', 'b', 'c'] 0 (cut ++ .text 'x' :: put ++ dot)).host.text = ['c', 'a', 'b'] ∧
      (after ['a', 'b', 'c'] 0 (cut ++ .text 'x' :: put ++ put)).host.text = ['c', 'a', 'a'] ∧
      (after ['x', 'y', 'a', 'b', 'y', 'b', 'y'] 0 (jump ++ dot)).host.text = ['y', 'b', 'y'] ∧
      (after ['x', 'y', 'a', 'b', 'y', 'b', 'y'] 0 (jump ++ jump)).host.text = ['b', 'y'] ∧
      (after ['a', 'b', 'c', 'd'] 2 (erase ++ .text 'l' :: dot)).host.text = ['a'] ∧
      (after ['a', 'b', 'c', 'd'] 2 (erase ++ .text 'l' :: erase)).host.text = [] := by
  decide

end Editor

end ModalEdit
