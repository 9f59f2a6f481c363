import ModalEdit.Proofs.Effects
import ModalEdit.Proofs.History

/-!
# Runs with other registers

Two editors that differ in their registers only are run side by side. A put reads a register and an
operator writes one, each under the name that is selected for the command. As long as no command is
given a register that tells the two apart, they plan the same, ask the same of the host, which
answers the same, and stay alike (`alike_press`, `alike_happenAll`).

`EndAlike` compares what two pieces of work come to. Like `Ends` for a single run it has one rule
for each way of putting work together.
-/

namespace ModalEdit

namespace Registers

/-- The registers after a write, if there is one. -/
def written (r : Registers) : Option (Char × Register) → Registers
  | some (name, reg) => r.write name reg
  | none => r

/-- Registers that `R` relates are not told apart by reading and writing under the names of `A`. -/
structure Hides (A : Char → Prop) (R : Registers → Registers → Prop) : Prop where
  read : ∀ {r r' name}, R r r' → A name → r.read name = r'.read name
  write : ∀ {r r' name} (reg : Register), R r r' → A name → R (r.write name reg) (r'.write name reg)

end Registers

/-- The partial input with another register selected. -/
def Input.selecting (i : Input) (name : Option Char) : Input :=
  { i with register := name }

/-- The plan with another write in its commit. -/
def Plan.withWrite (w : Option (Char × Register)) : Plan → Plan
  | .commit c => .commit { c with write := w }
  | plan => plan

theorem Plan.withWrite_self (plan : Plan) : plan = plan.withWrite plan.write? := by
  cases plan <;> rfl

namespace Session

variable {s : Session} {t : Text} {sel : Selection} {command : Command}

/-- An update that neither reads nor writes registers. -/
def Blind (f : Session → Session) : Prop :=
  ∀ (s : Session) (r : Registers), f { s with registers := r } = { f s with registers := r }

theorem blind_prepareRepeat (change : Repeatable) : Blind (·.prepareRepeat change) := by
  intro s r
  cases change with
  | operateMotion op m count => cases m <;> rfl
  | _ => rfl

theorem blind_recordChange (change : Repeatable) : Blind (·.recordChange change) := by
  intro s r
  simp only [recordChange]
  split <;> rfl

theorem blind_recordTyped (text : Text) : Blind (·.recordTyped text) := by
  intro s r
  simp only [recordTyped]
  split <;> rfl

theorem blind_recordErased : Blind recordErased := by
  intro s r
  simp only [recordErased]
  split <;> rfl

theorem blind_replaying (replaying : Bool) : Blind ({ · with replaying }) := fun _ _ => rfl

theorem blind_noteChanges (after : Text) (changes : List Change) :
    Blind (·.noteChanges after changes) := fun _ _ => rfl

theorem blind_awaitMotion (op : Operator) (count : Option Nat) :
    Blind (·.awaitMotion op count) := fun _ _ => rfl

theorem blind_noteSelections (selections : List Selection) :
    Blind (·.noteSelections selections) := by
  intro s r
  cases selections with
  | nil => rfl
  | cons sel rest =>
    have hmode : mode { s with registers := r } = s.mode := rfl
    simp only [noteSelections, hmode]
    split
    · split <;> rfl
    · split <;> rfl
    · rfl

/-! ## Plans -/

/-- A plan reads the register that is selected and no other. -/
theorem planCommand_withRegisters {r : Registers}
    (h : r.read s.registerName = s.registers.read s.registerName) :
    ({ s with registers := r } : Session).planCommand t sel command =
      s.planCommand t sel command := by
  have hput : ∀ count after, ({ s with registers := r } : Session).planPut t sel count after =
      s.planPut t sel count after := by
    intro count after
    have hname : registerName { s with registers := r } = s.registerName := rfl
    simp only [planPut, hname, h]
    rfl
  cases command with
  | instant instant count =>
    cases instant with
    | quick edit =>
      cases edit with
      | putAfter => exact congrArg some (hput (max count 1) true)
      | putBefore => exact congrArg some (hput (max count 1) false)
      | _ => rfl
    | selection c => cases c <;> rfl
    | _ => rfl
  | enter entry => cases entry <;> rfl
  | _ => rfl

theorem name_of_writesRange {range : Range} {w : Char × Register} (h : s.WritesRange t range w) :
    w.1 = s.registerName := by
  rw [h]

theorem name_of_planOperateTo {op : Operator} {m : Motion} {count : Nat} {w : Char × Register}
    (h : (s.planOperateTo t sel op m count).write? = some w) : w.1 = s.registerName := by
  unfold planOperateTo at h
  split at h
  · exact name_of_writesRange (writesRange_planOperator h)
  · cases h

theorem name_of_planQuick {edit : QuickEdit} {count : Nat} {w : Char × Register}
    (h : (s.planQuick t sel edit count).write? = some w) : w.1 = s.registerName := by
  cases edit with
  | putAfter | putBefore =>
    simp only [planQuick, write_planPut] at h
    cases h
  | deleteChar | deleteCharBefore | substituteChar =>
    exact name_of_writesRange (writesRange_planOperator h)
  | changeToLineEnd | deleteToLineEnd | substituteLine =>
    simp only [planQuick] at h
    exact name_of_planOperateTo h

/-- **A plan writes to the register that is selected.** -/
theorem name_of_write {plan : Plan} (hplan : s.planCommand t sel command = some plan)
    {w : Char × Register} (h : plan.write? = some w) : w.1 = s.registerName := by
  cases command with
  | motion m count =>
    cases hplan
    obtain ⟨_, _, -, hw⟩ := operates_of_write_motion h
    exact name_of_writesRange hw
  | object o scope count =>
    cases hplan
    obtain ⟨_, _, -, hw⟩ := operates_of_write_object h
    exact name_of_writesRange hw
  | enter entry =>
    cases hplan
    cases entry with
    | insert place =>
      rw [planEnter, write_planInsert] at h
      cases h
    | visual kind => cases h
  | replace c count =>
    cases hplan
    rw [write_planReplace] at h
    cases h
  -- commands that wait for more, or do not write, have no plan that does
  | operator op count => cases hplan
  | instant instant count =>
    cases instant with
    | quick edit =>
      cases hplan
      exact name_of_planQuick h
    | selection c =>
      cases hplan
      obtain ⟨_, _, -, hw⟩ : ∃ op range,
          s.Operates t sel (.instant (.selection c) count) op range ∧ s.WritesRange t range w :=
        operates_of_write_selection h
      exact name_of_writesRange hw
    | yankLine =>
      cases hplan
      simp only [planInstant] at h
      exact name_of_planOperateTo h
    | _ => cases hplan

end Session

/-! ## Two runs -/

namespace Editor

variable {α β : Type} {A : Char → Prop} {R R' : Registers → Registers → Prop} {ed a b : Editor}
  {r r' : Registers}

/-- The editor with other registers. -/
def withRegisters (ed : Editor) (r : Registers) : Editor :=
  { ed with session := { ed.session with registers := r } }

/-- The editor with another register selected. -/
def selecting (ed : Editor) (name : Option Char) : Editor :=
  ed.withInput (ed.session.input.selecting name)

/-- The two editors differ in their registers only, and `R` relates these. -/
def Alike (R : Registers → Registers → Prop) (a b : Editor) : Prop :=
  ∃ ed r r', R r r' ∧ a = withRegisters ed r ∧ b = withRegisters ed r'

/-- Both runs are done with the same answer and related by `R'`, or both are refused, and related by
`R` when they are given up. -/
def EndAlike (R R' : Registers → Registers → Prop) (work work' : Attempt α) (a b : Editor) : Prop :=
  match work a, work' b with
  | .ok x a, .ok y b => x = y ∧ Alike R' a b
  | .error _ a, .error _ b => Alike R a.reset b.reset
  | _, _ => False

theorem Alike.reset (h : Alike R a b) : Alike R a.reset b.reset := by
  obtain ⟨ed, r, r', hR, rfl, rfl⟩ := h
  exact ⟨ed.reset, r, r', hR, rfl, rfl⟩

theorem Alike.mono (h : Alike R' a b) (hmono : ∀ {r r'}, R' r r' → R r r') : Alike R a b := by
  obtain ⟨ed, r, r', hR, rfl, rfl⟩ := h
  exact ⟨ed, r, r', hmono hR, rfl, rfl⟩

/-! ### Putting work together -/

theorem endAlike_congr {work work' : Attempt α} {then' then'' : Attempt α} {a' b' : Editor}
    (ha : work a = then' a') (hb : work' b = then'' b') (h : EndAlike R R' then' then'' a' b') :
    EndAlike R R' work work' a b := by
  unfold EndAlike at h ⊢
  rw [ha, hb]
  exact h

/-- Work that keeps a relation keeps what it implies when it is given up. -/
theorem endAlike_mono {work work' : Attempt α} (h : EndAlike R' R' work work' a b)
    (hmono : ∀ {r r'}, R' r r' → R r r') : EndAlike R R' work work' a b := by
  unfold EndAlike at *
  cases ha : work a with
  | ok x a' =>
    rw [ha] at h
    cases hb : work' b with
    | ok y b' => rw [hb] at h; exact h
    | error e b' => rw [hb] at h; exact h.elim
  | error e a' =>
    rw [ha] at h
    cases hb : work' b with
    | ok y b' => rw [hb] at h; exact h.elim
    | error e' b' => rw [hb] at h; exact h.mono hmono

theorem endAlike_pure (x : α) (h : Alike R' a b) : EndAlike R R' (pure x) (pure x) a b := ⟨rfl, h⟩

theorem endAlike_bind {work work' : Attempt β} {next next' : β → Attempt α}
    (h : EndAlike R R' work work' a b)
    (hnext : ∀ x a b, Alike R' a b → EndAlike R R' (next x) (next' x) a b) :
    EndAlike R R' (work >>= next) (work' >>= next') a b := by
  unfold EndAlike at h ⊢
  rw [bind_apply, bind_apply]
  cases ha : work a with
  | ok x a' =>
    rw [ha] at h
    cases hb : work' b with
    | ok y b' =>
      rw [hb] at h
      obtain ⟨rfl, halike⟩ := h
      exact hnext x a' b' halike
    | error e b' => rw [hb] at h; exact h.elim
  | error e a' =>
    rw [ha] at h
    cases hb : work' b with
    | ok y b' => rw [hb] at h; exact h.elim
    | error e' b' => rw [hb] at h; exact h

theorem endAlike_get {next next' : Editor → Attempt α}
    (h : EndAlike R R' (next a) (next' b) a b) :
    EndAlike R R' (get >>= next) (get >>= next') a b := h

theorem endAlike_planned {plan : Session → Text → Selection → β} {next next' : β → Attempt α}
    (h : EndAlike R R' (next (plan a.session a.host.text a.host.selection))
      (next' (plan b.session b.host.text b.host.selection)) a b) :
    EndAlike R R' (planned plan >>= next) (planned plan >>= next') a b := h

theorem Alike.update {f : Session → Session} (hf : Session.Blind f) (h : Alike R a b) :
    Alike R { a with session := f a.session } { b with session := f b.session } := by
  obtain ⟨ed, r, r', hR, rfl, rfl⟩ := h
  refine ⟨{ ed with session := f ed.session }, r, r', hR, ?_, ?_⟩
  · exact congrArg (Editor.mk · ed.host) (hf ed.session r)
  · exact congrArg (Editor.mk · ed.host) (hf ed.session r')

theorem endAlike_update {f : Session → Session} (hf : Session.Blind f) (h : Alike R' a b) :
    EndAlike R R' (update f) (update f) a b := ⟨rfl, h.update hf⟩

theorem endAlike_updated {f : Session → Session} {next next' : Unit → Attempt α}
    (h : EndAlike R R' (next ()) (next' ()) { a with session := f a.session }
      { b with session := f b.session }) :
    EndAlike R R' (update f >>= next) (update f >>= next') a b := h

theorem endAlike_unrecorded {work : Attempt Unit}
    (h : EndAlike R R' work work a.replaying b.replaying) :
    EndAlike R R' (unrecorded work) (unrecorded work) a b := by
  have hblind := Session.blind_replaying false
  unfold EndAlike unrecorded replaying at *
  cases ha : work { a with session.replaying := true } with
  | ok x a' =>
    rw [ha] at h
    cases hb : work { b with session.replaying := true } with
    | ok y b' => rw [hb] at h; exact ⟨h.1, h.2.update hblind⟩
    | error e b' => rw [hb] at h; exact h.elim
  | error e a' =>
    rw [ha] at h
    cases hb : work { b with session.replaying := true } with
    | ok y b' => rw [hb] at h; exact h.elim
    | error e' b' => rw [hb] at h; exact h.update hblind

/-! ### Plans -/

/-- **A commit is carried out alike**, whatever register is selected and written. -/
theorem endAlike_commit (c : Commit) {w : Option (Char × Register)} (n n' : Option Char)
    (hstart : R r r') (hwritten : R (r.written c.write) (r'.written w))
    (hdone : R' (r.written c.write) (r'.written w)) :
    EndAlike R R' (commit c) (commit { c with write := w }) ((ed.selecting n).withRegisters r)
      ((ed.selecting n').withRegisters r') := by
  have ha := commit_eq c ((ed.selecting n).withRegisters r)
  have hb := commit_eq { c with write := w } ((ed.selecting n').withRegisters r')
  -- neither request depends on registers, so the host answers both runs alike
  unfold EndAlike
  cases hr : requestCommitEdit c ed.host with
  | error e host =>
    have hra : requestCommitEdit c ((ed.selecting n).withRegisters r).host = .error e host := hr
    have hrb : requestCommitEdit { c with write := w } ((ed.selecting n').withRegisters r').host =
      .error e host := hr
    rw [hra] at ha
    rw [hrb] at hb
    rw [ha, hb]
    exact ⟨reset ⟨ed.session.begin c, host⟩, r, r', hstart, rfl, rfl⟩
  | ok _ edited =>
    have hra : requestCommitEdit c ((ed.selecting n).withRegisters r).host = .ok () edited := hr
    have hrb : requestCommitEdit { c with write := w } ((ed.selecting n').withRegisters r').host =
      .ok () edited := hr
    rw [hra] at ha
    rw [hrb] at hb
    dsimp only at ha hb
    cases hs : Host.requestSelection (.cursor (c.cursor edited.text)) edited with
    | error e host =>
      have hsb : Host.requestSelection
        (.cursor (Commit.cursor { c with write := w } edited.text)) edited = .error e host := hs
      rw [hs] at ha
      rw [hsb] at hb
      rw [ha, hb]
      exact ⟨reset ⟨(ed.session.begin c).afterEdit c, host⟩, _, _, hwritten, rfl, rfl⟩
    | ok _ host =>
      have hsb : Host.requestSelection
        (.cursor (Commit.cursor { c with write := w } edited.text)) edited = .ok () host := hs
      rw [hs] at ha
      rw [hsb] at hb
      rw [ha, hb]
      exact ⟨rfl, ⟨((ed.session.begin c).afterEdit c).settle c, host⟩, _, _, hdone, rfl, rfl⟩

/-- So is any plan. -/
theorem endAlike_carryOut (plan : Plan) {plan' : Plan} (hplan : plan' = plan.withWrite plan'.write?)
    (n n' : Option Char) (hstart : R r r')
    (hwritten : R (r.written plan.write?) (r'.written plan'.write?))
    (hdone : R' (r.written plan.write?) (r'.written plan'.write?)) :
    EndAlike R R' (carryOut plan) (carryOut plan') ((ed.selecting n).withRegisters r)
      ((ed.selecting n').withRegisters r') := by
  cases plan with
  | drop =>
    rw [hplan] at hdone ⊢
    exact ⟨rfl, { ed with session := ed.session.dropPending }, r, r', hdone, rfl, rfl⟩
  | commit c =>
    rw [hplan]
    exact endAlike_commit c n n' hstart hwritten hdone
  | select kind ends column =>
    rw [hplan] at hdone ⊢
    have ha := select_eq kind ends column ((ed.selecting n).withRegisters r)
    have hb := select_eq kind ends column ((ed.selecting n').withRegisters r')
    have hhost : ∀ n r, ((ed.selecting n).withRegisters r).host = ed.host := fun _ _ => rfl
    simp only [hhost] at ha hb
    unfold EndAlike carryOut Plan.withWrite
    cases hs : Host.requestSelection (ends.selection kind ed.host.text) ed.host with
    | error e host =>
      rw [hs] at ha hb
      dsimp only
      rw [ha, hb]
      exact ⟨reset ⟨ed.session, host⟩, r, r', hstart, rfl, rfl⟩
    | ok _ host =>
      rw [hs] at ha hb
      dsimp only
      rw [ha, hb]
      exact ⟨rfl, ⟨ed.session.highlight kind ends column, host⟩, r, r', hdone, rfl, rfl⟩

theorem endAlike_carryOutChange (plan : Plan) {plan' : Plan}
    (hplan : plan' = plan.withWrite plan'.write?) (n n' : Option Char) (hstart : R r r')
    (hwritten : R (r.written plan.write?) (r'.written plan'.write?))
    (hdone : R' (r.written plan.write?) (r'.written plan'.write?))
    (repeatable : Option Repeatable) :
    EndAlike R R' (carryOutChange plan repeatable) (carryOutChange plan' repeatable)
      ((ed.selecting n).withRegisters r) ((ed.selecting n').withRegisters r') := by
  have hchange : plan'.isChange = plan.isChange := by
    rw [hplan]
    cases plan <;> rfl
  refine endAlike_bind (endAlike_carryOut plan hplan n n' hstart hwritten hdone) ?_
  intro _ a b h
  cases repeatable with
  | none => exact endAlike_pure () h
  | some change =>
    dsimp only
    rw [hchange]
    by_cases hc : plan.isChange = true
    · rw [if_pos hc]
      exact endAlike_update (Session.blind_recordChange change) h
    · rw [if_neg hc]
      exact endAlike_pure () h

/-- A command with a plan is that plan carried out and recorded. -/
theorem execute_of_plan {command : Command} {plan : Plan}
    (hplan : ed.planOfCommand command = some plan) :
    execute command ed =
      carryOutChange plan (ed.session.repeatable command) (ed.noted command) := by
  cases command with
  | instant instant count => cases instant <;> cases hplan <;> rfl
  | operator op count => cases hplan
  | _ =>
    cases hplan
    rfl

theorem noted_withRegisters (command : Command) (ed : Editor) (r : Registers) :
    (ed.withRegisters r).noted command = (ed.noted command).withRegisters r := by
  cases command with
  | motion m count => cases m <;> rfl
  | _ => rfl

theorem noted_selecting (command : Command) (ed : Editor) (n : Option Char) :
    (ed.selecting n).noted command = (ed.noted command).selecting n := by
  cases command with
  | motion m count => cases m <;> rfl
  | _ => rfl

theorem prepared_withRegisters (change : Repeatable) (ed : Editor) (r : Registers) :
    (ed.withRegisters r).prepared change = (ed.prepared change).withRegisters r :=
  congrArg (Editor.mk · ed.host) (Session.blind_prepareRepeat change ed.session r)

theorem prepared_selecting (change : Repeatable) (ed : Editor) (n : Option Char) :
    (ed.selecting n).prepared change = (ed.prepared change).selecting n := by
  cases change with
  | operateMotion op m count => cases m <;> rfl
  | _ => rfl

theorem prepared_registerName (change : Repeatable) (ed : Editor) :
    (ed.prepared change).session.registerName = ed.session.registerName := by
  cases change with
  | operateMotion op m count => cases m <;> rfl
  | _ => rfl

theorem endAlike_execute_of_plan {command : Command} {plan plan' : Plan} {n n' : Option Char}
    (ha : ((ed.selecting n).withRegisters r).planOfCommand command = some plan)
    (hb : ((ed.selecting n').withRegisters r').planOfCommand command = some plan')
    (hplan : plan' = plan.withWrite plan'.write?) (hstart : R r r')
    (hwritten : R (r.written plan.write?) (r'.written plan'.write?))
    (hdone : R' (r.written plan.write?) (r'.written plan'.write?)) :
    EndAlike R R' (execute command) (execute command) ((ed.selecting n).withRegisters r)
      ((ed.selecting n').withRegisters r') := by
  have hrepeatable : ∀ n r, ((ed.selecting n).withRegisters r).session.repeatable command =
      ed.session.repeatable command := by
    intro n r
    cases command with
    | instant instant count => cases instant <;> rfl
    | _ => rfl
  refine endAlike_congr (execute_of_plan ha) (execute_of_plan hb) ?_
  rw [hrepeatable, hrepeatable, noted_withRegisters, noted_withRegisters, noted_selecting,
    noted_selecting]
  exact endAlike_carryOutChange plan hplan n n' hstart hwritten hdone _

theorem endAlike_dispatch_of_completes {event : InputEvent} {command : Command} {i i' : Input}
    (ha : a.completes event = some (command, i)) (hb : b.completes event = some (command, i'))
    (h : EndAlike R R' (execute command) (execute command) (a.withInput i) (b.withInput i')) :
    EndAlike R R' (dispatch event) (dispatch event) a b := by
  refine endAlike_congr (dispatch_of_completes ha) (dispatch_of_completes hb) ?_
  exact endAlike_bind h fun _ a b h => endAlike_pure (some command) h

/-! ### Work that writes nothing -/

theorem alike_commit (h : Alike R a b) {c : Commit} (hc : c.write = none) :
    EndAlike R R (commit c) (commit c) a b := by
  obtain ⟨ed, r, r', hR, rfl, rfl⟩ := h
  have hwritten : R (r.written c.write) (r'.written c.write) := by rwa [hc]
  exact endAlike_commit c ed.session.input.register ed.session.input.register hR hwritten hwritten

theorem alike_insertText (h : Alike R a b) (text : Text) :
    EndAlike R R (insertText text) (insertText text) a b := by
  have hcommit := @alike_commit R a b h (a.session.planType a.host.text a.host.selection text) rfl
  obtain ⟨ed, r, r', hR, rfl, rfl⟩ := h
  refine endAlike_planned (endAlike_bind hcommit ?_)
  exact fun _ a b h => endAlike_update (Session.blind_recordTyped text) h

theorem alike_eraseChar (h : Alike R a b) : EndAlike R R eraseChar eraseChar a b := by
  have hplan : b.session.planErase b.host.text b.host.selection =
      a.session.planErase a.host.text a.host.selection := by
    obtain ⟨ed, r, r', hR, rfl, rfl⟩ := h
    rfl
  refine endAlike_planned ?_
  rw [hplan]
  cases hc : a.session.planErase a.host.text a.host.selection with
  | none => exact endAlike_pure () h
  | some c =>
    refine endAlike_bind (alike_commit h (Session.write_of_planErase hc)) ?_
    exact fun _ a b h => endAlike_update Session.blind_recordErased h

theorem alike_leaveInsert (h : Alike R a b) : EndAlike R R leaveInsert leaveInsert a b := by
  have hplan : b.session.planLeave b.host.text b.host.selection =
      a.session.planLeave a.host.text a.host.selection := by
    obtain ⟨ed, r, r', hR, rfl, rfl⟩ := h
    rfl
  refine endAlike_planned ?_
  rw [hplan]
  exact endAlike_bind (endAlike_update (fun _ _ => rfl) h) fun _ a b h => alike_commit h rfl

theorem alike_insertStroke (h : Alike R a b) (k : Stroke) :
    EndAlike R R (insertStroke k) (insertStroke k) a b := by
  cases k with
  | char c => exact alike_insertText h [c]
  | backspace => exact alike_eraseChar h
  | escape => exact alike_leaveInsert h

theorem endAlike_ask (h : Alike R a b) (request : EStateM HostError Host Unit) :
    EndAlike R R (ask request) (ask request) a b := by
  obtain ⟨ed, r, r', hR, rfl, rfl⟩ := h
  have hhost : ∀ r, (ed.withRegisters r).host = ed.host := fun _ => rfl
  unfold EndAlike
  rw [ask_apply, ask_apply, hhost, hhost]
  cases request ed.host with
  | ok _ host => exact ⟨rfl, { ed with host }, r, r', hR, rfl, rfl⟩
  | error e host => exact Alike.reset ⟨{ ed with host }, r, r', hR, rfl, rfl⟩

theorem Alike.host_eq (h : Alike R a b) : b.host = a.host := by
  obtain ⟨ed, r, r', -, rfl, rfl⟩ := h
  rfl

theorem alike_undo (h : Alike R a b) (count : Nat) :
    EndAlike R R (undo count) (undo count) a b := by
  refine endAlike_bind (endAlike_ask h _) fun _ a b h => endAlike_get ?_
  rw [h.host_eq]
  exact alike_commit h rfl

theorem alike_setMark (h : Alike R a b) (name : Char) :
    EndAlike R R (setMark name) (setMark name) a b := by
  obtain ⟨ed, r, r', hR, rfl, rfl⟩ := h
  have halike : Alike R (ed.withRegisters r) (ed.withRegisters r') := ⟨ed, r, r', hR, rfl, rfl⟩
  exact endAlike_planned (endAlike_get (endAlike_update (fun _ _ => rfl) halike))

/-- A repeated change is its plan carried out, and its text typed again. -/
theorem endAlike_replay_of_plan {change : Repeatable} {plan plan' : Plan} {n n' : Option Char}
    (ha : ((ed.selecting n).withRegisters r).planOf change = plan)
    (hb : ((ed.selecting n').withRegisters r').planOf change = plan')
    (hplan : plan' = plan.withWrite plan'.write?) (hstart : R r r')
    (hdone : R' (r.written plan.write?) (r'.written plan'.write?))
    (hmono : ∀ {r r'}, R' r r' → R r r') (typed : Text) :
    EndAlike R R' (replay change typed) (replay change typed) ((ed.selecting n).withRegisters r)
      ((ed.selecting n').withRegisters r') := by
  refine endAlike_updated (endAlike_planned ?_)
  show EndAlike R R' (carryOut (((ed.selecting n).withRegisters r).planOf change) >>= _)
    (carryOut (((ed.selecting n').withRegisters r').planOf change) >>= _)
    (((ed.selecting n).withRegisters r).prepared change)
    (((ed.selecting n').withRegisters r').prepared change)
  rw [ha, hb, prepared_withRegisters, prepared_withRegisters, prepared_selecting,
    prepared_selecting]
  refine endAlike_bind (endAlike_carryOut plan hplan n n' hstart (hmono hdone) hdone) ?_
  intro _ a b h
  have hmode : b.session.mode = a.session.mode := by
    obtain ⟨ed, r, r', -, rfl, rfl⟩ := h
    rfl
  refine endAlike_mono (endAlike_get ?_) hmono
  rw [hmode]
  by_cases hinsert : a.session.mode = .insert
  · rw [if_pos hinsert]
    dsimp only
    by_cases htext : typed.isEmpty = true
    · rw [if_pos htext]
      exact alike_leaveInsert h
    · rw [if_neg htext]
      exact endAlike_bind (alike_insertText h typed) fun _ a b h => alike_leaveInsert h
  · rw [if_neg hinsert]
    exact endAlike_pure () h

theorem endAlike_repeatChange {last : LastChange} {count : Nat}
    (ha : a.session.lastChange = some last) (hb : b.session.lastChange = some last)
    (h : EndAlike R R'
      (replay (if count = 0 then last.command else last.command.withCount count) last.typed)
      (replay (if count = 0 then last.command else last.command.withCount count) last.typed)
      a.replaying b.replaying) :
    EndAlike R R' (repeatChange count) (repeatChange count) a b := by
  refine endAlike_get ?_
  rw [ha, hb]
  exact endAlike_unrecorded h

/-! ### Work under the names of `A` -/

section

variable (hides : Registers.Hides A R)

include hides

/-- The same write. -/
theorem related_written (h : R r r') {w : Option (Char × Register)}
    (hw : ∀ name reg, w = some (name, reg) → A name) : R (r.written w) (r'.written w) := by
  cases w with
  | none => exact h
  | some w => exact hides.write w.2 h (hw w.1 w.2 rfl)

/-- A command has one plan where the register that is selected is one of `A`. -/
theorem planOfCommand_alike (h : Alike R a b) (hname : A a.session.registerName)
    (command : Command) : b.planOfCommand command = a.planOfCommand command := by
  obtain ⟨ed, r, r', hR, rfl, rfl⟩ := h
  have hread := hides.read hR ((noted_registerName command (ed.withRegisters r)).symm ▸ hname)
  unfold planOfCommand
  rw [noted_withRegisters] at hread
  rw [noted_withRegisters, noted_withRegisters]
  have hplan := @Session.planCommand_withRegisters ((ed.noted command).withRegisters r).session
    ed.host.text ed.host.selection command r' hread.symm
  exact hplan

/-- A change has one plan there as well. -/
theorem planOf_alike (h : Alike R a b) (hname : A a.session.registerName) (change : Repeatable) :
    b.planOf change = a.planOf change := by
  obtain ⟨ed, r, r', hR, rfl, rfl⟩ := h
  have hread := hides.read hR (prepared_registerName change (ed.withRegisters r) ▸ hname)
  rw [prepared_withRegisters] at hread
  have hplan := @Session.planCommand_withRegisters ((ed.prepared change).withRegisters r).session
    ed.host.text ed.host.selection change.command r' hread.symm
  rw [Session.planCommand_command, Session.planCommand_command] at hplan
  unfold planOf
  rw [prepared_withRegisters, prepared_withRegisters]
  exact Option.some.inj hplan

theorem alike_replay (h : Alike R a b) (hname : A a.session.registerName) (change : Repeatable)
    (typed : Text) : EndAlike R R (replay change typed) (replay change typed) a b := by
  have hplan := planOf_alike hides h hname change
  have hw : ∀ name reg, (a.planOf change).write? = some (name, reg) → A name := by
    intro name reg hw
    have hcommand := (a.prepared change).session.planCommand_command a.host.text a.host.selection
      change
    have hselected : name = (a.prepared change).session.registerName :=
      Session.name_of_write hcommand hw
    rw [hselected, prepared_registerName]
    exact hname
  obtain ⟨ed, r, r', hR, rfl, rfl⟩ := h
  have hwritten := related_written hides hR hw
  exact @endAlike_replay_of_plan R R ed r r' change _ _ ed.session.input.register
    ed.session.input.register rfl hplan (Plan.withWrite_self _) hR hwritten (fun h => h) typed

theorem alike_repeatChange (h : Alike R a b) (hname : A a.session.registerName) (count : Nat) :
    EndAlike R R (repeatChange count) (repeatChange count) a b := by
  have hlast : b.session.lastChange = a.session.lastChange := by
    obtain ⟨ed, r, r', -, rfl, rfl⟩ := h
    rfl
  cases hchange : a.session.lastChange with
  | none =>
    refine endAlike_get ?_
    rw [hlast, hchange]
    exact endAlike_update (fun _ _ => rfl) h
  | some last =>
    have hreplaying : Alike R a.replaying b.replaying := h.update (Session.blind_replaying true)
    refine endAlike_repeatChange hchange (hlast.trans hchange) ?_
    exact alike_replay hides hreplaying hname _ last.typed

/-- **A command is executed alike**, if the register that is selected is one of `A`. -/
theorem alike_execute (h : Alike R a b) (hname : A a.session.registerName) (command : Command) :
    EndAlike R R (execute command) (execute command) a b := by
  cases hplan : a.planOfCommand command with
  | some plan =>
    have hplan' := (planOfCommand_alike hides h hname command).trans hplan
    have hw : ∀ name reg, plan.write? = some (name, reg) → A name := by
      intro name reg hw
      have hselected : name = (a.noted command).session.registerName :=
        Session.name_of_write hplan hw
      rw [hselected, noted_registerName]
      exact hname
    obtain ⟨ed, r, r', hR, rfl, rfl⟩ := h
    have hwritten := related_written hides hR hw
    exact @endAlike_execute_of_plan R R ed r r' command plan plan ed.session.input.register
      ed.session.input.register hplan hplan' plan.withWrite_self hR hwritten hwritten
  | none =>
    cases command with
    | operator op count =>
      exact endAlike_get (endAlike_update (Session.blind_awaitMotion op count) h)
    | instant instant count =>
      cases instant with
      | undo => exact alike_undo h count
      | repeatChange => exact alike_repeatChange hides h hname count
      | setMark name => exact alike_setMark h name
      | _ => cases hplan
    | _ => cases hplan

/-! ### Keys -/

theorem alike_commandChar (h : Alike R a b) {c : Char}
    (hnames : ∀ command i, a.session.input.read a.host.text a.session.config c =
      (.command command, i) → A (i.register.getD Registers.unnamed)) :
    EndAlike R R (commandChar c) (commandChar c) a b := by
  have hread : b.session.input.read b.host.text b.session.config c =
      a.session.input.read a.host.text a.session.config c := by
    obtain ⟨ed, r, r', -, rfl, rfl⟩ := h
    rfl
  refine endAlike_get ?_
  dsimp only
  rw [hread]
  cases hreading : a.session.input.read a.host.text a.session.config c with
  | mk reading i =>
    have hinput : Alike R (a.withInput i) (b.withInput i) :=
      h.update (f := ({ · with input := i })) fun _ _ => rfl
    refine endAlike_updated ?_
    cases reading with
    | incomplete => exact endAlike_pure none hinput
    | rejected => exact ⟨rfl, hinput.reset⟩
    | command command =>
      have hname := hnames command i hreading
      exact endAlike_bind (alike_execute hides hinput hname command) fun _ a b h =>
        endAlike_pure (some command) h

theorem alike_dispatch (h : Alike R a b) {event : InputEvent}
    (hnames : ∀ command i, a.completes event = some (command, i) →
      A (i.register.getD Registers.unnamed)) :
    EndAlike R R (dispatch event) (dispatch event) a b := by
  have hmode : b.session.mode = a.session.mode := by
    obtain ⟨ed, r, r', -, rfl, rfl⟩ := h
    rfl
  simp only [dispatch]
  cases hk : event.stroke? with
  | some k =>
    refine endAlike_get ?_
    rw [hmode]
    by_cases hinsert : a.session.mode = .insert
    · rw [if_pos hinsert]
      exact endAlike_bind (alike_insertStroke h k) fun _ a b h => endAlike_pure none h
    · rw [if_neg hinsert]
      cases k with
      | char c =>
        exact alike_commandChar hides h fun command i hread =>
          hnames command i (completes_eq hinsert hk hread)
      | _ => exact ⟨rfl, h.reset⟩
  | none =>
    refine endAlike_get ?_
    rw [hmode]
    by_cases hinsert : a.session.mode = .insert
    · rw [if_pos hinsert]
      exact endAlike_pure none h
    · rw [if_neg hinsert]
      exact ⟨rfl, h.reset⟩

end

/-- An event that is dispatched alike is done or refused alike. -/
theorem endAlike_press {event : InputEvent}
    (h : EndAlike R R' (dispatch event) (dispatch event) a b) :
    (b.press event).1 = (a.press event).1 ∧ (Alike R' (a.press event).2 (b.press event).2 ∨
      (a.press event).1 = none ∧ Alike R (a.press event).2 (b.press event).2) := by
  unfold EndAlike at h
  unfold press
  cases ha : dispatch event a with
  | ok x a' =>
    rw [ha] at h
    cases hb : dispatch event b with
    | ok y b' => rw [hb] at h; exact ⟨h.1.symm, Or.inl h.2⟩
    | error e b' => rw [hb] at h; exact h.elim
  | error e a' =>
    rw [ha] at h
    cases hb : dispatch event b with
    | ok y b' => rw [hb] at h; exact h.elim
    | error e' b' => rw [hb] at h; exact ⟨rfl, Or.inr ⟨rfl, h⟩⟩

/-! ### Histories -/

theorem forward_withRegisters (ed : Editor) (r : Registers) :
    (ed.withRegisters r).forward = ed.forward.withRegisters r := by
  have hhost : (ed.withRegisters r).host = ed.host := rfl
  simp only [forward, hhost]
  split <;> rfl

/-- Every command that the events complete is given a register of `A`. -/
def GivesOnly (A : Char → Prop) : Editor → List InputEvent → Prop
  | _, [] => True
  | ed, event :: events =>
    (∀ command i, ed.completes event = some (command, i) →
      A (i.register.getD Registers.unnamed)) ∧ GivesOnly A (ed.press event).2 events

/-- What happens sets no registers from elsewhere, and every command that it completes is given a
register of `A`. -/
def Happens (A : Char → Prop) (ed : Editor) : Happening → Prop
  | .event event => ed.GivesOnly A [event]
  | .key written => ed.GivesOnly A (KeyNotation.parse written).toList
  | .keys written => ed.GivesOnly A (KeyNotation.parseAll written)
  | .registersChange _ => False
  | _ => True

/-- So it is throughout a history. -/
def HappensOnly (A : Char → Prop) : Editor → List Happening → Prop
  | _, [] => True
  | ed, x :: history => ed.Happens A x ∧ HappensOnly A (ed.happen x) history

section

variable (hides : Registers.Hides A R)

include hides

/-- **An event is taken alike**, if a command that it completes is given a register of `A`. -/
theorem alike_press (h : Alike R a b) {event : InputEvent}
    (hnames : ∀ command i, a.completes event = some (command, i) →
      A (i.register.getD Registers.unnamed)) : Alike R (a.press event).2 (b.press event).2 :=
  (endAlike_press (alike_dispatch hides h hnames)).2.elim id And.right

theorem alike_pressAll (h : Alike R a b) {events : List InputEvent}
    (hnames : a.GivesOnly A events) : Alike R (a.pressAll events).2 (b.pressAll events).2 := by
  induction events generalizing a b with
  | nil => exact h
  | cons event events ih => exact ih (alike_press hides h hnames.1) hnames.2

theorem alike_pressKey (h : Alike R a b) {written : List Char}
    (hnames : a.GivesOnly A (KeyNotation.parse written).toList) :
    Alike R (a.pressKey written).2 (b.pressKey written).2 := by
  unfold pressKey
  cases hparse : KeyNotation.parse written with
  | none => exact h.reset
  | some event =>
    rw [hparse] at hnames
    exact alike_press hides h hnames.1

theorem alike_happen (h : Alike R a b) {x : Happening} (hx : a.Happens A x) :
    Alike R (a.happen x) (b.happen x) := by
  cases x with
  | event event => exact alike_press hides h hx.1
  | key written => exact alike_pressKey hides h hx
  | keys written => exact alike_pressAll hides h hx
  | forward =>
    obtain ⟨ed, r, r', hR, rfl, rfl⟩ := h
    exact ⟨ed.forward, r, r', hR, forward_withRegisters ed r, forward_withRegisters ed r'⟩
  | changesReported after changes => exact h.update (Session.blind_noteChanges after changes)
  | selectionsReported selections => exact h.update (Session.blind_noteSelections selections)
  | hostChanges host =>
    obtain ⟨ed, r, r', hR, rfl, rfl⟩ := h
    exact ⟨{ ed with host := { host with journal := ed.host.journal } }, r, r', hR, rfl, rfl⟩
  | registersChange registers => exact hx.elim

/-- **A history is lived through alike.** -/
theorem alike_happenAll (h : Alike R a b) {history : List Happening}
    (hhistory : a.HappensOnly A history) :
    Alike R (a.happenAll history) (b.happenAll history) := by
  induction history generalizing a b with
  | nil => exact h
  | cons x history ih => exact ih (alike_happen hides h hhistory.1) hhistory.2

end

end Editor

end ModalEdit
