import ModalEdit.Proofs.Synonyms

/-!
# Operators that are given a motion

An operator waits for a motion, with counts and a register typed before its key or after it
(`typesOperator_keys`). Of all that only one count and the register are left when the key of the
motion is read (`Input.AwaitsMotion`), so the theorems here are about any events that leave an
operator waiting (`Editor.TypesOperator`).

**Two motions.** The plan of the operator is made of the range that the motion gives it. Motions
that give it one range come to one plan, and a plan shows the same whatever partial input it is
carried out with, even if the host refuses it (`sameView_of_range`).

**One motion.** On a host that grants everything, an operator other than a yank takes the characters
of the region out of the text, and keeps them in the register (`Operated.charsTaken`).
-/

namespace ModalEdit

variable {t : Text} {sel : Selection} {op : Operator} {m : Motion} {c : Char} {n : Nat}
  {register : Option Char}

namespace Input

variable {i : Input}

/-- An operator waits for its motion, and the next key is no argument. The motion is to be given
this count. -/
structure AwaitsMotion (i : Input) (op : Operator) (n : Nat) (register : Option Char) : Prop where
  mode : i.mode = .operatorPending
  lookahead : i.lookahead = none
  operator : ∃ outer, i.operator = some ⟨op, outer⟩
  count : i.composedCount 1 = n
  register : i.register = register

theorem AwaitsMotion.read (h : i.AwaitsMotion op n register) (hm : Motion.ofKey c = some m)
    (hdefault : m.defaultCount = 1) (hc : c ≠ '0') (t : Text) (config : Config) :
    i.read t config c = (.command (.motion m n), { i with count := none }) := by
  have hcounting : i.Counting := ⟨Or.inr h.mode, h.lookahead⟩
  rw [read_ofKey hcounting hm fun hzero => absurd hzero hc, readMotion, hdefault, h.count]

end Input

namespace Session

variable {s s' : Session}

theorem planMotion_waiting {range : Option Range} (sel : Selection) (h : s.waiting = some op)
    (hrange : s.motionRange t m n (min sel.active t.length) = range) :
    s.planMotion t sel m n =
      range.elim .drop fun range => s.planOperator t sel op range .start := by
  obtain ⟨hmode, pending, hpending, rfl⟩ := waiting_eq_some.1 h
  have hcursor : s.cursor t sel = min sel.active t.length := cursor_eq (by rw [hmode]; rfl)
  simp only [planMotion, hcursor, hrange, hmode, hpending]
  cases range <;> rfl

theorem planOperator_congr_session (hname : s.registerName = s'.registerName)
    (hcursor : s.cursor t sel = s'.cursor t sel) (op : Operator) (range : Range) (since : Stage) :
    s.planOperator t sel op range since = s'.planOperator t sel op range since := by
  simp only [planOperator, hname, hcursor]

end Session

namespace Editor

variable {ed a b after : Editor} {plan : Plan}

/-! ## Plans on any host -/

/-- The editor after a plan is carried out, or after it falls back from a refusal. -/
def outcome (plan : Plan) (ed : Editor) : Editor :=
  match carryOut plan ed with
  | .ok _ ed => ed
  | .error _ ed => ed.reset

theorem press_outcome {event : InputEvent} {command : Command} {i : Input}
    (hcompletes : ed.completes event = some (command, i))
    (hplan : (ed.withInput i).planOfCommand command = some plan) :
    (ed.press event).2.SameView (((ed.withInput i).noted command).outcome plan) := by
  refine press_of_ends
    (P := fun after => after.SameView (((ed.withInput i).noted command).outcome plan))
    (E := fun after => after.reset.SameView (((ed.withInput i).noted command).outcome plan))
    ?_ fun _ h => h
  refine ends_dispatch_of_completes hcompletes
    (ends_execute_planned hplan (ends_carryOutChange_record ?_))
  unfold Ends outcome
  cases carryOut plan ((ed.withInput i).noted command) with
  | ok _ after => exact fun _ _ => ⟨rfl, rfl, rfl, rfl⟩
  | error e after => exact ⟨rfl, rfl, rfl, rfl⟩

theorem sameView_reset (hhost : a.host = b.host) (hvisual : a.session.visual = b.session.visual)
    (hregisters : a.session.registers = b.session.registers) : a.reset.SameView b.reset := by
  have hreset : a.reset.host = b.reset.host := by simp only [reset, hhost, hvisual]
  exact ⟨congrArg _ hreset, congrArg _ hreset, rfl, hregisters⟩

/-- **A plan shows the same from editors that show the same**, carried out or refused. -/
theorem sameView_outcome (hhost : a.host = b.host) (hmode : a.session.mode = b.session.mode)
    (hvisual : a.session.visual = b.session.visual)
    (hregisters : a.session.registers = b.session.registers) (plan : Plan) :
    (a.outcome plan).SameView (b.outcome plan) := by
  unfold outcome
  cases plan with
  | drop =>
    refine ⟨congrArg _ hhost, congrArg _ hhost, ?_, hregisters⟩
    show (if a.session.mode.isVisual then a.session.mode else Mode.normal) =
      if b.session.mode.isVisual then b.session.mode else Mode.normal
    rw [hmode]
  | commit c =>
    simp only [carryOut, commit_eq, hhost]
    cases requestCommitEdit c b.host with
    | error e h => exact sameView_reset rfl hvisual hregisters
    | ok _ h =>
      have hwritten : ((a.session.begin c).afterEdit c).registers =
          ((b.session.begin c).afterEdit c).registers := by
        simp only [Session.afterEdit, Session.begin, hregisters]
      dsimp only
      cases Host.requestSelection (.cursor (c.cursor h.text)) h with
      | error e h => exact sameView_reset rfl hvisual hwritten
      | ok _ h => exact ⟨rfl, rfl, rfl, hwritten⟩
  | select kind ends column =>
    simp only [carryOut, select_eq, hhost]
    cases Host.requestSelection (ends.selection kind b.host.text) b.host with
    | error e h => exact sameView_reset rfl hvisual hregisters
    | ok _ h => exact ⟨rfl, rfl, rfl, hregisters⟩

/-! ## An operator and the key of a motion -/

/-- The events leave the editor as it is, but that an operator waits for its motion. -/
def TypesOperator (ed : Editor) (events : List InputEvent) (op : Operator) (n : Nat)
    (register : Option Char) : Prop :=
  ∃ i : Input, (ed.pressAll events).2 = ed.withInput i ∧ i.AwaitsMotion op n register

/-- The event is the key of a motion that counts one if no count is typed. -/
structure PressesMotion (event : InputEvent) (m : Motion) : Prop where
  key : ∃ c, event.stroke? = some (.char c) ∧ Motion.ofKey c = some m ∧ c ≠ '0'
  defaultCount : m.defaultCount = 1

/-- The motion gives an operator this range, or none, whatever else the session holds. -/
def GivesRange (ed : Editor) (op : Operator) (m : Motion) (n : Nat) (range : Option Range) :
    Prop :=
  ∀ s : Session, s.waiting = some op →
    s.motionRange ed.host.text m n (min ed.host.selection.active ed.host.text.length) = range

/-- What an operator does that is given a range, or none. -/
def operatorPlan (op : Operator) (register : Option Char) (range : Option Range) (ed : Editor) :
    Plan :=
  range.elim .drop fun range =>
    (ed.withInput (.waiting op none register)).session.planOperator ed.host.text
      ed.host.selection op range .start

section

variable {i : Input} {range : Option Range} {event : InputEvent}

theorem completes_awaiting (h : i.AwaitsMotion op n register) (hm : PressesMotion event m) :
    (ed.withInput i).completes event = some (.motion m n, { i with count := none }) := by
  obtain ⟨⟨c, hevent, hkey, hc⟩, hdefault⟩ := hm
  have hmode : (ed.withInput i).session.mode ≠ .insert := by
    show i.mode ≠ .insert
    rw [h.mode]
    nofun
  exact completes_eq hmode hevent (h.read hkey hdefault hc _ _)

theorem waiting_noted (h : i.AwaitsMotion op n register) (ed : Editor) (command : Command) :
    ((ed.withInput { i with count := none }).noted command).session.waiting = some op := by
  obtain ⟨outer, hop⟩ := h.operator
  have hinput := noted_input command (ed.withInput { i with count := none })
  refine Session.waiting_eq_some.2 ⟨?_, ⟨op, outer⟩, ?_, rfl⟩
  · exact (congrArg Input.mode hinput).trans h.mode
  · exact (congrArg Input.operator hinput).trans hop

theorem planOfCommand_awaiting (h : i.AwaitsMotion op n register)
    (hrange : ed.GivesRange op m n range) :
    (ed.withInput { i with count := none }).planOfCommand (.motion m n) =
      some (ed.operatorPlan op register range) := by
  have hwaiting := waiting_noted h ed (.motion m n)
  have hname := noted_registerName (.motion m n) (ed.withInput { i with count := none })
  have hplan := Session.planMotion_waiting ed.host.selection hwaiting (hrange _ hwaiting)
  refine congrArg some (hplan.trans ?_)
  unfold operatorPlan
  cases range with
  | none => rfl
  | some range =>
    obtain ⟨hmode, -⟩ := Session.waiting_eq_some.1 hwaiting
    refine Session.planOperator_congr_session ?_ ?_ op range .start
    · rw [hname, ← h.register]
      rfl
    · rw [Session.cursor_eq (by rw [hmode]; rfl)]
      rfl

theorem press_awaiting (h : i.AwaitsMotion op n register) (hm : PressesMotion event m)
    (hrange : ed.GivesRange op m n range) :
    ((ed.withInput i).press event).2.SameView
      (((ed.withInput { i with count := none }).noted (.motion m n)).outcome
        (ed.operatorPlan op register range)) :=
  press_outcome (completes_awaiting h hm) (planOfCommand_awaiting h hrange)

/-- **Motions that give an operator one range are operated on alike.** -/
theorem sameView_of_range {events events' : List InputEvent} {event' : InputEvent} {n' : Nat}
    {m' : Motion} (h : ed.TypesOperator events op n register)
    (h' : ed.TypesOperator events' op n' register) (hm : PressesMotion event m)
    (hm' : PressesMotion event' m') (hrange : ed.GivesRange op m n range)
    (hrange' : ed.GivesRange op m' n' range) :
    SameView (ed.pressAll (events ++ [event])).2 (ed.pressAll (events' ++ [event'])).2 := by
  obtain ⟨i, hevents, hi⟩ := h
  obtain ⟨i', hevents', hi'⟩ := h'
  have hplan := sameView_outcome
    (a := (ed.withInput { i with count := none }).noted (.motion m n))
    (b := (ed.withInput { i' with count := none }).noted (.motion m' n')) rfl
    (by rw [noted_mode, noted_mode]; exact hi.mode.trans hi'.mode.symm)
    (by rw [noted_visual, noted_visual]; rfl)
    (by rw [noted_registers, noted_registers]; rfl) (ed.operatorPlan op register range)
  rw [pressAll_append, hevents, pressAll_append, hevents']
  exact ((press_awaiting hi hm hrange).trans hplan).trans (press_awaiting hi' hm' hrange').symm

theorem operated_of_range {events : List InputEvent} {range : Range} (hg : ed.host.Grants)
    (h : ed.TypesOperator events op n register) (hm : PressesMotion event m)
    (hrange : ed.GivesRange op m n (some range)) :
    Operated op range (register.getD Registers.unnamed)
      (min ed.host.selection.active ed.host.text.length) ed
      (ed.pressAll (events ++ [event])).2 := by
  obtain ⟨i, hevents, hi⟩ := h
  have hwaiting := waiting_noted hi ed (.motion m n)
  obtain ⟨hmode, -⟩ := Session.waiting_eq_some.1 hwaiting
  have hvisual : i.mode.isVisual = false := by rw [hi.mode]; rfl
  have hoperates : ((ed.withInput { i with count := none }).noted (.motion m n)).session.Operates
      ed.host.text ed.host.selection (.motion m n) op range := by
    refine .motion hwaiting ?_
    rw [Session.cursor_eq (by rw [hmode]; rfl)]
    exact hrange _ hwaiting
  rw [pressAll_append, hevents, ← hi.register]
  exact press_of_ends (ends_dispatch_of_completes (completes_awaiting hi hm)
    (ends_operates (E := fun _ => False) hg hoperates hvisual)) fun _ => False.elim

end

/-! ## Characters taken -/

/-- The characters `start..stop` are out of the text and in the register of this name, and the
cursor rests where they began. -/
structure CharsTaken (op : Operator) (start stop : Nat) (name : Char) (ed after : Editor) :
    Prop where
  text : after.host.text = ed.host.text.splice start stop []
  registers : after.session.registers =
    ed.session.registers.write name ⟨false, ed.host.text.slice start stop⟩
  selection : after.host.selection = .cursor (op.rest.place after.host.text start)
  mode : after.session.mode = op.rest.mode

/-- **An operator other than a yank takes the characters of a region.** -/
theorem Operated.charsTaken {range : Range} {name : Char} {cursor start stop : Nat}
    (h : Operated op range name cursor ed after) (hop : op ≠ .yank)
    (hregion : Region.ofRange ed.host.text range = ⟨start, stop, false, false⟩)
    (hlt : start < stop) : CharsTaken op start stop name ed after := by
  obtain ⟨column, h⟩ := h
  rw [hregion] at h
  have hne : start ≠ stop := Nat.ne_of_lt hlt
  have hvoid : Region.isVoid ⟨start, stop, false, false⟩ = false := by
    simp [Region.isVoid, Region.isEmpty, hne]
  refine ⟨?_, ?_, ?_, h.mode⟩
  · rw [h.host, Host.text_committed]
    exact Operator.apply_edit_chars hop (Nat.le_of_lt hlt) _
  · rw [h.registers]
    simp [Session.committed, Session.settle, Session.afterEdit, Session.begin, Operator.commit,
      Region.write?, Region.register, Region.registerText, hvoid]
  · have hlanding : op.landing ed.host.text ⟨start, stop, false, false⟩ cursor = .index start := by
      cases op with
      | yank => exact absurd rfl hop
      | delete => simp [Operator.landing, hvoid]
      | change => rfl
    rw [h.host, Host.selection_committed, Commit.cursor]
    simp only [Operator.commit, hlanding, Landing.resolve]

/-! ## Keys before the motion -/

section

variable {pre inner : List Char} {outer count : Option Nat} {again : Option Char}

theorem types_afterOperator (hinner : Input.Preface inner count again) :
    Types (ed.withInput (.waiting op outer register)) (inner.map .char)
      (· = ed.withInput { Input.waiting op outer (again.or register) with count }) := by
  induction hinner with
  | nil => exact types_nil rfl
  | digit _ hd hzero ih =>
    have hcounting {count : Option Nat} {register : Option Char} :
        { Input.waiting op outer register with count }.Counting := ⟨Or.inr rfl, rfl⟩
    rw [List.map_append]
    refine ih.append fun ed' hed => ?_
    rw [hed]
    exact types_incomplete nofun (Input.read_digit hcounting hd hzero) rfl
  | @register keys count again c _ hc ih =>
    have hquote : Types (ed.withInput { Input.waiting op outer (again.or register) with count })
        [.char '"'] (· = ed.withInput { Input.waiting op outer (again.or register) with
          count, lookahead := some .register }) :=
      types_incomplete nofun (by cases op <;> rfl) rfl
    have hname : Types (ed.withInput { Input.waiting op outer (again.or register) with
          count, lookahead := some .register })
        [.char c] (· = ed.withInput { Input.waiting op outer (some c) with count }) :=
      types_incomplete nofun (if_pos hc) rfl
    rw [List.map_append]
    refine ih.append fun ed' hed => ?_
    rw [hed]
    exact hquote.append fun _ hed => hed ▸ hname

/-- **Counts and registers may be typed before the operator and after it.** The counts multiply, and
the last register counts. -/
theorem typesOperator_keys (h : ed.session.input = .idle .normal)
    (hpre : Input.Preface pre outer register) (hinner : Input.Preface inner count again)
    (op : Operator) {events : List InputEvent}
    (hevents : events.map (·.stroke?) = ((pre ++ op.key :: inner).map .char).map some) :
    ed.TypesOperator events op
      ({ Input.waiting op outer none with count }.composedCount 1) (again.or register) := by
  have hkeys : (pre ++ op.key :: inner).map Stroke.char =
      (pre ++ [op.key]).map .char ++ inner.map .char := by simp
  have htypes := (types_operatorKey h hpre op).append fun _ hed =>
    hed ▸ types_afterOperator hinner
  rw [hkeys] at hevents
  exact ⟨_, htypes events hevents, ⟨rfl, rfl, ⟨outer, rfl⟩, rfl, rfl⟩⟩

end

end Editor

end ModalEdit
