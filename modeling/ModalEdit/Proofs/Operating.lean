import ModalEdit.Proofs.Bounds

/-!
# What commands operate on

Every command that writes a register comes to the same work: an operator applied to a range. The
operator was typed and is given a motion or a text object, or one key stands for an operator with a
motion, or the range is that of the visual selection (`Session.Operates`). A command that operates
on a range is planned as its operator (`Operates.planned`), and every other command writes no
register (`operates_of_write`).

`planOperator_eq` gives the commit of an operator part by part. It reads the range by its region
only, so ranges with the same region are operated on alike. That is why a key such as `X` is `dh`:
the ends of the ranges are swapped and their region is the same (`Region.ofRange_comm`).
-/

namespace ModalEdit

variable {t : Text}

/-! ## Regions -/

namespace Region

/-- What a register gets of a region. -/
def register (r : Region) (t : Text) : Register :=
  ⟨r.linewise, r.registerText t⟩

/-- What operating on a region writes to a register. Of a void region that is nothing. -/
def write? (r : Region) (t : Text) (name : Char) : Option (Char × Register) :=
  if r.isVoid then none else some (name, r.register t)

/-- The ends of a range may come in either order. -/
theorem ofRange_comm (t : Text) (start stop : Nat) (extent : Extent) :
    ofRange t ⟨start, stop, extent⟩ = ofRange t ⟨stop, start, extent⟩ := by
  simp only [ofRange, Nat.min_comm start stop, Nat.max_comm start stop]

end Region

/-! ## The commit of an operator -/

namespace Operator

/-- The edit that an operator makes of a region. -/
def edit (op : Operator) (r : Region) : Option Edit :=
  match op with
  | yank => none
  | delete => if r.isVoid then none else some r.deletion
  | change => if r.start < r.changeStop then some (.deletion r.start r.changeStop) else none

/-- Where an operator leaves the cursor. -/
def landing (op : Operator) (t : Text) (r : Region) (cursor : Nat) : Landing :=
  match op with
  | yank => .index (if r.isVoid then cursor else Session.yankLanding t r cursor)
  | delete =>
    if r.isVoid then .index cursor
    else if r.linewise then .lineText (t.lineOf r.start)
    else .index r.start
  | change => .index r.start

/-- The mode an operator settles in. -/
def rest : Operator → Rest
  | change => .insert
  | delete | yank => .normal

/-- The commit of an operator on a region. -/
def commit (op : Operator) (t : Text) (r : Region) (name : Char) (cursor : Nat)
    (column : ColumnRule) : Commit :=
  { edit := op.edit r
    write := r.write? t name
    landing := op.landing t r cursor
    rest := op.rest
    column }

end Operator

namespace Session

variable {s : Session} {sel : Selection} {op : Operator} {command : Command} {range range' : Range}

/-- **An operator reads its range by the region only.** -/
theorem planOperator_eq (s : Session) (t : Text) (sel : Selection) (op : Operator) (range : Range)
    (since : Stage) :
    ∃ column, s.planOperator t sel op range since =
      .commit (op.commit t (Region.ofRange t range) s.registerName (s.cursor t sel) column) := by
  simp only [planOperator]
  cases hvoid : (Region.ofRange t range).isVoid with
  | true =>
    cases op with
    | change =>
      refine ⟨.forget since, ?_⟩
      simp [Operator.commit, Operator.edit, Operator.landing, Operator.rest, Region.write?, hvoid]
    | _ =>
      refine ⟨if since = .start then .forget since else .keep, ?_⟩
      simp [Operator.commit, Operator.edit, Operator.landing, Operator.rest, Region.write?, hvoid]
  | false =>
    refine ⟨.forget since, ?_⟩
    cases op <;> simp [Operator.commit, Operator.edit, Operator.landing, Operator.rest,
      Region.write?, Region.register, hvoid]

theorem planOperator_congr (h : Region.ofRange t range = Region.ofRange t range')
    (s : Session) (sel : Selection) (op : Operator) (since : Stage) :
    s.planOperator t sel op range since = s.planOperator t sel op range' since := by
  simp only [planOperator, h]

end Session

/-! ## What plans edit and write -/

namespace Plan

/-- The edit of a plan. -/
def edit? : Plan → Option Edit
  | commit c => c.edit
  | _ => none

/-- What a plan writes to a register. -/
def write? : Plan → Option (Char × Register)
  | commit c => c.write
  | _ => none

end Plan

namespace Session

variable {s : Session} {sel : Selection} {op : Operator} {range : Range} {w : Char × Register}

/-- What operating on a range writes: the register that is selected gets the region. -/
def WritesRange (s : Session) (t : Text) (range : Range) (w : Char × Register) : Prop :=
  w = (s.registerName, (Region.ofRange t range).register t)

theorem writesRange_planOperator {since : Stage}
    (h : (s.planOperator t sel op range since).write? = some w) : s.WritesRange t range w := by
  obtain ⟨column, hplan⟩ := s.planOperator_eq t sel op range since
  rw [hplan] at h
  replace h : (Region.ofRange t range).write? t s.registerName = some w := h
  unfold Region.write? at h
  split at h
  · cases h
  · exact (Option.some.inj h).symm

theorem edit_planOperator_yank {since : Stage} :
    (s.planOperator t sel .yank range since).edit? = none := by
  obtain ⟨column, hplan⟩ := s.planOperator_eq t sel .yank range since
  rw [hplan]
  rfl

end Session

/-! ## Operators of commands -/

/-- The operator of a selection command, and whether it takes whole lines. -/
def SelectionCommand.operator? : SelectionCommand → Option (Operator × Bool)
  | delete => some (.delete, false)
  | change => some (.change, false)
  | changeLines => some (.change, true)
  | yank => some (.yank, false)
  | yankLines => some (.yank, true)
  | lowerCase | upperCase => none

/-- The operator and the motion that a key of Normal mode stands for. -/
def Instant.operation : Instant → Option (Operator × Motion)
  | quick .deleteChar => some (.delete, .right)
  | quick .deleteCharBefore => some (.delete, .left)
  | quick .deleteToLineEnd => some (.delete, .lineEnd)
  | quick .changeToLineEnd => some (.change, .lineEnd)
  | quick .substituteChar => some (.change, .right)
  | quick .substituteLine => some (.change, .wholeLines)
  | yankLine => some (.yank, .wholeLines)
  | _ => none

namespace Session

variable {s : Session} {sel : Selection} {op : Operator} {command : Command} {range : Range}

/-- The operator that waits for its motion or text object. -/
def waiting (s : Session) : Option Operator :=
  if s.mode = .operatorPending then s.input.operator.map (·.op) else none

/-- A command applies an operator to a range: a motion or text object that has a target gives it to
the operator that waits, a key stands for an operator with a motion, or the selection is taken. -/
inductive Operates (s : Session) (t : Text) (sel : Selection) :
    Command → Operator → Range → Prop
  | motion {m : Motion} {count : Nat} {op : Operator} {range : Range} :
      s.waiting = some op → s.motionRange t m count (s.cursor t sel) = some range →
      Operates s t sel (.motion m count) op range
  | object {o : TextObject} {scope : Scope} {count : Nat} {op : Operator} {range : Range} :
      s.waiting = some op → o.range t scope count (s.cursor t sel) = some range →
      Operates s t sel (.object o scope count) op range
  | key {instant : Instant} {count : Nat} {op : Operator} {m : Motion} {range : Range} :
      instant.operation = some (op, m) →
      m.range t s.motionContext count (s.cursor t sel) = some range →
      Operates s t sel (.instant instant count) op range
  | selection {c : SelectionCommand} {count : Nat} {op : Operator} {lines : Bool} {range : Range} :
      c.operator? = some (op, lines) → s.selectionRange lines = some range →
      Operates s t sel (.instant (.selection c) count) op range

/-! ### Keys that stand for an operator with a motion -/

theorem range_right {cursor : Nat} (h : cursor ≤ t.length) (ctx : MotionContext) (count : Nat) :
    Motion.right.range t ctx count cursor =
      some (.exclusive cursor (min (cursor + max count 1) (t.lineEnd (t.lineOf cursor)))) := by
  have hstart := t.lineStart_lineOf_le cursor h
  have hstop : t.lineStart (t.lineOf cursor) +
      min (cursor - t.lineStart (t.lineOf cursor) + max count 1) (t.lineLength (t.lineOf cursor)) =
      min (cursor + max count 1) (t.lineEnd (t.lineOf cursor)) := by
    rw [Text.lineEnd_eq]
    omega
  simp only [Motion.range, Position.ofIndex_eq, Nat.min_eq_left h, hstop]

theorem range_left {cursor : Nat} (h : cursor ≤ t.length) (ctx : MotionContext) (count : Nat) :
    Motion.left.range t ctx count cursor =
      some (.exclusive cursor (max (cursor - max count 1) (t.lineStart (t.lineOf cursor)))) := by
  have hstart := t.lineStart_lineOf_le cursor h
  have hstop : t.lineStart (t.lineOf cursor) +
      (cursor - t.lineStart (t.lineOf cursor) - max count 1) =
      max (cursor - max count 1) (t.lineStart (t.lineOf cursor)) := by
    omega
  simp only [Motion.range, Position.ofIndex_eq, Nat.min_eq_left h, hstop]

/-- **Such a key is its operator given its motion.** -/
theorem planInstant_of_operation (h : s.mode.isVisual = false) {instant : Instant} {m : Motion}
    (hinstant : instant.operation = some (op, m)) (count : Nat) :
    s.planInstant t sel instant count = s.planOperateTo t sel op m count := by
  have hcursor : s.cursor t sel ≤ t.length := cursor_le h
  have hcount : max (max count 1) 1 = max count 1 := by omega
  cases instant with
  | quick edit =>
    cases edit with
    | putAfter | putBefore => cases hinstant
    | deleteChar | substituteChar =>
      cases hinstant
      simp only [planOperateTo, range_right hcursor]
      rfl
    | deleteCharBefore =>
      cases hinstant
      simp only [planOperateTo, range_left hcursor]
      exact planOperator_congr (Region.ofRange_comm t _ _ .exclusive) s sel .delete .placed
    | changeToLineEnd | deleteToLineEnd | substituteLine =>
      cases hinstant
      simp only [planInstant, planQuick, planOperateTo, Motion.range, hcount]
  | yankLine =>
    cases hinstant
    rfl
  | _ => cases hinstant

/-! ### Commands -/

theorem waiting_eq_some :
    s.waiting = some op ↔
      s.mode = .operatorPending ∧ ∃ pending, s.input.operator = some pending ∧ pending.op = op := by
  simp [waiting]

theorem planSelection_of_operator {c : SelectionCommand} {lines : Bool}
    (hc : c.operator? = some (op, lines)) :
    s.planSelection t sel c = s.planOperateSelection t sel op lines := by
  cases c <;> cases hc <;> rfl

/-- A key that stands for an operator with a motion is one of Normal mode, and has a plan. -/
theorem planCommand_of_operation {instant : Instant} {m : Motion}
    (hinstant : instant.operation = some (op, m)) (count : Nat) :
    (Command.instant instant count).isNormalOnly = true ∧
      s.planCommand t sel (.instant instant count) =
        some (s.planInstant t sel instant count) := by
  cases instant with
  | quick | yankLine => exact ⟨rfl, rfl⟩
  | _ => cases hinstant

/-- The stage from which on the operator of a command forgets the preferred column. -/
def forgetsSince : Command → Stage
  | .motion _ _ => .start
  | _ => .placed

/-- **A command that operates on a range is planned as its operator.** -/
theorem Operates.planned (h : s.Operates t sel command op range)
    (hnormal : command.isNormalOnly = true → s.mode.isVisual = false) :
    s.planCommand t sel command =
      some (s.planOperator t sel op range (forgetsSince command)) := by
  cases h with
  | motion hwaiting hrange =>
    obtain ⟨hmode, pending, hpending, rfl⟩ := waiting_eq_some.1 hwaiting
    simp only [planCommand, planMotion, hrange, hmode, hpending, forgetsSince]
  | object hwaiting hrange =>
    obtain ⟨hmode, pending, hpending, rfl⟩ := waiting_eq_some.1 hwaiting
    simp only [planCommand, planObject, hrange, hmode, hpending, forgetsSince]
  | key hinstant hrange =>
    obtain ⟨hkey, hplan⟩ := planCommand_of_operation hinstant _
    rw [hplan, planInstant_of_operation (hnormal hkey) hinstant]
    simp only [planOperateTo, hrange, forgetsSince]
  | selection hc hrange =>
    simp only [planCommand, planInstant, planSelection_of_operator hc, planOperateSelection, hrange,
      forgetsSince]

theorem Operates.plan (h : s.Operates t sel command op range)
    (hnormal : command.isNormalOnly = true → s.mode.isVisual = false) :
    ∃ since, s.planCommand t sel command = some (s.planOperator t sel op range since) :=
  ⟨_, h.planned hnormal⟩

/-! ### Other commands -/

theorem write_planTransform (f : Text → Text) (always : Bool) :
    (s.planTransform t f always).write? = none := by
  unfold planTransform
  split <;> rfl

theorem write_planReplace (c : Char) (count : Nat) :
    (s.planReplace t sel c count).write? = none := by
  simp only [planReplace]
  split
  · exact write_planTransform _ _
  · split
    · rfl
    · split <;> rfl

theorem write_planPut (count : Nat) (after : Bool) :
    (s.planPut t sel count after).write? = none := by
  simp only [planPut]
  split
  · rfl
  · split <;> rfl

theorem write_planInsert (place : Insertion) : (s.planInsert t sel place).write? = none := by
  cases place <;> rfl

/-! ### Commands that write -/

variable {w : Char × Register} {count : Nat}

theorem operates_of_write_motion {m : Motion}
    (h : (s.planMotion t sel m count).write? = some w) :
    ∃ op range, s.Operates t sel (.motion m count) op range ∧ s.WritesRange t range w := by
  simp only [planMotion] at h
  split at h
  · cases h
  · rename_i range hrange
    split at h
    · rename_i hmode
      split at h
      · rename_i pending hpending
        have hwaiting := waiting_eq_some.2 ⟨hmode, pending, hpending, rfl⟩
        exact ⟨_, range, .motion hwaiting hrange, writesRange_planOperator h⟩
      · cases h
    · cases h
    · cases h

theorem operates_of_write_object {o : TextObject} {scope : Scope}
    (h : (s.planObject t sel o scope count).write? = some w) :
    ∃ op range, s.Operates t sel (.object o scope count) op range ∧ s.WritesRange t range w := by
  simp only [planObject] at h
  split at h
  · cases h
  · rename_i range hrange
    split at h
    · rename_i hmode
      split at h
      · rename_i pending hpending
        have hwaiting := waiting_eq_some.2 ⟨hmode, pending, hpending, rfl⟩
        exact ⟨_, range, .object hwaiting hrange, writesRange_planOperator h⟩
      · cases h
    · split at h <;> cases h
    · cases h

theorem operates_of_write_key {instant : Instant} {m : Motion} (hnormal : s.mode.isVisual = false)
    (hinstant : instant.operation = some (op, m))
    (h : (s.planInstant t sel instant count).write? = some w) :
    ∃ op range, s.Operates t sel (.instant instant count) op range ∧ s.WritesRange t range w := by
  rw [planInstant_of_operation hnormal hinstant, planOperateTo] at h
  split at h
  · rename_i range hrange
    exact ⟨op, range, .key hinstant hrange, writesRange_planOperator h⟩
  · cases h

theorem operates_of_write_selection {c : SelectionCommand}
    (h : (s.planSelection t sel c).write? = some w) :
    ∃ op range, s.Operates t sel (.instant (.selection c) count) op range ∧
      s.WritesRange t range w := by
  cases hc : c.operator? with
  | none =>
    cases c with
    | lowerCase | upperCase =>
      simp only [planSelection, write_planTransform] at h
      cases h
    | _ => cases hc
  | some taken =>
    obtain ⟨op, lines⟩ := taken
    rw [planSelection_of_operator hc, planOperateSelection] at h
    split at h
    · rename_i range hrange
      exact ⟨op, range, .selection hc hrange, writesRange_planOperator h⟩
    · cases h

/-- **A command whose plan writes a register operates on a range, and writes what is there.** -/
theorem operates_of_write {plan : Plan}
    (hnormal : command.isNormalOnly = true → s.mode.isVisual = false)
    (hplan : s.planCommand t sel command = some plan) (h : plan.write? = some w) :
    ∃ op range, s.Operates t sel command op range ∧ s.WritesRange t range w := by
  cases command with
  | motion m count => cases hplan; exact operates_of_write_motion h
  | object o scope count => cases hplan; exact operates_of_write_object h
  | enter entry =>
    cases hplan
    cases entry with
    | insert place =>
      rw [planEnter, write_planInsert] at h
      cases h
    | visual kind => cases h
  | replace c count =>
    cases hplan
    rw [write_planReplace] at h
    cases h
  | operator op count => cases hplan
  | instant instant count =>
    cases instant with
    | quick edit =>
      cases hplan
      cases edit with
      | putAfter | putBefore =>
        simp only [planInstant, planQuick, write_planPut] at h
        cases h
      | _ => exact operates_of_write_key (hnormal rfl) rfl h
    | selection c => cases hplan; exact operates_of_write_selection h
    | yankLine => cases hplan; exact operates_of_write_key (hnormal rfl) rfl h
    | _ => cases hplan

end Session

namespace Editor

/-- A command of Normal mode only is planned outside Visual mode. -/
theorem not_visual_of_completes {ed : Editor} {event : InputEvent} {command : Command} {i : Input}
    (h : ed.completes event = some (command, i)) (hnormal : command.isNormalOnly = true) :
    ((ed.withInput i).noted command).session.mode.isVisual = false := by
  obtain ⟨-, c, -, hread⟩ := completes_cases h
  have hmode := ed.session.input.read_inNormal ed.host.text ed.session.config c
  rw [hread] at hmode
  rw [noted_mode]
  exact congrArg Mode.isVisual (hmode hnormal)

end Editor

end ModalEdit
