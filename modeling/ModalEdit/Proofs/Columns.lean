import ModalEdit.Proofs.Landing
import ModalEdit.Proofs.RestingCursor
import ModalEdit.Proofs.Typing

/-!
# Keeping a column

`j` and `k` go from line to line and keep a column: the first move that succeeds sets it to the
column the cursor comes from, and later ones only read it. So after any run of counted moves the
cursor is in that column, or in the last one of a line that is too short for it, whatever lines lie
between (`vertical_keeps_column`).

The invariant (`OnLine`) says that the column to keep is the preferred one, or the cursor's own
while none is preferred. A move that fails at the first or the last line leaves it alone. `$` makes
the last column of every line the one to keep, and then the same invariant holds with that.
-/

namespace ModalEdit

/-! ## Walking over lines -/

/-- A move up or down by some lines. -/
structure LineStep where
  down : Bool
  count : Nat
  deriving DecidableEq, Repr

namespace LineStep

/-- The key of a move. -/
def key (step : LineStep) : Char := if step.down then 'j' else 'k'

/-- The motion of a move. -/
def motion (step : LineStep) : Motion := if step.down then .down else .up

/-- The line that a move leads to, the first or the last one if there are no more. -/
def target (step : LineStep) (t : Text) (l : Nat) : Nat :=
  if step.down then min (l + step.count) t.lastLine else l - step.count

theorem ofKey_key (step : LineStep) : Motion.ofKey step.key = some step.motion := by
  unfold key motion
  split <;> rfl

theorem key_ne_zero (step : LineStep) : step.key ≠ '0' := by
  unfold key
  split <;> decide

theorem defaultCount_motion (step : LineStep) : step.motion.defaultCount = 1 := by
  unfold motion
  split <;> rfl

theorem isVertical_motion (step : LineStep) : step.motion.isVertical = true := by
  unfold motion
  split <;> rfl

theorem target_le {t : Text} {l : Nat} (step : LineStep) (hl : l ≤ t.lastLine) :
    step.target t l ≤ t.lastLine := by
  unfold target
  split <;> omega

end LineStep

/-- The line that moves in a row lead to. -/
def Text.walkLines (t : Text) (l : Nat) (steps : List LineStep) : Nat :=
  steps.foldl (fun l step => step.target t l) l

/-- Keys that type moves one after the other, with a count typed before them. -/
inductive VerticalKeys : Option Nat → List Char → List LineStep → Prop
  | nil (count : Option Nat) : VerticalKeys count [] []
  | digit {count : Option Nat} {c : Char} {d : Nat} {keys : List Char} {steps : List LineStep} :
      Count.digit? c = some d → (count = none → c ≠ '0') →
      VerticalKeys (some (Count.push count d)) keys steps → VerticalKeys count (c :: keys) steps
  | step {count : Option Nat} {keys : List Char} {steps : List LineStep} (down : Bool) :
      VerticalKeys none keys steps →
      VerticalKeys count ((LineStep.mk down (count.getD 1)).key :: keys)
        (⟨down, count.getD 1⟩ :: steps)

/-- A count as it can be typed, or none. -/
def Count.Typed (count : Option Nat) : Prop :=
  ∀ n, count = some n → 0 < n ∧ n ≤ limit

theorem Count.typed_none : Typed none := nofun

theorem Count.Typed.pos {count : Option Nat} (h : Typed count) : 0 < count.getD 1 := by
  cases hn : count with
  | none => exact Nat.one_pos
  | some n => exact (h n hn).1

theorem Count.typed_push {count : Option Nat} {c : Char} {d : Nat} (h : Typed count)
    (hd : digit? c = some d) (hzero : count = none → c ≠ '0') : Typed (some (push count d)) := by
  rintro n ⟨⟩
  refine ⟨?_, Nat.min_le_right _ _⟩
  have hlimit : 0 < limit := by decide
  cases count with
  | none =>
    have hpos : d ≠ 0 := fun hd0 => hzero rfl (eq_zero_of_digit? (hd0 ▸ hd))
    simp only [push, Option.getD_none]
    omega
  | some m =>
    have hpos := (h m rfl).1
    simp only [push, Option.getD_some]
    omega

theorem Input.read_motionKey_normal {i : Input} {c : Char} {m : Motion} (t : Text) (config : Config)
    (h : Motion.ofKey c = some m) (hdefault : m.defaultCount = 1) (hc : c ≠ '0')
    (hmode : i.mode = .normal) (hlookahead : i.lookahead = none) (hoperator : i.operator = none)
    (hcount : Count.Typed i.count) :
    i.read t config c = (.command (.motion m (i.count.getD 1)), { i with count := none }) := by
  have hcomposed : i.composedCount 1 = i.count.getD 1 := by
    simp only [composedCount, hoperator]
    cases hn : i.count with
    | none => rfl
    | some n =>
      have hle := (hcount n hn).2
      show Count.times n 1 = n
      unfold Count.times
      omega
  have hcounting : i.Counting := ⟨Or.inl hmode, hlookahead⟩
  rw [read_ofKey hcounting h fun hzero => absurd hzero hc, readMotion, hdefault, hcomposed]

/-! ## Ranges of vertical motions -/

namespace Text

variable {t : Text} {l : Nat}

/-- A Normal position is no further to the right than the last column of its line. -/
theorem IsNormal.col_le {i : Nat} (h : t.IsNormal i) :
    i = t.lineStart (t.lineOf i) + (Position.ofIndex t i).col ∧
      (Position.ofIndex t i).col ≤ t.lastColumn (t.lineOf i) := by
  rw [Position.ofIndex_eq]
  dsimp only
  rcases h with ⟨c, hget, hc⟩ | ⟨l, hl, hline, rfl⟩
  · obtain ⟨hlt, -⟩ := List.getElem?_eq_some_iff.1 hget
    have hstart := t.lineStart_lineOf_le i (Nat.le_of_lt hlt)
    have hend : i < t.lineEnd (t.lineOf i) := lt_lineEnd_lineOf_iff.2 ⟨c, hget, hc⟩
    rw [Nat.min_eq_left (Nat.le_of_lt hlt)]
    rw [lineEnd_eq] at hend
    simp only [lastColumn]
    omega
  · rw [lineOf_lineStart hl, Nat.min_eq_left (t.lineStart_le_length l)]
    omega

theorem lastColumn_le_lineLength (t : Text) (l : Nat) : t.lastColumn l ≤ t.lineLength l :=
  Nat.sub_le _ 1

end Text

namespace Motion

variable {t : Text} {ctx : MotionContext} {cursor : Nat}

theorem range_lineStep (step : LineStep) (hcount : 0 < step.count) :
    step.motion.range t ctx step.count cursor =
      if step.target t (t.lineOf cursor) = t.lineOf cursor then none
      else
        some (toColumn t (.ofIndex t cursor) ctx.preferred (step.target t (t.lineOf cursor))) := by
  have hl := t.lineOf_le_lastLine cursor
  have hmax : max step.count 1 = step.count := Nat.max_eq_left hcount
  obtain ⟨down, count⟩ := step
  cases down with
  | true =>
    have hstay : min (t.lineOf cursor + count) t.lastLine = t.lineOf cursor ↔
        t.lastLine ≤ t.lineOf cursor := by
      dsimp only at hcount
      omega
    simp only [LineStep.motion, LineStep.target, if_true, range, hmax, Position.ofIndex_line,
      Text.lineBelow, hstay]
    rw [if_neg (Nat.ne_of_gt hcount)]
    split <;> rfl
  | false =>
    have hstay : t.lineOf cursor - count = t.lineOf cursor ↔ t.lineOf cursor = 0 := by
      dsimp only at hcount
      omega
    simp only [LineStep.motion, LineStep.target, Bool.false_eq_true, if_false, range, hmax,
      Position.ofIndex_line, Text.lineAbove, hstay]
    split <;> rfl

/-- `$` goes to the last column, of a line further down if it is counted. -/
theorem range_lineEnd (t : Text) (ctx : MotionContext) (cursor count : Nat) :
    ∃ range, lineEnd.range t ctx count cursor = some range ∧
      range.stop = t.lineStart (min (t.lineOf cursor + (max count 1 - 1)) t.lastLine) +
        t.lastColumn (min (t.lineOf cursor + (max count 1 - 1)) t.lastLine) := by
  simp only [range, Position.ofIndex_line]
  split
  · rename_i hempty
    refine ⟨_, rfl, ?_⟩
    simp [Range.exclusive, Text.lastColumn, hempty]
  · rename_i hlength
    refine ⟨_, rfl, ?_⟩
    simp only [Range.inclusive, Text.lastColumn, Text.lineEnd_eq]
    omega

end Motion

theorem Session.planMotion_normal (s : Session) (hmode : s.mode = .normal) {t : Text}
    {sel : Selection} (m : Motion) (count : Nat) :
    s.planMotion t sel m count =
      match s.motionRange t m count (s.cursor t sel) with
      | none => .drop
      | some range =>
        .commit
          { landing := .index range.stop
            column := .become (s.columnAfter m t (s.cursor t sel)) } := by
  rw [planMotion]
  cases s.motionRange t m count (s.cursor t sel) with
  | none => rfl
  | some range =>
    dsimp only
    rw [hmode]

theorem PreferredColumn.clamp_le (column : PreferredColumn) (last : Nat) :
    column.clamp last ≤ last := by
  cases column with
  | column col => exact Nat.min_le_right _ _
  | lineEnd => exact Nat.le_refl _

namespace Editor

variable {ed : Editor} {t : Text} {l : Nat} {column : PreferredColumn} {count : Option Nat}

/-- In Normal mode nothing waits but a count, on a host that grants everything. -/
structure Awaiting (count : Option Nat) (ed : Editor) : Prop where
  grants : ed.host.Grants
  mode : ed.session.mode = .normal
  lookahead : ed.session.input.lookahead = none
  operator : ed.session.input.operator = none
  count : ed.session.input.count = count

/-- In Normal mode the cursor is on a line, in the column to keep or in the last one if the line is
too short. That column is the preferred one, or the cursor's if none is. -/
structure OnLine (t : Text) (l : Nat) (column : PreferredColumn) (count : Option Nat)
    (ed : Editor) : Prop where
  grants : ed.host.Grants
  text : ed.host.text = t
  line_le : l ≤ t.lastLine
  selection : ed.host.selection = .cursor (t.lineStart l + column.clamp (t.lastColumn l))
  mode : ed.session.mode = .normal
  lookahead : ed.session.input.lookahead = none
  operator : ed.session.input.operator = none
  count : ed.session.input.count = count
  keeps : ed.session.preferred.getD (.column (column.clamp (t.lastColumn l))) = column

theorem OnLine.awaiting (h : ed.OnLine t l column count) : ed.Awaiting count :=
  ⟨h.grants, h.mode, h.lookahead, h.operator, h.count⟩

theorem OnLine.cursorAt (h : ed.OnLine t l column count) :
    ed.CursorAt .normal (t.lineStart l + column.clamp (t.lastColumn l)) :=
  ⟨h.mode, h.selection⟩

theorem OnLine.col_le (_ : ed.OnLine t l column count) :
    column.clamp (t.lastColumn l) ≤ t.lineLength l :=
  Nat.le_trans (column.clamp_le _) (t.lastColumn_le_lineLength l)

theorem OnLine.index_le (h : ed.OnLine t l column count) :
    t.lineStart l + column.clamp (t.lastColumn l) ≤ t.length := by
  have hcol := h.col_le
  have hend := t.lineEnd_le_length l
  rw [Text.lineEnd_eq] at hend
  omega

theorem OnLine.cursor (h : ed.OnLine t l column count) {s : Session} (hs : s.mode = .normal) :
    s.cursor ed.host.text ed.host.selection = t.lineStart l + column.clamp (t.lastColumn l) := by
  have hvisual : s.mode.isVisual = false := by rw [hs]; rfl
  rw [Session.cursor_eq hvisual, h.selection, h.text]
  exact Nat.min_eq_left h.index_le

theorem OnLine.lineOf_cursor (h : ed.OnLine t l column count) :
    t.lineOf (t.lineStart l + column.clamp (t.lastColumn l)) = l :=
  Text.lineOf_lineStart_add h.line_le h.col_le

theorem OnLine.preferred_getD (h : ed.OnLine t l column count) :
    ed.session.preferred.getD
      (.column (Position.ofIndex t (t.lineStart l + column.clamp (t.lastColumn l))).col) =
        column := by
  have hcol : (Position.ofIndex t (t.lineStart l + column.clamp (t.lastColumn l))).col =
      column.clamp (t.lastColumn l) := by
    rw [Position.ofIndex_eq, h.lineOf_cursor, Nat.min_eq_left h.index_le]
    exact Nat.add_sub_cancel_left _ _
  rw [hcol]
  exact h.keeps

/-! ## One key -/

/-- A digit typed in Normal mode adds to the count and does nothing else. -/
theorem types_digit (h : ed.Awaiting count) {c : Char} {d : Nat} (hd : Count.digit? c = some d)
    (hzero : count = none → c ≠ '0') {P : Editor → Prop}
    (hP : P (ed.withInput { ed.session.input with count := some (Count.push count d) })) :
    Types ed [.char c] P := by
  have hcounting : ed.session.input.Counting := ⟨Or.inl h.mode, h.lookahead⟩
  refine types_incomplete (by rw [h.mode]; nofun)
    (Input.read_digit hcounting hd fun hn => hzero (h.count ▸ hn)) ?_
  rw [h.count]
  exact hP

theorem onLine_digit (h : ed.OnLine t l column count) {c : Char} {d : Nat}
    (hd : Count.digit? c = some d) (hzero : count = none → c ≠ '0') :
    Types ed [.char c] (OnLine t l column (some (Count.push count d))) :=
  types_digit h.awaiting hd hzero ⟨h.grants, h.text, h.line_le, h.selection, h.mode, h.lookahead,
    h.operator, rfl, h.keeps⟩

/-- A key of Normal mode that is a motion carries out the plan of the motion. -/
theorem types_motionKey (h : ed.Awaiting count) (hcount : Count.Typed count) {c : Char}
    {m : Motion} (hm : Motion.ofKey c = some m) (hdefault : m.defaultCount = 1) (hc : c ≠ '0')
    {P : Editor → Prop}
    (hplan : ∀ (s : Session) (lastChange : Option LastChange) (recording : Bool),
      s.mode = .normal → s.input.operator = none → s.preferred = ed.session.preferred →
      P ((carried (s.planMotion ed.host.text ed.host.selection m (count.getD 1))
        ⟨s, ed.host⟩).withChange lastChange recording)) :
    Types ed [.char c] P := by
  have hread := Input.read_motionKey_normal ed.host.text ed.session.config hm hdefault hc h.mode
    h.lookahead h.operator (h.count.symm ▸ hcount)
  rw [h.count] at hread
  refine types_command (by rw [h.mode]; nofun) hread ?_
  have hg : (ed.withInput { ed.session.input with count := none }).host.Grants := h.grants
  refine ends_execute_granted hg rfl fun lastChange recording => ?_
  refine hplan _ lastChange recording ?_ ?_ ?_
  · exact (noted_mode _ _).trans h.mode
  · exact (congrArg Input.operator (noted_input _ _)).trans h.operator
  · unfold noted
    rw [Session.noteCommand_frame]
    rfl

section

variable {s : Session} {lastChange : Option LastChange} {recording : Bool}

/-- A motion that fails leaves the cursor on its line, and the column to keep. -/
theorem onLine_dropped (h : ed.OnLine t l column count) (hmode : s.mode = .normal)
    (hpreferred : s.preferred = ed.session.preferred) :
    ((carried .drop ⟨s, ed.host⟩).withChange lastChange recording).OnLine t l column none := by
  refine ⟨h.grants, h.text, h.line_le, h.selection, ?_, rfl, rfl, rfl, ?_⟩
  · show (if s.mode.isVisual then s.mode else Mode.normal) = .normal
    rw [hmode]
    rfl
  · show s.preferred.getD _ = column
    rw [hpreferred]
    exact h.keeps

/-- A motion that succeeds takes the cursor to another line and makes a column the preferred one. -/
theorem onLine_moved (h : ed.OnLine t l column count) {l' : Nat} {column' : PreferredColumn}
    (hl : l' ≤ t.lastLine) {i : Nat} (hi : i = t.lineStart l' + column'.clamp (t.lastColumn l')) :
    ((carried (.commit { landing := .index i, column := .become (some column') })
      ⟨s, ed.host⟩).withChange lastChange recording).OnLine t l' column' none := by
  have hcolumn := column'.clamp_le (t.lastColumn l')
  have hrests : t.restingIndex i = i := by
    rw [hi, Text.restingIndex_lineStart_add hl
      (Nat.le_trans hcolumn (t.lastColumn_le_lineLength l')), Nat.min_eq_left hcolumn]
  refine ⟨h.grants.committed _, h.text, hl, ?_, rfl, rfl, rfl, rfl, rfl⟩
  show Selection.cursor (ed.host.text.restingIndex i) = _
  rw [h.text, hrests, hi]

end

/-- **A vertical motion goes to its line and keeps the column.** -/
theorem onLine_step (h : ed.OnLine t l column count) (hcount : Count.Typed count) (down : Bool) :
    Types ed [.char (LineStep.mk down (count.getD 1)).key]
      (OnLine t ((LineStep.mk down (count.getD 1)).target t l) column none) := by
  generalize hstep : LineStep.mk down (count.getD 1) = step
  have hstepCount : step.count = count.getD 1 := by rw [← hstep]
  refine types_motionKey h.awaiting hcount step.ofKey_key step.defaultCount_motion
    step.key_ne_zero fun s lastChange recording hmode _ hpref => ?_
  have hrange : s.motionRange t step.motion step.count
      (t.lineStart l + column.clamp (t.lastColumn l)) =
      step.motion.range t s.motionContext step.count
        (t.lineStart l + column.clamp (t.lastColumn l)) := by
    unfold LineStep.motion
    split <;> rfl
  rw [Motion.range_lineStep step (hstepCount ▸ hcount.pos), h.lineOf_cursor] at hrange
  rw [s.planMotion_normal hmode, h.cursor hmode, h.text, ← hstepCount, hrange]
  by_cases hstay : step.target t l = l
  · rw [if_pos hstay, hstay]
    exact onLine_dropped h hmode hpref
  · rw [if_neg hstay]
    have hcolumn : s.columnAfter step.motion t (t.lineStart l + column.clamp (t.lastColumn l)) =
        some column := by
      rw [Session.columnAfter, if_pos step.isVertical_motion, hpref, h.preferred_getD]
    dsimp only
    rw [hcolumn]
    refine onLine_moved h (step.target_le h.line_le) ?_
    simp only [Motion.toColumn, Range.linewise, Session.motionContext, hpref, h.preferred_getD]

theorem onLine_lineEnd (h : ed.OnLine t l column count) (hcount : Count.Typed count) :
    Types ed [.char '$']
      (OnLine t (min (l + (count.getD 1 - 1)) t.lastLine) .lineEnd none) := by
  refine types_motionKey h.awaiting hcount rfl rfl (by decide)
    fun s lastChange recording hmode _ _ => ?_
  obtain ⟨range, hrange, hstop⟩ := Motion.range_lineEnd t s.motionContext
    (t.lineStart l + column.clamp (t.lastColumn l)) (count.getD 1)
  have hmotion : s.motionRange t .lineEnd (count.getD 1)
      (t.lineStart l + column.clamp (t.lastColumn l)) = some range := hrange
  rw [h.lineOf_cursor, Nat.max_eq_left hcount.pos] at hstop
  rw [s.planMotion_normal hmode, h.cursor hmode, h.text, hmotion]
  exact onLine_moved h (Nat.min_le_right _ _) hstop

/-! ## Runs of keys -/

/-- **Moves in a row walk over the lines and keep the column.** -/
theorem onLine_keys (h : ed.OnLine t l column count) (hcount : Count.Typed count)
    {keys : List Char} {steps : List LineStep} (hkeys : VerticalKeys count keys steps) :
    Types ed (keys.map .char) fun ed =>
      ∃ count, ed.OnLine t (t.walkLines l steps) column count := by
  induction hkeys generalizing ed l with
  | nil => exact types_nil ⟨_, h⟩
  | @digit count c d keys steps hd hzero _ ih =>
    have hdigit := onLine_digit h hd hzero
    show Types _ ([.char c] ++ keys.map .char) _
    exact hdigit.append fun _ h => ih h (Count.typed_push hcount hd hzero)
  | @step count keys steps down _ ih =>
    have hstep := onLine_step h hcount down
    show Types _ ([.char (LineStep.key ⟨down, count.getD 1⟩)] ++ keys.map .char) _
    exact hstep.append fun _ h => ih h Count.typed_none

theorem onLine_of_isNormal (hg : ed.host.Grants) (hmode : ed.session.mode = .normal)
    (hlookahead : ed.session.input.lookahead = none) (hoperator : ed.session.input.operator = none)
    (hpreferred : ed.session.preferred = none) {i : Nat}
    (hselection : ed.host.selection = .cursor i) (hi : ed.host.text.IsNormal i) :
    ed.OnLine ed.host.text (ed.host.text.lineOf i) (.column (Position.ofIndex ed.host.text i).col)
      ed.session.input.count := by
  obtain ⟨hindex, hcol⟩ := hi.col_le
  have hclamp : (PreferredColumn.column (Position.ofIndex ed.host.text i).col).clamp
      (ed.host.text.lastColumn (ed.host.text.lineOf i)) = (Position.ofIndex ed.host.text i).col :=
    Nat.min_eq_left hcol
  refine ⟨hg, rfl, ed.host.text.lineOf_le_lastLine i, ?_, hmode, hlookahead, hoperator, rfl, ?_⟩
  · rw [hclamp, ← hindex]
    exact hselection
  · rw [hclamp, hpreferred]
    rfl

/-- **Vertical motions keep the column, whatever lines lie between.** From a Normal position with no
preferred column, any counted `j` and `k` lead to the line that the counts walk to, into the
cursor's first column, or into the last one of a shorter line; if that is the first line again, to
the first position. After `$` they lead to the last column of every line. -/
theorem vertical_keeps_column (hg : ed.host.Grants) (hmode : ed.session.mode = .normal)
    (hlookahead : ed.session.input.lookahead = none) (hoperator : ed.session.input.operator = none)
    (hcount : Count.Typed ed.session.input.count) (hpreferred : ed.session.preferred = none)
    {i : Nat} (hselection : ed.host.selection = .cursor i) (hi : ed.host.text.IsNormal i)
    {keys : List Char} {steps : List LineStep} {events : List InputEvent} :
    let t := ed.host.text
    let after := (ed.pressAll events).2
    (VerticalKeys ed.session.input.count keys steps →
      events.map (·.stroke?) = (keys.map .char).map some →
      let l := t.walkLines (t.lineOf i) steps
      after.host.text = t ∧
        after.CursorAt .normal (t.lineStart l + min (Position.ofIndex t i).col (t.lastColumn l)) ∧
        (l = t.lineOf i → after.host.selection = ed.host.selection)) ∧
    (VerticalKeys none keys steps →
      events.map (·.stroke?) = (('$' :: keys).map .char).map some →
      let l := t.walkLines
        (min (t.lineOf i + (ed.session.input.count.getD 1 - 1)) t.lastLine) steps
      after.host.text = t ∧ after.CursorAt .normal (t.lineStart l + t.lastColumn l)) := by
  intro t after
  have honLine := onLine_of_isNormal hg hmode hlookahead hoperator hpreferred hselection hi
  refine ⟨fun hkeys hevents => ?_, fun hkeys hevents => ?_⟩
  · obtain ⟨count, hafter⟩ := onLine_keys honLine hcount hkeys events hevents
    refine ⟨hafter.text, hafter.cursorAt, fun hl => ?_⟩
    have hstart := honLine.selection
    rw [← hl] at hstart
    rw [hstart]
    exact hafter.selection
  · have hlineEnd := onLine_lineEnd honLine hcount
    have htypes := hlineEnd.append fun _ h => onLine_keys h Count.typed_none hkeys
    obtain ⟨count, hafter⟩ := htypes events hevents
    exact ⟨hafter.text, hafter.cursorAt⟩

/-- Down over a short line and an empty one, and back to where the cursor was; and to the end of the
short line. -/
theorem vertical_keeps_column_return :
    let ed : Editor := ⟨Session.new .normal {} none,
      .ofText ['a', 'b', 'c', '\n', 'd', 'e', '\n', '\n', 'f'] 2⟩
    ed.host.Grants ∧ ed.session.preferred = none ∧ ed.host.text.IsNormal 2 ∧
      VerticalKeys none ['2', 'j', 'j', '3', 'k'] [⟨true, 2⟩, ⟨true, 1⟩, ⟨false, 3⟩] ∧
      (ed.pressAll [.text '2', .text 'j', .text 'j', .text '3', .text 'k']).2.host.selection =
        .cursor 2 ∧
      (ed.pressAll [.text '$', .text 'j']).2.CursorAt .normal 5 := by
  intro ed
  have hg : ed.host.Grants := ⟨rfl, rfl, rfl⟩
  have hnormal : ed.host.text.IsNormal 2 := Or.inl ⟨'c', rfl, by decide⟩
  have hdown : VerticalKeys none ['j'] [⟨true, 1⟩] := .step true (.nil none)
  have hreturn : VerticalKeys none ['2', 'j', 'j', '3', 'k']
      [⟨true, 2⟩, ⟨true, 1⟩, ⟨false, 3⟩] := by
    have hup : VerticalKeys none ['3', 'k'] [⟨false, 3⟩] :=
      .digit (d := 3) rfl (fun _ => by decide) (.step false (.nil none))
    exact .digit (d := 2) rfl (fun _ => by decide) (.step true (.step true hup))
  have hwalk := (vertical_keeps_column hg rfl rfl rfl Count.typed_none rfl rfl hnormal).1 hreturn
    (rfl : [InputEvent.text '2', .text 'j', .text 'j', .text '3', .text 'k'].map (·.stroke?) = _)
  have hends := (vertical_keeps_column hg rfl rfl rfl Count.typed_none rfl rfl hnormal).2 hdown
    (rfl : [InputEvent.text '$', .text 'j'].map (·.stroke?) = _)
  exact ⟨hg, rfl, hnormal, hreturn, hwalk.2.2 (by decide), hends.2⟩

end Editor

end ModalEdit
