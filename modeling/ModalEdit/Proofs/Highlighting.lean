import ModalEdit.Proofs.LinewiseOperators
import ModalEdit.Proofs.Operating
import ModalEdit.Proofs.PuttingBack
import ModalEdit.Proofs.Showing
import ModalEdit.Proofs.Typing

/-!
# What is highlighted is what is operated on

The selection that the host shows and the range that a command on a visual selection takes are both
computed from the ends of the visual selection, and they agree (`highlight_operated`). The ends are
inclusive and may come in either order; the selection is half-open and goes the same way; the region
of the range is ordered and half-open. Of characters the region is the selection
(`ofRange_endpoints_charwise`), and of lines it is the lines that the selection spans
(`ofRange_endpoints_linewise`).

A selection that the host makes is taken the other way round, from the half-open selection to the
ends, and the region is the selection again (`selection_endpoints`).

Nothing is highlighted where the cursor is on the empty last line. Such a selection can be deleted
or changed, but yanking it leaves the registers as they are (`yank_nothing_highlighted`).
-/

namespace ModalEdit

variable {t : Text} {ends : Endpoints}

/-! ## Regions and selections -/

theorem Text.lineOf_min (t : Text) (i j : Nat) :
    t.lineOf (min i j) = min (t.lineOf i) (t.lineOf j) := by
  rcases Nat.le_total i j with h | h
  · rw [Nat.min_eq_left h, Nat.min_eq_left (t.lineOf_mono h)]
  · rw [Nat.min_eq_right h, Nat.min_eq_right (t.lineOf_mono h)]

theorem Text.lineOf_max (t : Text) (i j : Nat) :
    t.lineOf (max i j) = max (t.lineOf i) (t.lineOf j) := by
  rcases Nat.le_total i j with h | h
  · rw [Nat.max_eq_right h, Nat.max_eq_right (t.lineOf_mono h)]
  · rw [Nat.max_eq_left h, Nat.max_eq_left (t.lineOf_mono h)]

theorem Region.ofRange_congr_lines {range range' : Range} (h : range.extent = .linewise)
    (h' : range'.extent = .linewise) (hfirst : range.firstLine t = range'.firstLine t)
    (hfinal : range.finalLine t = range'.finalLine t) :
    Region.ofRange t range = Region.ofRange t range' := by
  rw [Region.ofRange_linewise h, Region.ofRange_linewise h', hfirst, hfinal]

namespace Endpoints

/-- The range that a command on a visual selection takes. -/
def range (ends : Endpoints) (kind : VisualKind) : Range :=
  ⟨min ends.anchor ends.cursor, max ends.anchor ends.cursor,
    if kind = .linewise then .linewise else .inclusive⟩

theorem ofRange_charwise (h : ends.cursor ≤ t.length) :
    Region.ofRange t (ends.range .charwise) =
      ⟨(ends.selection .charwise t).start, (ends.selection .charwise t).stop, false, false⟩ := by
  simp only [range, Region.ofRange, selection, reduceCtorEq, if_false, Region.mk.injEq, and_true]
  by_cases hle : ends.anchor ≤ ends.cursor
  · rw [if_pos hle]
    simp only [Selection.start, Selection.stop]
    omega
  · rw [if_neg hle]
    simp only [Selection.start, Selection.stop]
    omega

theorem firstLine_range (t : Text) (ends : Endpoints) (kind : VisualKind) :
    (ends.range kind).firstLine t = min (t.lineOf ends.anchor) (t.lineOf ends.cursor) := by
  have hmin : min (min ends.anchor ends.cursor) (max ends.anchor ends.cursor) =
      min ends.anchor ends.cursor := by omega
  rw [Range.firstLine, range, hmin, Text.lineOf_min]

theorem finalLine_range (t : Text) (ends : Endpoints) (kind : VisualKind) :
    (ends.range kind).finalLine t = max (t.lineOf ends.anchor) (t.lineOf ends.cursor) := by
  have hmax : max (min ends.anchor ends.cursor) (max ends.anchor ends.cursor) =
      max ends.anchor ends.cursor := by omega
  rw [Range.finalLine, range, hmax, Text.lineOf_max]

/-- What is shown of a selection of lines goes from the start of the first one to the end of the
final one. -/
theorem selection_linewise (t : Text) (ends : Endpoints) :
    (ends.selection .linewise t).start =
        t.lineStart (min (t.lineOf ends.anchor) (t.lineOf ends.cursor)) ∧
      (ends.selection .linewise t).stop =
        t.lineEnd (max (t.lineOf ends.anchor) (t.lineOf ends.cursor)) := by
  have horder {i j : Nat} (hij : i ≤ j) (hj : j ≤ t.lastLine) : t.lineStart i ≤ t.lineEnd j :=
    Nat.le_trans (Text.lineStart_mono hij hj) (t.lineStart_le_lineEnd j)
  simp only [selection, Selection.start, Selection.stop]
  split
  · rename_i hle
    have hends := horder hle (t.lineOf_le_lastLine ends.cursor)
    rw [Nat.min_eq_left hle, Nat.max_eq_right hle]
    exact ⟨Nat.min_eq_left hends, Nat.max_eq_right hends⟩
  · rename_i hlt
    have hle := Nat.le_of_not_le hlt
    have hends := horder hle (t.lineOf_le_lastLine ends.anchor)
    rw [Nat.min_eq_right hle, Nat.max_eq_left hle]
    exact ⟨Nat.min_eq_right hends, Nat.max_eq_left hends⟩

/-- The region of a selection of lines is that of the lines which are shown. -/
theorem ofRange_linewise (t : Text) (ends : Endpoints) :
    Region.ofRange t (ends.range .linewise) =
      Region.ofRange t (.linewise (ends.selection .linewise t).start
        (ends.selection .linewise t).stop) := by
  have hle := (ends.selection .linewise t).start_le_stop
  have hanchor := t.lineOf_le_lastLine ends.anchor
  have hcursor := t.lineOf_le_lastLine ends.cursor
  obtain ⟨hstart, hstop⟩ := selection_linewise t ends
  refine Region.ofRange_congr_lines rfl rfl ?_ ?_
  · rw [firstLine_range, Range.firstLine, Range.linewise, Nat.min_eq_left hle, hstart,
      Text.lineOf_lineStart (by omega)]
  · rw [finalLine_range, Range.finalLine, Range.linewise, Nat.max_eq_right hle, hstop,
      Text.lineOf_lineEnd (by omega)]

end Endpoints

/-- The ends that are taken of a selection with something in it hold just that, in either
direction. -/
theorem Selection.ofRange_endpoints {sel : Selection} (h : sel.isEmpty = false)
    (hwithin : sel.Within t.length) :
    Region.ofRange t (sel.endpoints.range .charwise) = ⟨sel.start, sel.stop, false, false⟩ := by
  have hne : sel.anchor ≠ sel.active := by simpa [isEmpty] using h
  obtain ⟨hanchor, hactive⟩ := hwithin
  simp only [Endpoints.range, Region.ofRange, endpoints, reduceCtorEq, if_false, Region.mk.injEq,
    and_true, start, stop]
  split
  · dsimp only
    omega
  · dsimp only
    omega

theorem Operator.apply_edit_chars {op : Operator} (hop : op ≠ .yank) {start stop : Nat}
    (hle : start ≤ stop) (t : Text) :
    (op.edit ⟨start, stop, false, false⟩).elim t (·.apply t) = t.splice start stop [] := by
  have hnone (h : stop ≤ start) : t = t.splice start stop [] := by
    rw [Text.splice, Nat.max_eq_left h, List.nil_append, List.take_append_drop]
  rcases Nat.eq_or_lt_of_le hle with rfl | hlt
  · cases op with
    | yank => exact absurd rfl hop
    | delete | change => simpa [edit, Region.isVoid, Region.isEmpty, Region.changeStop] using hnone
  · cases op with
    | yank => exact absurd rfl hop
    | delete | change =>
      have hne : start ≠ stop := Nat.ne_of_lt hlt
      simp [edit, Region.isVoid, Region.isEmpty, Region.changeStop, Region.deletion, hlt, hne]
      rfl

/-- There is nothing to operate on exactly if there are no characters. -/
theorem Region.isVoid_chars {start stop : Nat} (hle : start ≤ stop) (hstop : stop ≤ t.length) :
    Region.isVoid ⟨start, stop, false, false⟩ = true ↔ t.slice start stop = [] := by
  have hlength : (t.slice start stop).length = stop - start := by
    rw [Text.length_slice]
    omega
  rw [← List.length_eq_zero_iff, hlength]
  simp only [isVoid, isEmpty, Bool.false_and, Bool.not_false, Bool.and_true, beq_iff_eq]
  omega

theorem Region.isVoid_linewise_iff {range : Range} (h : range.extent = .linewise) :
    (Region.ofRange t range).isVoid = true ↔ t = [] := by
  constructor
  · intro hvoid
    by_contra ht
    rw [Region.isVoid_linewise h ht] at hvoid
    cases hvoid
  · rintro rfl
    obtain ⟨hle, hstop⟩ := Region.ofRange_le [] range
    have hstop : (Region.ofRange [] range).stop = 0 := Nat.le_zero.1 hstop
    have hstart : (Region.ofRange [] range).start = 0 := by omega
    simp [isVoid, isEmpty, hstart, hstop]

/-- The registers after the commit of an operator: a region that is not void is written. -/
theorem Session.registers_committed_operator (s : Session) (op : Operator) (t : Text) (r : Region)
    (cursor : Nat) (column : ColumnRule) :
    (s.committed (op.commit t r s.registerName cursor column)).registers =
      if r.isVoid = true then s.registers else s.registers.write s.registerName (r.register t) := by
  simp only [committed, settle, afterEdit, begin, Operator.commit, Region.write?]
  cases r.isVoid <;> rfl

/-! ## Keys on a visual selection -/

namespace Input

variable {i : Input} {config : Config} {c : Char} {kind : VisualKind}

theorem read_selectionKey {command : SelectionCommand} (hmode : i.mode = .visual kind)
    (hlookahead : i.lookahead = none) (hc : SelectionCommand.ofKey c = some command) :
    i.read t config c =
      (.command (.instant (.selection command) (i.count.getD 1)), { i with count := none }) := by
  have hdoubles : i.doublesOperator c = false := by simp [doublesOperator, hmode]
  simp [read, hlookahead, readKey, hdoubles, hmode, Mode.isVisual, hc, readInstant,
    Instant.defaultCount]

theorem completes_replaceKeys (hmode : i.mode = .visual kind) (hlookahead : i.lookahead = none)
    (t : Text) (config : Config) (c : Char) :
    Completes t config i ['r', c] (.replace c (i.count.getD 1)) { i with count := none } := by
  obtain ⟨mode, lookahead, count, operator, register, groups⟩ := i
  obtain rfl : mode = .visual kind := hmode
  obtain rfl : lookahead = none := hlookahead
  exact .more _ nofun rfl (.last nofun rfl)

end Input

namespace Editor

variable {ed : Editor} {kind : VisualKind} {P : Editor → Prop}

/-- A visual selection of this kind has these ends, and the next key is no argument. -/
structure Selects (ed : Editor) (kind : VisualKind) (ends : Endpoints) : Prop where
  grants : ed.host.Grants
  mode : ed.session.mode = .visual kind
  lookahead : ed.session.input.lookahead = none
  visual : ed.session.visual = some ends

/-- It is shown by the host. -/
structure Highlights (ed : Editor) (kind : VisualKind) (ends : Endpoints) : Prop
    extends ed.Selects kind ends where
  cursor_le : ends.cursor ≤ ed.host.text.length
  selection : ed.host.selection = ends.selection kind ed.host.text

theorem Selects.selectionRange (h : ed.Selects kind ends) :
    ed.session.selectionRange false = some (ends.range kind) := by
  simp [Session.selectionRange, h.mode, h.visual, Endpoints.range]

theorem types_selection (h : ed.Selects kind ends) {c : Char} {command : SelectionCommand}
    (hc : SelectionCommand.ofKey c = some command) {commit : Commit}
    (hplan : ed.session.planSelection ed.host.text ed.host.selection command = .commit commit)
    (hP : ∀ after, After commit ed after → P after) : Types ed [.char c] P := by
  have hmode : ed.session.mode ≠ .insert := by rw [h.mode]; nofun
  refine types_command hmode (Input.read_selectionKey h.mode h.lookahead hc)
    (ends_execute_after h.grants ?_ hP)
  rw [← hplan]
  cases command <;> rfl

/-- Replacing a text by a character leaves the line breaks. -/
def replaceAll (c : Char) (text : Text) : Text :=
  text.map fun d => if d = '\n' then d else c

theorem types_replaceSelection (h : ed.Selects kind ends) {c : Char} {commit : Commit}
    (hplan : ed.session.planTransform ed.host.text (replaceAll c) true = .commit commit)
    (hP : ∀ after, After commit ed after → P after) :
    Types ed [.char 'r', .char c] P := by
  have hkeys := Input.completes_replaceKeys h.mode h.lookahead ed.host.text ed.session.config c
  have hvisual : ed.session.mode.isVisual = true := by rw [h.mode]; rfl
  refine types_completes hkeys (ends_execute_after h.grants ?_ hP)
  exact (congrArg some (if_pos hvisual)).trans (congrArg some hplan)

/-- A key that operates on the selection comes to the commit of its operator. -/
theorem types_operateSelection (h : ed.Selects kind ends) {c : Char}
    {command : SelectionCommand} {op : Operator} (hc : SelectionCommand.ofKey c = some command)
    (hop : command.operator? = some (op, false))
    (hP : ∀ column after,
      After (op.commit ed.host.text (Region.ofRange ed.host.text (ends.range kind))
        ed.session.registerName (ed.session.cursor ed.host.text ed.host.selection) column)
          ed after → P after) : Types ed [.char c] P := by
  obtain ⟨column, hplan⟩ := ed.session.planOperator_eq ed.host.text ed.host.selection op
    (ends.range kind) .placed
  refine types_selection h hc ?_ (hP column)
  rw [Session.planSelection_of_operator hop, Session.planOperateSelection, h.selectionRange]
  exact hplan

/-- The commit of a transformation of a region. -/
def transformed (t : Text) (r : Region) (f : Text → Text) (always : Bool) : Commit :=
  let old := t.slice r.start r.stop
  { edit := if always || f old != old then some ⟨r.start, r.stop, f old⟩ else none
    landing := .index r.start }

theorem planTransform_eq (h : ed.Selects kind ends) (f : Text → Text) (always : Bool) :
    ed.session.planTransform ed.host.text f always =
      .commit (transformed ed.host.text (Region.ofRange ed.host.text (ends.range kind)) f
        always) := by
  rw [Session.planTransform, h.selectionRange]
  rfl

theorem After.text_transformed {range : Range} {f : Text → Text} {always : Bool} {after : Editor}
    (h : After (transformed ed.host.text (Region.ofRange ed.host.text range) f always) ed after) :
    after.host.text =
      ed.host.text.splice (Region.ofRange ed.host.text range).start
        (Region.ofRange ed.host.text range).stop
        (f (ed.host.text.slice (Region.ofRange ed.host.text range).start
          (Region.ofRange ed.host.text range).stop)) := by
  rw [h.host, Host.text_committed]
  simp only [transformed]
  split
  · rfl
  · rename_i hsame
    simp only [Bool.or_eq_true, bne_iff_ne, not_or, not_not] at hsame
    rw [hsame.2, Text.splice_slice_self (Region.ofRange_le _ range).1]
    rfl

/-! ## Characters -/

/-- The characters that the host shows as selected. -/
def highlighted (ed : Editor) : Text :=
  ed.host.text.slice ed.host.selection.start ed.host.selection.stop

/-- The text with other characters in the place of those selected. -/
def withHighlighted (ed : Editor) (text : Text) : Text :=
  ed.host.text.splice ed.host.selection.start ed.host.selection.stop text

/-- Commands on a visual selection of characters take exactly those that the host shows as
selected. -/
structure CharsOperated (ed : Editor) : Prop where
  delete : Types ed [.char 'd'] fun after => after.host.text = ed.withHighlighted []
  change : Types ed [.char 'c'] fun after => after.host.text = ed.withHighlighted []
  /-- Yanking nothing leaves the registers. -/
  yank : Types ed [.char 'y'] fun after =>
    after.host.text = ed.host.text ∧
      after.session.registers =
        if ed.highlighted = [] then ed.session.registers
        else ed.session.registers.write ed.session.registerName ⟨false, ed.highlighted⟩
  replace (c : Char) : Types ed [.char 'r', .char c] fun after =>
    after.host.text = ed.withHighlighted (replaceAll c ed.highlighted)
  lowerCase : Types ed [.char 'u'] fun after =>
    after.host.text = ed.withHighlighted (Unicode.lowerText ed.highlighted)
  upperCase : Types ed [.char 'U'] fun after =>
    after.host.text = ed.withHighlighted (Unicode.upperText ed.highlighted)

/-- A key that deletes or changes characters takes out the region of the selection. -/
theorem types_removeChars (h : ed.Selects .charwise ends) {c : Char} {command : SelectionCommand}
    {op : Operator} (hc : SelectionCommand.ofKey c = some command)
    (hop : command.operator? = some (op, false)) (hyank : op ≠ .yank) {start stop : Nat}
    (hle : start ≤ stop)
    (hregion : Region.ofRange ed.host.text (ends.range .charwise) = ⟨start, stop, false, false⟩) :
    Types ed [.char c] fun after =>
      after.host.text = ed.host.text.splice start stop [] := by
  refine types_operateSelection h hc hop fun column after hafter => ?_
  rw [hafter.host, Host.text_committed, hregion]
  exact Operator.apply_edit_chars hyank hle ed.host.text

section Chars

variable (h : ed.Highlights .charwise ends)

include h

theorem Highlights.ofRange_charwise :
    Region.ofRange ed.host.text (ends.range .charwise) =
      ⟨ed.host.selection.start, ed.host.selection.stop, false, false⟩ := by
  rw [h.selection]
  exact Endpoints.ofRange_charwise h.cursor_le

theorem types_yankChars : Types ed [.char 'y'] fun after =>
    after.host.text = ed.host.text ∧
      after.session.registers =
        if ed.highlighted = [] then ed.session.registers
        else ed.session.registers.write ed.session.registerName ⟨false, ed.highlighted⟩ := by
  have hstop : ed.host.selection.stop ≤ ed.host.text.length := by
    have hwithin := Endpoints.selection_within h.cursor_le .charwise
    rw [← h.selection] at hwithin
    exact Nat.max_le.2 hwithin
  refine types_operateSelection h.toSelects rfl rfl fun column after hafter => ⟨?_, ?_⟩
  · rw [hafter.host, Host.text_committed]
    rfl
  · rw [hafter.registers, Session.registers_committed_operator, h.ofRange_charwise]
    simp only [Region.isVoid_chars ed.host.selection.start_le_stop hstop, Region.register,
      Region.registerText, Bool.false_eq_true, if_false, List.append_nil]
    rfl

theorem types_transformChars {c : Char} {command : SelectionCommand} {f : Text → Text}
    (hc : SelectionCommand.ofKey c = some command)
    (hcommand : ∀ s : Session, s.planSelection ed.host.text ed.host.selection command =
      s.planTransform ed.host.text f false) :
    Types ed [.char c] fun after => after.host.text = ed.withHighlighted (f ed.highlighted) := by
  refine types_selection h.toSelects hc
    ((hcommand ed.session).trans (planTransform_eq h.toSelects f false)) ?_
  intro after hafter
  have htext := hafter.text_transformed
  rwa [h.ofRange_charwise] at htext

theorem types_replaceChars (c : Char) :
    Types ed [.char 'r', .char c] fun after =>
      after.host.text = ed.withHighlighted (replaceAll c ed.highlighted) := by
  refine types_replaceSelection h.toSelects (planTransform_eq h.toSelects (replaceAll c) true) ?_
  intro after hafter
  have htext := hafter.text_transformed
  rwa [h.ofRange_charwise] at htext

/-- **Of characters, what is highlighted is what is operated on.** -/
theorem charsOperated : ed.CharsOperated where
  delete := types_removeChars h.toSelects rfl rfl (by decide) ed.host.selection.start_le_stop
    h.ofRange_charwise
  change := types_removeChars h.toSelects rfl rfl (by decide) ed.host.selection.start_le_stop
    h.ofRange_charwise
  yank := types_yankChars h
  replace := types_replaceChars h
  lowerCase := types_transformChars h rfl fun _ => rfl
  upperCase := types_transformChars h rfl fun _ => rfl

end Chars

/-! ## Lines -/

/-- The lines that the host's selection spans. -/
def highlightedLines (ed : Editor) : Range :=
  .linewise ed.host.selection.start ed.host.selection.stop

/-- The text with another one in the place of the lines that the host's selection spans. -/
def withHighlightedLines (ed : Editor) (f : Text → Text) : Text :=
  let region := Region.ofRange ed.host.text ed.highlightedLines
  ed.host.text.splice region.start region.stop (f (ed.host.text.slice region.start region.stop))

/-- Commands on a visual selection of lines take exactly the lines that the host's selection
spans. -/
structure LinesOperated (ed : Editor) : Prop where
  delete : Types ed [.char 'd'] (LinesDeleted ed.highlightedLines ed)
  change : Types ed [.char 'c'] (LinesChanged ed.highlightedLines ed)
  /-- Yanking from the empty text leaves the registers. -/
  yank : Types ed [.char 'y'] fun after =>
    after.host.text = ed.host.text ∧
      after.session.registers =
        if ed.host.text = [] then ed.session.registers
        else ed.session.registers.write ed.session.registerName
          ⟨true, Text.ofLines (ed.highlightedLines.touchedLines ed.host.text)⟩
  replace (c : Char) : Types ed [.char 'r', .char c] fun after =>
    after.host.text = ed.withHighlightedLines (replaceAll c)
  lowerCase : Types ed [.char 'u'] fun after =>
    after.host.text = ed.withHighlightedLines Unicode.lowerText
  upperCase : Types ed [.char 'U'] fun after =>
    after.host.text = ed.withHighlightedLines Unicode.upperText

section Lines

variable {range : Range} {c : Commit} {after : Editor}

theorem After.cursorAt (h : After c ed after) {mode : Mode} {i : Nat}
    (hcursor : (ed.committed c).CursorAt mode i) : after.CursorAt mode i :=
  ⟨h.mode.trans hcursor.mode, (congrArg Host.selection h.host).trans hcursor.selection⟩

theorem After.linesDeleted (h : After c ed after)
    (hlines : LinesDeleted range ed (ed.committed c)) :
    LinesDeleted range ed after := by
  have hhost : after.host = (ed.committed c).host := h.host
  refine ⟨?_, ?_⟩
  · rw [hhost]
    exact hlines.lines
  · rw [hhost]
    exact h.cursorAt hlines.cursor

theorem After.linesChanged (h : After c ed after)
    (hlines : LinesChanged range ed (ed.committed c)) :
    LinesChanged range ed after := by
  have hhost : after.host = (ed.committed c).host := h.host
  refine ⟨?_, ?_⟩
  · rw [hhost]
    exact hlines.lines
  · rw [hhost]
    exact h.cursorAt hlines.cursor

/-- Deleting nothing deletes the one empty line of the empty text, which is left again. -/
theorem linesDeleted_of_nil (htext : ed.host.text = []) (hedit : c.edit = none)
    (hrest : c.rest = .normal) : LinesDeleted range ed (ed.committed c) := by
  have hleft : (ed.committed c).host.text = [] := by
    rw [← htext]
    show (ed.host.committed c).text = _
    rw [Host.text_committed, hedit]
    rfl
  have hzero {i : Nat} (hi : i ≤ (ed.committed c).host.text.length) : i = 0 := by
    rw [hleft] at hi
    exact Nat.le_zero.1 hi
  have hlast : ed.host.text.lastLine = 0 := by rw [htext]; rfl
  have hfirst := range.firstLine_le_lastLine ed.host.text
  have hfinal := range.finalLine_le_lastLine ed.host.text
  have hothers : range.otherLines ed.host.text = [] := by
    rw [Range.otherLines_of_eq (by omega), show range.firstLine ed.host.text = 0 by omega]
    rfl
  refine ⟨?_, ?_, ?_⟩
  · rw [hothers, if_pos rfl, hleft]
    rfl
  · show c.rest.mode = .normal
    rw [hrest]
    rfl
  · rw [hzero (Text.firstNonBlank_le_length _ _)]
    exact congrArg Selection.cursor (hzero (c.cursor_le _))

variable (h : ed.Highlights .linewise ends)

include h

theorem Highlights.ofRange_linewise :
    Region.ofRange ed.host.text (ends.range .linewise) =
      Region.ofRange ed.host.text ed.highlightedLines := by
  rw [highlightedLines, h.selection]
  exact Endpoints.ofRange_linewise ed.host.text ends

theorem types_changeLines : Types ed [.char 'c'] (LinesChanged ed.highlightedLines ed) := by
  refine types_operateSelection h.toSelects rfl rfl fun column after hafter => ?_
  rw [h.ofRange_linewise] at hafter
  refine hafter.linesChanged (linesChanged_committed rfl rfl ?_ rfl)
  exact congrArg Landing.index (Region.start_linewise rfl)

theorem types_deleteLines : Types ed [.char 'd'] (LinesDeleted ed.highlightedLines ed) := by
  refine types_operateSelection h.toSelects rfl rfl fun column after hafter => ?_
  rw [h.ofRange_linewise] at hafter
  refine hafter.linesDeleted ?_
  have hvoid := Region.isVoid_linewise_iff (t := ed.host.text)
    (rfl : ed.highlightedLines.extent = .linewise)
  by_cases htext : ed.host.text = []
  · exact linesDeleted_of_nil htext (if_pos (hvoid.2 htext)) rfl
  · have hnot := mt hvoid.1 htext
    refine linesDeleted_committed rfl (if_neg hnot) ?_ rfl
    simp only [Operator.commit, Operator.landing]
    rw [if_neg hnot, if_pos (Region.linewise_ofRange rfl), Region.lineOf_start_linewise rfl]

theorem types_yankLines : Types ed [.char 'y'] fun after =>
    after.host.text = ed.host.text ∧
      after.session.registers =
        if ed.host.text = [] then ed.session.registers
        else ed.session.registers.write ed.session.registerName
          ⟨true, Text.ofLines (ed.highlightedLines.touchedLines ed.host.text)⟩ := by
  refine types_operateSelection h.toSelects rfl rfl fun column after hafter => ⟨?_, ?_⟩
  · rw [hafter.host, Host.text_committed]
    rfl
  · rw [hafter.registers, Session.registers_committed_operator, h.ofRange_linewise, Region.register,
      Region.linewise_ofRange rfl, Region.registerText_linewise rfl]
    simp only [Region.isVoid_linewise_iff (rfl : ed.highlightedLines.extent = .linewise)]

theorem types_transformLines {c : Char} {command : SelectionCommand} {f : Text → Text}
    (hc : SelectionCommand.ofKey c = some command)
    (hcommand : ∀ s : Session, s.planSelection ed.host.text ed.host.selection command =
      s.planTransform ed.host.text f false) :
    Types ed [.char c] fun after => after.host.text = ed.withHighlightedLines f := by
  refine types_selection h.toSelects hc
    ((hcommand ed.session).trans (planTransform_eq h.toSelects f false)) ?_
  intro after hafter
  have htext := hafter.text_transformed
  rwa [h.ofRange_linewise] at htext

theorem types_replaceLines (c : Char) : Types ed [.char 'r', .char c] fun after =>
    after.host.text = ed.withHighlightedLines (replaceAll c) := by
  refine types_replaceSelection h.toSelects (planTransform_eq h.toSelects (replaceAll c) true) ?_
  intro after hafter
  have htext := hafter.text_transformed
  rwa [h.ofRange_linewise] at htext

/-- **Of lines, what is highlighted is what is operated on.** -/
theorem linesOperated : ed.LinesOperated where
  delete := types_deleteLines h
  change := types_changeLines h
  yank := types_yankLines h
  replace := types_replaceLines h
  lowerCase := types_transformLines h rfl fun _ => rfl
  upperCase := types_transformLines h rfl fun _ => rfl

end Lines

/-! ## Both ways -/

/-- The host makes a selection and reports it, with others. -/
def selectedByHost (ed : Editor) (sel : Selection) (others : List Selection) : Editor :=
  (ed.happen (.hostChanges { ed.host with selection := sel })).happen
    (.selectionsReported (sel :: others))

theorem selects_selectedByHost (hg : ed.host.Grants) (hmode : ed.session.mode = .normal)
    {sel : Selection} (hsel : sel.isEmpty = false) (others : List Selection) :
    (ed.selectedByHost sel others).Selects .charwise sel.endpoints := by
  have hnoted : ed.session.noteSelections (sel :: others) =
      { ed.session with
        visual := some sel.endpoints
        input := ed.session.input.switch (.visual .charwise) } := by
    simp only [Session.noteSelections, hmode, hsel]
    rfl
  have hed : ed.selectedByHost sel others =
      ⟨ed.session.noteSelections (sel :: others), { ed.host with selection := sel }⟩ := rfl
  rw [hed, hnoted]
  exact ⟨⟨hg.edits, hg.selections, hg.undos⟩, rfl, rfl, rfl⟩

/-- **What is highlighted is what is operated on.**

A visual selection that keys have made is shown by the host, and commands on it take what is
shown: exactly the selected characters, or exactly the lines that the selection spans. The keys may
be any, from any state without a visual selection, on a host that refuses nothing and changes
nothing by itself. Only yanking nothing leaves the registers as they are.

A selection with something in it that the host makes in Normal mode is what `d` removes. -/
theorem highlight_operated (rest : Rest) (config : Config) (clipboard : Option (Option Text))
    (host : Host) (past : List Happening) (start : Editor)
    (hstart : start = (⟨Session.new rest.mode config clipboard, host⟩ : Editor).happenAll past)
    (hg : start.host.Grants) :
    (start.session.visual = none → ∀ history : List Happening,
      (∀ x ∈ history, x.isInput = true) →
        let ed := start.happenAll history
        ∀ kind, ed.session.mode = .visual kind →
          ∃ ends, ed.session.visual = some ends ∧
            ed.host.selection = ends.selection kind ed.host.text ∧
            (ed.session.input.lookahead = none →
              match kind with
              | .charwise => ed.CharsOperated
              | .linewise => ed.LinesOperated)) ∧
    (start.session.mode = .normal → ∀ (sel : Selection) (others : List Selection),
      sel.isEmpty = false → sel.Within start.host.text.length →
        Types (start.selectedByHost sel others) [.char 'd'] fun after =>
          after.host.text = start.host.text.splice sel.start sel.stop []) := by
  refine ⟨?_, ?_⟩
  · intro hvisual history hinput ed kind hmode
    have hshowing : start.RestsShowing :=
      ⟨hstart ▸ resting_happenAll rest config clipboard host past, shows_of_visual_none hg hvisual⟩
    obtain ⟨hrest, hshows⟩ : ed.RestsShowing := restsShowing_happenAll hshowing hinput
    have hopen := hrest.1.open_of (by rw [hmode]; nofun) (by rw [hmode]; nofun)
    have hkind : ed.session.input.mode = .visual kind := hmode
    obtain ⟨ends, hends⟩ := Option.isSome_iff_exists.1 (hopen.visual_iff.2 (by rw [hkind]; rfl))
    obtain ⟨hcursor, kind', hstanding, hselection⟩ := hshows.shown ends hends
    rw [hopen.input.standing, hkind] at hstanding
    cases hstanding
    refine ⟨ends, hends, hselection, fun hlookahead => ?_⟩
    have hhighlights : ed.Highlights kind ends :=
      ⟨⟨hshows.grants, hmode, hlookahead, hends⟩, hcursor, hselection⟩
    cases kind with
    | charwise => exact charsOperated hhighlights
    | linewise => exact linesOperated hhighlights
  · intro hmode sel others hsel hwithin
    have hselects := selects_selectedByHost hg hmode hsel others
    have hregion := sel.ofRange_endpoints hsel hwithin
    exact types_removeChars hselects rfl rfl (by decide) sel.start_le_stop hregion

/-- Two characters are selected by keys, and one by the host from its end to its start. -/
theorem highlight_operated_middle :
    let start : Editor := ⟨Session.new .normal {} none, .ofText ['a', 'b', 'c'] 1⟩
    let ed := start.happenAll [.event (.text 'v'), .event (.text 'h')]
    start.host.Grants ∧ ed.session.mode = .visual .charwise ∧
      (∃ ends, ed.session.visual = some ends ∧ ed.host.selection = ⟨2, 0⟩) ∧
      (ed.pressAll [.text 'd']).2.host.text = ['c'] ∧
      ((start.selectedByHost ⟨2, 1⟩ []).pressAll [.text 'd']).2.host.text = ['a', 'c'] := by
  intro start ed
  have hg : start.host.Grants := ⟨rfl, rfl, rfl⟩
  obtain ⟨hkeys, hhost⟩ :=
    highlight_operated .normal {} none (.ofText ['a', 'b', 'c'] 1) [] start rfl hg
  have hmode : ed.session.mode = .visual .charwise := by decide
  obtain ⟨ends, hends, hselection, hoperated⟩ :=
    hkeys rfl [.event (.text 'v'), .event (.text 'h')] (by decide) .charwise hmode
  have hchars : ed.CharsOperated := hoperated (by decide)
  have hshown : ed.host.selection = ⟨2, 0⟩ := by decide
  have hleft : ed.withHighlighted [] = ['c'] := by decide
  have hdeleted := hhost rfl ⟨2, 1⟩ [] rfl ⟨by decide, by decide⟩ [.text 'd'] rfl
  exact ⟨hg, hmode, ⟨ends, hends, hshown⟩, (hchars.delete [.text 'd'] rfl).trans hleft, hdeleted⟩

/-- On the empty last line nothing is highlighted, and yanking it leaves what was yanked before. -/
theorem yank_nothing_highlighted :
    let start : Editor := ⟨Session.new .normal {} none, .ofText ['a', '\n'] 0⟩
    let ed := (start.pressAll [.text 'y', .text 'l', .text 'j', .text 'v']).2
    let after := (ed.press (.text 'y')).2
    start.host.Grants ∧ ed.session.mode = .visual .charwise ∧ ed.highlighted = [] ∧
      after.session.registers.read Registers.unnamed = some ⟨false, ['a']⟩ ∧
      after.session.registers.read Registers.unnamed ≠ some ⟨false, ed.highlighted⟩ := by
  intro start ed after
  exact ⟨⟨rfl, rfl, rfl⟩, by decide, by decide, by decide, by decide⟩

end Editor

end ModalEdit
