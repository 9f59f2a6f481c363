import ModalEdit.Proofs.Granting
import ModalEdit.Proofs.Landing
import ModalEdit.Proofs.LineList

/-!
# Operators on whole lines

On the list of lines, an operator with a range of whole lines is a list operation: deleting takes
the lines out, changing leaves one empty line in their place, yanking leaves the list alone, and
each writes the lines to a register (`operate_on_lines`).

The end of the text is the special case. A region that does not reach the last line is cut out from
the start of a line to the start of a later one. One that does has no line break of its own at its
end: the register gets one, deleting takes the one before the region instead, and changing takes
none.
-/

namespace ModalEdit

variable {t : Text} {range : Range}

/-! ## The lines of a range -/

namespace Range

/-- The first line that a range touches. -/
def firstLine (range : Range) (t : Text) : Nat :=
  t.lineOf (min range.start range.stop)

/-- The final line that a range touches. -/
def finalLine (range : Range) (t : Text) : Nat :=
  t.lineOf (max range.start range.stop)

theorem firstLine_le_finalLine (range : Range) (t : Text) :
    range.firstLine t ≤ range.finalLine t :=
  t.lineOf_mono (by omega)

theorem finalLine_le_lastLine (range : Range) (t : Text) : range.finalLine t ≤ t.lastLine :=
  t.lineOf_le_lastLine _

theorem firstLine_le_lastLine (range : Range) (t : Text) : range.firstLine t ≤ t.lastLine :=
  t.lineOf_le_lastLine _

/-- The lines that a range touches. -/
def touchedLines (range : Range) (t : Text) : List Text :=
  (t.lines.take (range.finalLine t + 1)).drop (range.firstLine t)

/-- The lines that a range does not touch. -/
def otherLines (range : Range) (t : Text) : List Text :=
  t.lines.take (range.firstLine t) ++ t.lines.drop (range.finalLine t + 1)

theorem touchedLines_ne_nil (range : Range) (t : Text) : range.touchedLines t ≠ [] := by
  have hle := range.firstLine_le_finalLine t
  have hlast := Text.lt_length_lines (range.finalLine_le_lastLine t)
  refine List.ne_nil_of_length_pos ?_
  rw [touchedLines, List.length_drop, List.length_take]
  omega

theorem lines_below_ne_nil (h : range.finalLine t < t.lastLine) :
    t.lines.drop (range.finalLine t + 1) ≠ [] := by
  rw [Ne, List.drop_eq_nil_iff, Nat.not_le]
  exact Text.lt_length_lines h

theorem otherLines_of_eq (h : range.finalLine t = t.lastLine) :
    range.otherLines t = t.lines.take (range.firstLine t) := by
  rw [otherLines, h, Text.drop_succ_lastLine, List.append_nil]

theorem lineBreak_notMem_of_mem_touchedLines {line : Text} (h : line ∈ range.touchedLines t) :
    '\n' ∉ line :=
  Text.lineBreak_notMem_of_mem_lines (List.mem_of_mem_take (List.mem_of_mem_drop h))

end Range

theorem Text.lineOf_min_length (t : Text) (i : Nat) : t.lineOf (min i t.length) = t.lineOf i := by
  unfold lineOf
  rw [← List.take_eq_take_min]

namespace Region

theorem ofRange_linewise (h : range.extent = .linewise) :
    ofRange t range =
      { start := t.lineStart (range.firstLine t)
        stop := min (t.lineEnd (range.finalLine t) + 1) t.length
        linewise := true
        lastLine := t.lastLine ≤ range.finalLine t } := by
  simp only [ofRange, h, Text.lineOf_min_length, Range.firstLine, Range.finalLine]
  rfl

theorem linewise_ofRange (h : range.extent = .linewise) : (ofRange t range).linewise = true := by
  rw [ofRange_linewise h]

theorem start_linewise (h : range.extent = .linewise) :
    (ofRange t range).start = t.lineStart (range.firstLine t) := by
  rw [ofRange_linewise h]

theorem lineOf_start_linewise (h : range.extent = .linewise) :
    t.lineOf (ofRange t range).start = range.firstLine t := by
  rw [start_linewise h, Text.lineOf_lineStart (range.firstLine_le_lastLine t)]

/-- A region of lines before the last one ends where the next line starts. -/
theorem ofRange_of_lt (h : range.extent = .linewise) (hlast : range.finalLine t < t.lastLine) :
    ofRange t range =
      ⟨t.lineStart (range.firstLine t), t.lineStart (range.finalLine t + 1), true, false⟩ := by
  have hstop := t.lineStart_le_length (range.finalLine t + 1)
  rw [Text.lineStart_succ hlast] at hstop
  rw [ofRange_linewise h, Text.lineStart_succ hlast, Nat.min_eq_left hstop,
    decide_eq_false (Nat.not_le.2 hlast)]

theorem ofRange_of_eq (h : range.extent = .linewise) (hlast : range.finalLine t = t.lastLine) :
    ofRange t range = ⟨t.lineStart (range.firstLine t), t.length, true, true⟩ := by
  rw [ofRange_linewise h, hlast, Text.lineEnd_lastLine, Nat.min_eq_right (Nat.le_succ _),
    decide_eq_true (Nat.le_refl _)]

/-- **The register gets the lines, the last one with a line break as well.** -/
theorem registerText_linewise (h : range.extent = .linewise) :
    (ofRange t range).registerText t = Text.ofLines (range.touchedLines t) := by
  rcases Nat.lt_or_eq_of_le (range.finalLine_le_lastLine t) with hlast | hlast
  · rw [ofRange_of_lt h hlast]
    show t.slice _ _ ++ [] = _
    rw [List.append_nil, Text.slice_lineStart (Nat.le_succ_of_le (range.firstLine_le_finalLine t))
      hlast]
    rfl
  · rw [ofRange_of_eq h hlast]
    show (t.take t.length).drop _ ++ ['\n'] = _
    rw [List.take_length, Text.drop_lineStart_append_lineBreak (range.firstLine_le_lastLine t),
      Range.touchedLines, hlast, Text.take_succ_lastLine]

theorem isVoid_linewise (h : range.extent = .linewise) (ht : t ≠ []) :
    (ofRange t range).isVoid = false := by
  have hlength : 0 < t.length := List.length_pos_iff.2 ht
  rw [ofRange_linewise h]
  rcases Nat.eq_zero_or_pos (t.lineStart (range.firstLine t)) with hstart | hstart
  · have hstop : 0 ≠ min (t.lineEnd (range.finalLine t) + 1) t.length := by omega
    simp [isVoid, isEmpty, hstart, hstop]
  · simp [isVoid, hstart]

/-- **Deleting takes the lines out.** Taking all of them out leaves an empty line. -/
theorem lines_deletion (h : range.extent = .linewise) :
    ((ofRange t range).deletion.apply t).lines =
      if range.otherLines t = [] then [[]] else range.otherLines t := by
  have hfirst := range.firstLine_le_lastLine t
  rcases Nat.lt_or_eq_of_le (range.finalLine_le_lastLine t) with hlast | hlast
  · -- the lines below stay
    have hne := List.append_ne_nil_of_right_ne_nil (t.lines.take (range.firstLine t))
      (range.lines_below_ne_nil hlast)
    rw [Range.otherLines, if_neg hne, ofRange_of_lt h hlast]
    exact Text.lines_splice_lineStart (Nat.le_succ_of_le (range.firstLine_le_finalLine t)) hlast
      (fun _ hline => absurd hline List.not_mem_nil)
  · rw [Range.otherLines_of_eq hlast, ofRange_of_eq h hlast]
    rcases Nat.eq_zero_or_pos (range.firstLine t) with hzero | hpos
    · -- every line is taken out
      have hempty : (Edit.deletion 0 t.length).apply t = [] := by
        simp [Edit.deletion, Edit.apply, Text.splice]
      rw [hzero, List.take_zero, if_pos rfl, Text.lineStart_zero]
      exact congrArg Text.lines hempty
    · -- the line break before the first one goes instead of one after the last
      have hstart := Text.lineStart_pos hfirst hpos
      have hle := t.lineStart_le_length (range.firstLine t)
      have htake : (Edit.deletion (t.lineStart (range.firstLine t) - 1) t.length).apply t =
          t.take (t.lineStart (range.firstLine t) - 1) := by
        have hmax : max (t.lineStart (range.firstLine t) - 1) t.length = t.length := by omega
        simp [Edit.deletion, Edit.apply, Text.splice, hmax]
      rw [if_neg (Text.take_lines_ne_nil hpos), ← Text.lines_take_lineStart_sub_one hfirst hpos,
        ← htake]
      simp only [deletion, Bool.true_and, decide_eq_true hstart, if_true]

/-- **Changing puts an empty line in place of the lines.** -/
theorem lines_splice_changeStop (h : range.extent = .linewise) :
    (t.splice (ofRange t range).start (ofRange t range).changeStop []).lines =
      t.lines.take (range.firstLine t) ++ [] :: t.lines.drop (range.finalLine t + 1) := by
  have hfirst := range.firstLine_le_lastLine t
  rcases Nat.lt_or_eq_of_le (range.finalLine_le_lastLine t) with hlast | hlast
  · -- the line break of the last line is kept
    have hends : t.lineStart (range.firstLine t) ≤ t.lineEnd (range.finalLine t) :=
      Nat.le_trans
        (Text.lineStart_mono (range.firstLine_le_finalLine t) (range.finalLine_le_lastLine t))
        (t.lineStart_le_lineEnd _)
    have hnext := Text.lineStart_succ hlast
    have hstop : (ofRange t range).changeStop = t.lineEnd (range.finalLine t) := by
      rw [ofRange_of_lt h hlast]
      simp only [changeStop]
      rw [if_pos (by simp; omega)]
      omega
    rw [hstop, ofRange_of_lt h hlast]
    show Text.lines (t.take (t.lineStart (range.firstLine t)) ++ ([] ++ t.drop (max _ _))) = _
    rw [Nat.max_eq_right hends, Text.drop_lineEnd hlast, Text.take_lineStart hfirst,
      Text.lines_ofLines_append fun _ => Text.lineBreak_notMem_of_mem_take, List.nil_append,
      ← List.nil_append ('\n' :: _), Text.lines_append_break, Text.lines_drop_lineStart hlast]
    rfl
  · rw [ofRange_of_eq h hlast]
    show Text.lines (t.splice _ t.length []) = _
    rw [Text.lines_splice_length hfirst, hlast, Text.drop_succ_lastLine]
    rfl

end Region

/-! ## Operators -/

/-- A register of whole lines reads back what was written, the clipboard's too. -/
theorem Registers.read_write_ofLines (r : Registers) (name : Char) {ls : List Text} (h : ls ≠ []) :
    (r.write name ⟨true, Text.ofLines ls⟩).read name = some ⟨true, Text.ofLines ls⟩ := by
  obtain ⟨u, hu⟩ := Text.ofLines_eq_append_lineBreak h
  exact r.read_write_of_linewise name (by simp [hu])

theorem Host.text_committed_changed {h : Host} {c : Commit} {region : Region}
    (hedit : c.edit = if region.start < region.changeStop then
      some (.deletion region.start region.changeStop) else none) :
    (h.committed c).text = h.text.splice region.start region.changeStop [] := by
  rw [Host.text_committed, hedit]
  by_cases hlt : region.start < region.changeStop
  · rw [if_pos hlt]
    rfl
  · rw [if_neg hlt, Text.splice, Nat.max_eq_left (Nat.not_lt.1 hlt), List.nil_append,
      List.take_append_drop]
    rfl

namespace Editor

variable {ed : Editor}

/-- The lines of a range were deleted: the others are left, or one empty line. The cursor rests on
the line that follows, or on the last one. -/
structure LinesDeleted (range : Range) (ed after : Editor) : Prop where
  lines : after.host.text.lines =
    if range.otherLines ed.host.text = [] then [[]] else range.otherLines ed.host.text
  cursor : after.CursorAt .normal (after.host.text.firstNonBlank
    (min (range.firstLine ed.host.text) after.host.text.lastLine))

/-- The lines of a range were changed: an empty line stands in their place, and text is typed
there. -/
structure LinesChanged (range : Range) (ed after : Editor) : Prop where
  lines : after.host.text.lines =
    ed.host.text.lines.take (range.firstLine ed.host.text) ++
      [] :: ed.host.text.lines.drop (range.finalLine ed.host.text + 1)
  cursor : after.CursorAt .insert (after.host.text.lineStart (range.firstLine ed.host.text))

theorem linesDeleted_committed (hlines : range.extent = .linewise) {c : Commit}
    (hedit : c.edit = some (Region.ofRange ed.host.text range).deletion)
    (hlanding : c.landing = .lineText (range.firstLine ed.host.text)) (hrest : c.rest = .normal) :
    LinesDeleted range ed (ed.committed c) := by
  refine ⟨?_, cursorAt_lineText hlanding hrest⟩
  show (ed.host.committed c).text.lines = _
  rw [Host.text_committed, hedit]
  exact Region.lines_deletion hlines

theorem linesChanged_committed (hlines : range.extent = .linewise) {c : Commit}
    (hedit : c.edit =
      if (Region.ofRange ed.host.text range).start < (Region.ofRange ed.host.text range).changeStop
      then some (.deletion (Region.ofRange ed.host.text range).start
        (Region.ofRange ed.host.text range).changeStop) else none)
    (hlanding : c.landing = .index (ed.host.text.lineStart (range.firstLine ed.host.text)))
    (hrest : c.rest = .insert) : LinesChanged range ed (ed.committed c) := by
  have hfirst := range.firstLine_le_lastLine ed.host.text
  have hlines' : (ed.committed c).host.text.lines =
      ed.host.text.lines.take (range.firstLine ed.host.text) ++
        [] :: ed.host.text.lines.drop (range.finalLine ed.host.text + 1) := by
    show (ed.host.committed c).text.lines = _
    rw [Host.text_committed_changed hedit]
    exact Region.lines_splice_changeStop hlines
  refine ⟨hlines', ?_⟩
  -- the lines above are the same, so the empty line starts where the first one did
  obtain ⟨-, hstart⟩ :=
    Text.lineStart_of_lines (Nat.le_succ_of_le hfirst) (List.cons_ne_nil _ _) hlines'
  rw [← Text.lineStart_eq_length hfirst] at hstart
  rw [hstart]
  refine cursorAt_index hlanding hrest ?_
  rw [← hstart]
  exact Text.lineStart_le_length _ _

/-- **An operator on whole lines is an operation on the list of lines.** Deleting takes the lines
out, changing leaves an empty line in their place, and yanking leaves the text. The register
selected gets the lines, each with a line break. -/
theorem operate_on_lines (hg : ed.host.Grants) (htext : ed.host.text ≠ [])
    (hlines : range.extent = .linewise) (op : Operator) (since : Stage) :
    ∃ after : Editor,
      carryOut (ed.session.planOperator ed.host.text ed.host.selection op range since) ed =
        .ok () after ∧
      after.session.registers.read ed.session.registerName =
        some ⟨true, Text.ofLines (range.touchedLines ed.host.text)⟩ ∧
      match op with
      | .delete => LinesDeleted range ed after
      | .change => LinesChanged range ed after
      | .yank => after.host.text = ed.host.text := by
  have hread := ed.session.registers.read_write_ofLines ed.session.registerName
    (range.touchedLines_ne_nil ed.host.text)
  simp only [Session.planOperator, Region.isVoid_linewise hlines htext, Bool.false_eq_true,
    false_and, if_false, Region.linewise_ofRange hlines, if_true,
    Region.registerText_linewise hlines]
  refine ⟨_, carryOut_granted hg _, ?_⟩
  cases op with
  | delete =>
    rw [Region.lineOf_start_linewise hlines]
    exact ⟨hread, linesDeleted_committed hlines rfl rfl rfl⟩
  | change =>
    have hlanding := congrArg Landing.index (Region.start_linewise (t := ed.host.text) hlines)
    exact ⟨hread, linesChanged_committed hlines rfl hlanding rfl⟩
  | yank => exact ⟨hread, rfl⟩

/-- The empty last line is deleted with the line before it. -/
theorem operate_on_lines_emptyLastLine :
    let ed : Editor := ⟨.new .normal {} none, .ofText ['a', '\n', ' ', 'b', '\n'] 3⟩
    ed.host.Grants ∧ ed.host.text ≠ [] ∧ (Range.linewise 5 3).extent = .linewise ∧
      ∃ after : Editor,
        carryOut (ed.session.planOperator ed.host.text ed.host.selection .delete (.linewise 5 3)
          .placed) ed = .ok () after ∧
        after.session.registers.read ed.session.registerName =
          some ⟨true, [' ', 'b', '\n', '\n']⟩ ∧
        after.host.text = ['a'] ∧ after.CursorAt .normal 0 := by
  intro ed
  have hg : ed.host.Grants := ⟨rfl, rfl, rfl⟩
  have htext : ed.host.text ≠ [] := by decide
  obtain ⟨after, hdone, hread, hdeleted⟩ :=
    operate_on_lines hg htext (rfl : (Range.linewise 5 3).extent = .linewise) .delete .placed
  have hleft : after.host.text = ['a'] := Text.lines_injective hdeleted.lines
  have hcursor := hdeleted.cursor
  rw [hleft] at hcursor
  exact ⟨hg, htext, rfl, after, hdone, hread, hleft, hcursor⟩

end Editor

end ModalEdit
