import ModalEdit.Proofs.LinePuts
import ModalEdit.Proofs.LinewiseOperators
import ModalEdit.Proofs.Operating
import ModalEdit.Proofs.Splices

/-!
# Putting back what was deleted

What a command deleted into the unnamed register is put back by one put (`put_restores`).

**Characters.** The cursor goes to where they were cut out, and a put before it inserts them there.
Where the cut leaves no character the cursor is pulled back one column, and a put after it inserts
at the same place.

**Lines.** The put inserts the lines deleted into the list of the other lines. The cursor is on the
line that followed them, and a put before it puts them back in their place, or it is on the last
line and a put after it does. Only when every line was deleted is there an empty line too many.
-/

namespace ModalEdit

variable {t : Text} {range : Range}

/-! ## Commands that delete -/

namespace Session

/-- A command deletes a range: `d` with a motion or a text object, `x`, `X`, `D`, or `d` on a visual
selection. -/
def Deletes (s : Session) (t : Text) (sel : Selection) (command : Command) (range : Range) : Prop :=
  s.Operates t sel command .delete range

end Session

/-! ## Texts and lines put together again -/

namespace Text

variable {i j : Nat}

theorem utf8Length_splice_nil (hij : i ≤ j) (t : Text) :
    t.utf8Length = (t.splice i j []).utf8Length + (t.slice i j).utf8Length := by
  have hparts := congrArg utf8Length (take_append_between_append_drop hij t)
  simp only [utf8Length_append] at hparts
  simp only [splice, slice, Nat.max_eq_right hij, List.nil_append, utf8Length_append]
  omega

end Text

namespace Range

theorem otherLines_reinserted (range : Range) (t : Text) :
    (range.otherLines t).take (range.firstLine t) ++
      (range.touchedLines t ++ (range.otherLines t).drop (range.firstLine t)) = t.lines := by
  have habove := Text.length_take_lines (Nat.le_succ_of_le (range.firstLine_le_lastLine t))
  rw [otherLines, List.take_left' habove, List.drop_left' habove]
  exact Text.take_append_between_append_drop (Nat.le_succ_of_le (range.firstLine_le_finalLine t)) _

/-- The bytes of a text are those of the lines of a range and those of the text of the others. -/
theorem utf8Length_touchedLines {u : Text} (h : u.lines = range.otherLines t) :
    t.utf8Length = u.utf8Length + (Text.ofLines (range.touchedLines t)).utf8Length := by
  have hall := t.utf8Length_ofLines_lines
  have hothers := u.utf8Length_ofLines_lines
  rw [← range.otherLines_reinserted t, Text.ofLines_append, Text.ofLines_append] at hall
  rw [h, ← List.take_append_drop (range.firstLine t) (range.otherLines t),
    Text.ofLines_append] at hothers
  simp only [Text.utf8Length_append] at hall hothers
  omega

end Range

theorem Region.ofRange_of_ne_linewise (h : range.extent ≠ .linewise) :
    ∃ start stop, ofRange t range = ⟨start, stop, false, false⟩ := by
  unfold ofRange
  cases hextent : range.extent with
  | linewise => exact absurd hextent h
  | inclusive => exact ⟨_, _, rfl⟩
  | exclusive => exact ⟨_, _, rfl⟩

/-! ## Puts -/

namespace Editor

variable {ed : Editor} {reg : Register} {text : Text} {event : InputEvent} {below : Bool}

/-- A put is granted and puts the text of a register once. -/
structure Holds (ed : Editor) (reg : Register) : Prop where
  grants : ed.host.Grants
  mode : ed.session.mode = .normal
  lookahead : ed.session.input.lookahead = none
  count : ed.session.input.count = none
  read : ed.session.registers.read ed.session.registerName = some reg

theorem Holds.cursor_eq (h : ed.Holds reg) {i : Nat} (hi : i ≤ ed.host.text.length)
    (hselection : ed.host.selection = .cursor i) :
    ed.session.cursor ed.host.text ed.host.selection = i := by
  rw [Session.cursor_eq (by rw [h.mode]; rfl), hselection]
  exact Nat.min_eq_left hi

theorem Holds.text_put (h : ed.Holds ⟨false, text⟩) (hfits : text.utf8Length ≤ Session.putLimit)
    (below : Bool) (hstroke : event.stroke? = some (.char (if below then 'p' else 'P'))) :
    (ed.press event).2.host.text =
      (Session.putChars ed.host.text text below
        (ed.session.cursor ed.host.text ed.host.selection)).1.apply ed.host.text := by
  have hplan : ed.session.planPut ed.host.text ed.host.selection 1 below =
      .commit
        { edit := (Session.putChars ed.host.text text below
            (ed.session.cursor ed.host.text ed.host.selection)).1
          landing := (Session.putChars ed.host.text text below
            (ed.session.cursor ed.host.text ed.host.selection)).2 } := by
    simp only [Session.planPut, h.read, Nat.mul_one, if_pos hfits, Text.copies_one,
      Bool.false_eq_true, if_false]
  obtain ⟨lastChange, recording, hpress⟩ := press_put h.grants h.mode h.lookahead hstroke
    (congrArg (Option.getD · 1) h.count) (Nat.le_refl 1) hplan
  rw [hpress]
  rfl

theorem Holds.lines_put {ls : List Text} (h : ed.Holds ⟨true, Text.ofLines ls⟩)
    (hfits : (Text.ofLines ls).utf8Length ≤ Session.putLimit) (hne : ls ≠ [])
    (hls : ∀ line ∈ ls, '\n' ∉ line)
    (hstroke : event.stroke? = some (.char (if below then 'p' else 'P'))) {k : Nat}
    (hk : insertedLine below
      (ed.host.text.lineOf (ed.session.cursor ed.host.text ed.host.selection)) = k) :
    (ed.press event).2.host.text.lines =
      ed.host.text.lines.take k ++ (ls ++ ed.host.text.lines.drop k) := by
  have honce : (List.replicate 1 ls).flatten = ls := by simp
  obtain ⟨c, hplan, hlines, -, -⟩ := Session.planPut_ofLines (n := 1) h.read
    (by rwa [Nat.mul_one]) (by rwa [honce]) hls below
  obtain ⟨lastChange, recording, hpress⟩ := press_put h.grants h.mode h.lookahead hstroke
    (congrArg (Option.getD · 1) h.count) (Nat.le_refl 1) hplan
  rw [honce, hk] at hlines
  rw [hpress]
  exact (congrArg Text.lines (Host.text_committed c ed.host)).trans hlines

/-! ## After a deletion -/

/-- A key puts a text back. -/
def PutRestores (t : Text) (key : Char) (ed : Editor) : Prop :=
  ∀ event : InputEvent, event.stroke? = some (.char key) → (ed.press event).2.host.text = t

theorem restores_chars {start stop : Nat} (hle : start ≤ stop) (hstop : stop ≤ t.length)
    (h : ed.Holds ⟨false, t.slice start stop⟩) (htext : ed.host.text = t.splice start stop [])
    (hfits : t.utf8Length ≤ ed.host.text.utf8Length + Session.putLimit)
    (hselection : ed.host.selection = .cursor (ed.host.text.restingIndex start)) :
    (ed.host.selection = .cursor start ∧ ed.PutRestores t 'P') ∨
      0 < start ∧ ed.host.selection = .cursor (start - 1) ∧ ed.PutRestores t 'p' := by
  have hbytes := Text.utf8Length_splice_nil hle t
  rw [htext] at hfits
  have hslice : (t.slice start stop).utf8Length ≤ Session.putLimit := by omega
  have hlength : start ≤ ed.host.text.length := by
    rw [htext, Text.length_splice]
    omega
  have hback := Text.splice_slice hle hstop
  rcases Text.restingIndex_cases hlength with hrest | ⟨hpos, hrest, hend⟩
  · rw [hrest] at hselection
    refine Or.inl ⟨hselection, fun event hstroke => ?_⟩
    rw [h.text_put hslice false hstroke, h.cursor_eq hlength hselection, htext]
    exact hback
  · -- the cursor was pulled back, and what is put after it goes to the end of its line
    rw [hrest] at hselection
    refine Or.inr ⟨hpos, hselection, fun event hstroke => ?_⟩
    have hplace : min (start - 1 + 1) (ed.host.text.lineEnd (ed.host.text.lineOf (start - 1))) =
        start := by
      rw [hend]
      omega
    rw [h.text_put hslice true hstroke, h.cursor_eq (by omega) hselection]
    simp only [Session.putChars, if_true, hplace]
    rw [htext]
    exact hback

section

variable {after : Editor}
  (h : after.Holds ⟨true, Text.ofLines (range.touchedLines ed.host.text)⟩)
  (hdeleted : LinesDeleted range ed after)
  (hfits : ed.host.text.utf8Length ≤ after.host.text.utf8Length + Session.putLimit)

include h hdeleted hfits

theorem restores_lines (below : Bool) (hne : range.otherLines ed.host.text ≠ [])
    (hk : insertedLine below (min (range.firstLine ed.host.text) after.host.text.lastLine) =
      range.firstLine ed.host.text) :
    after.PutRestores ed.host.text (if below then 'p' else 'P') := by
  intro event hstroke
  have hlines := hdeleted.lines
  rw [if_neg hne] at hlines
  have hbytes := range.utf8Length_touchedLines hlines
  have hline := Nat.min_le_right (range.firstLine ed.host.text) after.host.text.lastLine
  have hcursor := h.cursor_eq (Text.firstNonBlank_le_length _ _) hdeleted.cursor.selection
  have hput := h.lines_put (by omega) (range.touchedLines_ne_nil ed.host.text)
    (fun _ => Range.lineBreak_notMem_of_mem_touchedLines) hstroke
    (by rw [hcursor, Text.lineOf_firstNonBlank hline, hk])
  refine Text.lines_injective ?_
  rw [hput, hlines, range.otherLines_reinserted]

theorem restores_lines_before (hlast : range.finalLine ed.host.text < ed.host.text.lastLine) :
    after.PutRestores ed.host.text 'P' := by
  have hbelow := Range.lines_below_ne_nil hlast
  have hne := List.append_ne_nil_of_right_ne_nil
    (ed.host.text.lines.take (range.firstLine ed.host.text)) hbelow
  have hlines := hdeleted.lines
  rw [Range.otherLines, if_neg hne] at hlines
  have hfirst := Nat.le_succ_of_le (range.firstLine_le_lastLine ed.host.text)
  obtain ⟨hline, -⟩ := Text.lineStart_of_lines hfirst hbelow hlines
  exact restores_lines h hdeleted hfits false hne (Nat.min_eq_left hline)

theorem restores_lines_after (hlast : range.finalLine ed.host.text = ed.host.text.lastLine)
    (hfirst : 0 < range.firstLine ed.host.text) :
    after.PutRestores ed.host.text 'p' := by
  have hothers := Range.otherLines_of_eq hlast
  have hne : range.otherLines ed.host.text ≠ [] := hothers ▸ Text.take_lines_ne_nil hfirst
  have hlines := hdeleted.lines
  rw [if_neg hne, hothers] at hlines
  have hcount : after.host.text.lastLine = range.firstLine ed.host.text - 1 := by
    have hlength := Nat.le_succ_of_le (range.firstLine_le_lastLine ed.host.text)
    rw [Text.lastLine_eq, hlines, Text.length_take_lines hlength]
  refine restores_lines h hdeleted hfits true hne ?_
  simp only [insertedLine, if_true]
  omega

end

/-- A deletion that removes something leaves what it removed in the unnamed register. -/
theorem press_deletes (hg : ed.host.Grants) {command : Command} {i : Input}
    (hcompletes : ed.completes event = some (command, i))
    (hdeletes : ((ed.withInput i).noted command).session.Deletes ed.host.text ed.host.selection
      command range)
    (hunnamed : (ed.withInput i).session.registerName = Registers.unnamed)
    (hremoves : (ed.press event).2.host.text ≠ ed.host.text) :
    ∃ c : Commit, (ed.press event).2.host = ed.host.committed c ∧
      c.edit = some (Region.ofRange ed.host.text range).deletion ∧
      c.landing =
        (if (Region.ofRange ed.host.text range).linewise then
          .lineText (ed.host.text.lineOf (Region.ofRange ed.host.text range).start)
        else .index (Region.ofRange ed.host.text range).start) ∧
      c.rest = .normal ∧
      (ed.press event).2.Holds ⟨(Region.ofRange ed.host.text range).linewise,
        (Region.ofRange ed.host.text range).registerText ed.host.text⟩ := by
  obtain ⟨since, hplan⟩ := hdeletes.plan (not_visual_of_completes hcompletes)
  obtain ⟨lastChange, recording, hpress⟩ := press_of_plan hg hcompletes hplan
  have hname : ((ed.withInput i).noted command).session.registerName = Registers.unnamed := by
    rw [noted_registerName]
    exact hunnamed
  rw [hpress] at hremoves ⊢
  simp only [Session.planOperator] at hremoves ⊢
  cases hvoid : (Region.ofRange ed.host.text range).isVoid with
  | true =>
    -- nothing to operate on is left alone
    simp only [hvoid, true_and, ne_eq, reduceCtorEq, not_false_eq_true, if_true] at hremoves
    exact absurd rfl hremoves
  | false =>
    simp only [Bool.false_eq_true, false_and, if_false]
    refine ⟨_, rfl, rfl, rfl, rfl, hg.committed _, rfl, rfl, rfl, ?_⟩
    show (Registers.write _ _ _).read Registers.unnamed = _
    rw [hname]
    exact Registers.read_write _ _ rfl

/-- **What was deleted is put back by one put.** Characters go back before the cursor, or after it
if it was pulled back from where they were cut out; lines go back before the cursor, or after it if
the last line was deleted with them and not every line was. -/
theorem put_restores (hg : ed.host.Grants) {command : Command} {i : Input}
    (hcompletes : ed.completes event = some (command, i))
    (hdeletes : ((ed.withInput i).noted command).session.Deletes ed.host.text ed.host.selection
      command range)
    (hunnamed : (ed.withInput i).session.registerName = Registers.unnamed)
    (hremoves : (ed.press event).2.host.text ≠ ed.host.text)
    (hfits : ed.host.text.utf8Length ≤
      (ed.press event).2.host.text.utf8Length + 64 * 1024 * 1024) :
    (range.extent ≠ .linewise →
      ((ed.press event).2.host.selection = .cursor (Region.ofRange ed.host.text range).start ∧
        (ed.press event).2.PutRestores ed.host.text 'P') ∨
      0 < (Region.ofRange ed.host.text range).start ∧
        (ed.press event).2.host.selection =
          .cursor ((Region.ofRange ed.host.text range).start - 1) ∧
        (ed.press event).2.PutRestores ed.host.text 'p') ∧
    (range.extent = .linewise → range.finalLine ed.host.text < ed.host.text.lastLine →
      (ed.press event).2.PutRestores ed.host.text 'P') ∧
    (range.extent = .linewise → range.finalLine ed.host.text = ed.host.text.lastLine →
      0 < range.firstLine ed.host.text → (ed.press event).2.PutRestores ed.host.text 'p') := by
  obtain ⟨c, hhost, hedit, hlanding, hrest, hholds⟩ :=
    press_deletes hg hcompletes hdeletes hunnamed hremoves
  have htext : (ed.press event).2.host.text =
      (Region.ofRange ed.host.text range).deletion.apply ed.host.text := by
    rw [hhost, Host.text_committed, hedit]
    rfl
  -- whole lines are deleted and held as lines, wherever they stood
  have hdeleted (hlines : range.extent = .linewise) :
      LinesDeleted range ed (ed.press event).2 ∧ (ed.press event).2.Holds
        ⟨true, Text.ofLines (range.touchedLines ed.host.text)⟩ := by
    rw [Region.linewise_ofRange hlines, if_pos rfl,
      Region.lineOf_start_linewise hlines] at hlanding
    rw [Region.linewise_ofRange hlines, Region.registerText_linewise hlines] at hholds
    have hcommitted := linesDeleted_committed hlines hedit hlanding hrest
    refine ⟨⟨?_, hholds.mode, ?_⟩, hholds⟩
    · rw [hhost]
      exact hcommitted.lines
    · rw [hhost]
      exact hcommitted.cursor.selection
  refine ⟨fun hchars => ?_, fun hlines hlast => ?_, fun hlines hlast hfirst => ?_⟩
  · obtain ⟨hle, hstop⟩ := Region.ofRange_le ed.host.text range
    obtain ⟨start, stop, hregion⟩ := Region.ofRange_of_ne_linewise (t := ed.host.text) hchars
    have hselection : (ed.press event).2.host.selection = .cursor
        ((ed.press event).2.host.text.restingIndex (Region.ofRange ed.host.text range).start) := by
      rw [hregion] at hlanding
      rw [hhost, Host.selection_committed, Commit.cursor, hlanding, hrest, hregion]
      rfl
    rw [hregion] at hle hstop hholds htext hselection ⊢
    exact restores_chars hle hstop (by simpa [Region.registerText] using hholds) htext hfits
      hselection
  · obtain ⟨hlinesDeleted, hlinesHeld⟩ := hdeleted hlines
    exact restores_lines_before hlinesHeld hlinesDeleted hfits hlast
  · obtain ⟨hlinesDeleted, hlinesHeld⟩ := hdeleted hlines
    exact restores_lines_after hlinesHeld hlinesDeleted hfits hlast hfirst

/-- The empty last line is deleted, with the line break before it, and put back. -/
theorem put_restores_emptyLastLine :
    let ed := ((⟨.new .normal {} none, .ofText ['a', '\n'] 2⟩ : Editor).press (.text 'd')).2
    let i : Input := { mode := .operatorPending, operator := some ⟨.delete, none⟩ }
    ed.host.Grants ∧ ed.completes (.text 'd') = some (.motion .wholeLines 1, i) ∧
      ((ed.withInput i).noted (.motion .wholeLines 1)).session.Deletes ed.host.text
        ed.host.selection (.motion .wholeLines 1) (.linewise 2 2) ∧
      (ed.withInput i).session.registerName = Registers.unnamed ∧
      (ed.press (.text 'd')).2.host.text ≠ ed.host.text ∧
      ed.host.text.utf8Length ≤
        (ed.press (.text 'd')).2.host.text.utf8Length + 64 * 1024 * 1024 ∧
      (Range.linewise 2 2).finalLine ed.host.text = ed.host.text.lastLine ∧
      0 < (Range.linewise 2 2).firstLine ed.host.text ∧
      (ed.press (.text 'd')).2.PutRestores ed.host.text 'p' := by
  intro ed i
  have hg : ed.host.Grants := ⟨by decide, by decide, by decide⟩
  have hcompletes : ed.completes (.text 'd') = some (.motion .wholeLines 1, i) := by decide
  have hdeletes : ((ed.withInput i).noted (.motion .wholeLines 1)).session.Deletes ed.host.text
      ed.host.selection (.motion .wholeLines 1) (.linewise 2 2) :=
    .motion rfl (by decide)
  have hunnamed : (ed.withInput i).session.registerName = Registers.unnamed := rfl
  have hremoves : (ed.press (.text 'd')).2.host.text ≠ ed.host.text := by decide
  have hfits : ed.host.text.utf8Length ≤
      (ed.press (.text 'd')).2.host.text.utf8Length + 64 * 1024 * 1024 := by decide
  have hlast : (Range.linewise 2 2).finalLine ed.host.text = ed.host.text.lastLine := by decide
  have hfirst : 0 < (Range.linewise 2 2).firstLine ed.host.text := by decide
  exact ⟨hg, hcompletes, hdeletes, hunnamed, hremoves, hfits, hlast, hfirst,
    (put_restores hg hcompletes hdeletes hunnamed hremoves hfits).2.2 rfl hlast hfirst⟩

end Editor

end ModalEdit
