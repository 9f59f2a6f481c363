import ModalEdit.Proofs.Columns
import ModalEdit.Proofs.LinePuts
import ModalEdit.Proofs.LinewiseOperators
import ModalEdit.Proofs.Marks
import ModalEdit.Proofs.Operating

/-!
# Marks on the lines that are edited

Deleting whole lines, putting them and opening one are edits of the list of lines. The marks follow
them: a mark on a line that is deleted is gone, every other one stays with its line and in its
column (`marks_follow_lines`).

The edits come in two kinds. One that starts and stops where lines start separates the marks by
their lines alone (`afterChanges_lineStarts`). At the end of the text there is no line start to cut
at, and a line opened below comes after the line break: such an edit starts and stops where lines
end (`afterChanges_lineEnds`). A mark at a Normal position comes before the end of its line, but on
an empty line it stands right there. So on an empty line at which such an edit starts or stops, and
nowhere else, marks do not stay with their lines (`LineChange.AtBoundary`).
-/

namespace ModalEdit

/-! ## Texts of lines -/

namespace Text

theorem exists_ofLines_append (t : Text) :
    ∃ ls last, (∀ line ∈ ls, '\n' ∉ line) ∧ '\n' ∉ last ∧ t = ofLines ls ++ last := by
  have hbreaks : ∀ line ∈ t.lines, '\n' ∉ line := fun _ => lineBreak_notMem_of_mem_lines
  have hlines := t.ofLines_lines
  rcases List.eq_nil_or_concat t.lines with hnil | ⟨ls, last, hconcat⟩
  · exact absurd hnil t.lines_ne_nil
  · rw [hconcat, List.concat_eq_append] at hbreaks hlines
    rw [ofLines_append, ofLines_cons, ofLines_nil, ← List.append_assoc] at hlines
    exact ⟨ls, last, fun line hline => hbreaks line (List.mem_append_left _ hline),
      hbreaks last (by simp), (List.append_cancel_right hlines).symm⟩

theorem lines_append_left {u : Text} (h : '\n' ∉ u) (v : Text) :
    lines (u ++ v) = v.lines.modifyHead (u ++ ·) := by
  induction u with
  | nil => exact (congrFun List.modifyHead_id _).symm
  | cons c cs ih =>
    rw [List.mem_cons, not_or] at h
    obtain ⟨hc, hcs⟩ := h
    rw [List.cons_append, lines, if_neg (Ne.symm hc), ih hcs]
    cases hv : v.lines with
    | nil => exact absurd hv v.lines_ne_nil
    | cons first rest => rfl

end Text

/-! ## Positions and one edit -/

theorem Text.lineEnd_mono {t : Text} {i j : Nat} (hij : i ≤ j) (hj : j ≤ t.lastLine) :
    t.lineEnd i ≤ t.lineEnd j := by
  rcases Nat.lt_or_eq_of_le hij with hlt | rfl
  · exact Nat.le_trans (Nat.le_of_lt (lineEnd_lt_lineStart hlt hj)) (t.lineStart_le_lineEnd j)
  · exact Nat.le_refl _

theorem Edit.isOf_change {e : Edit} {t : Text} (h : e.Within t.length) : (e.change t).IsOf t := by
  refine ⟨Position.isOf_ofIndex _ _, Position.isOf_ofIndex _ _, ?_⟩
  have hedit := Change.edit_change h
  have hstart := congrArg Edit.start hedit
  have hstop := congrArg Edit.stop hedit
  exact Nat.le_trans (Nat.le_of_eq hstart) (Nat.le_trans h.1 (Nat.le_of_eq hstop.symm))

namespace Position

variable {e : Edit} {t after : Text} {p : Position} {i j : Nat} {text : Text}

theorem before_start_iff (he : e.Within t.length) (hp : p.IsOf t) :
    p.before (e.change t).start = true ↔ p.index < e.start := by
  rw [before_iff hp (Edit.isOf_change he).start]
  exact iff_of_eq (congrArg (p.index < ·) (congrArg Edit.start (Change.edit_change he)))

theorem before_stop_iff (he : e.Within t.length) (hp : p.IsOf t) :
    p.before (e.change t).stop = true ↔ p.index < e.stop := by
  rw [before_iff hp (Edit.isOf_change he).stop]
  exact iff_of_eq (congrArg (p.index < ·) (congrArg Edit.stop (Change.edit_change he)))

theorem afterChanges_edit_inside (he : e.Within t.length) (hp : p.IsOf t)
    (hstart : e.start ≤ p.index) (hstop : p.index < e.stop) :
    p.afterChanges after [e.change t] = none := by
  have hcovers : (e.change t).covers p = true := by
    rw [Change.covers, (before_stop_iff he hp).2 hstop,
      Bool.eq_false_iff.2 (mt (before_start_iff he hp).1 (Nat.not_lt.2 hstart))]
    rfl
  rw [afterChanges, if_pos (by simpa using hcovers)]

theorem afterChanges_edit_before (he : e.Within t.length) (hp : p.IsOf t)
    (hstart : p.index < e.start) :
    p.afterChanges after [e.change t] = some (ofLineCol after p.line p.col) := by
  have hstop : p.before (e.change t).stop = true :=
    (before_stop_iff he hp).2 (Nat.lt_of_lt_of_le hstart he.1)
  have hcovers : ∀ c ∈ [e.change t], c.covers p = false := by
    simp [Change.covers, (before_start_iff he hp).2 hstart]
  rw [afterChanges_of_not_covers hcovers]
  simp [Change.addedBefore, Change.shiftOf, hstop]

theorem afterChanges_edit_behind (he : e.Within t.length) (hp : p.IsOf t) (hstop : e.stop ≤ p.index)
    {l : Nat} (hl : l + (t.lineOf e.stop - t.lineOf e.start) = p.line + e.text.count '\n') :
    p.afterChanges after [e.change t] = some (ofLineCol after l p.col) := by
  have hbefore : p.before (e.change t).stop = false :=
    Bool.eq_false_iff.2 (mt (before_stop_iff he hp).1 (Nat.not_lt.2 hstop))
  have hcovers : ∀ c ∈ [e.change t], c.covers p = false := by
    simp [Change.covers, hbefore]
  have hadded : (p.line + Change.addedBefore p [e.change t]).toNat = l := by
    have hmono := t.lineOf_mono he.1
    have hadded : (e.change t).addedLines =
        e.text.count '\n' - ((t.lineOf e.stop : Int) - t.lineOf e.start) := by
      simp only [Change.addedLines, Edit.change, ofIndex_line, Nat.max_eq_right he.1]
    simp only [Change.addedBefore, Change.shiftOf, hbefore, Bool.false_eq_true, if_false,
      List.foldr_cons, List.foldr_nil, hadded]
    omega
  rw [afterChanges_of_not_covers hcovers, hadded]

/-- **An edit from the start of a line to the start of a line** separates positions by lines. -/
theorem afterChanges_lineStarts (hij : i ≤ j) (hj : j ≤ t.lastLine) (hp : p.IsOf t) :
    p.afterChanges after [(Edit.mk (t.lineStart i) (t.lineStart j) text).change t] =
      if p.line < i then some (ofLineCol after p.line p.col)
      else if p.line < j then none
      else some (ofLineCol after (p.line - (j - i) + text.count '\n') p.col) := by
  have hstarts := Text.lineStart_mono hij hj
  have hwithin : (Edit.mk (t.lineStart i) (t.lineStart j) text).Within t.length :=
    ⟨hstarts, t.lineStart_le_length j⟩
  have hindex := hp.index_eq
  have hcol := hp.col_le
  by_cases habove : p.line < i
  · have hlines := Text.lineEnd_lt_lineStart habove (Nat.le_trans hij hj)
    simp only [Text.lineEnd] at hlines
    rw [if_pos habove, afterChanges_edit_before hwithin hp (by dsimp only; omega)]
  · have hstart := Text.lineStart_mono (Nat.le_of_not_lt habove) hp.line_le
    by_cases hinside : p.line < j
    · have hlines := Text.lineEnd_lt_lineStart hinside hj
      simp only [Text.lineEnd] at hlines
      rw [if_neg habove, if_pos hinside,
        afterChanges_edit_inside hwithin hp (by dsimp only; omega) (by dsimp only; omega)]
    · have hstop := Text.lineStart_mono (Nat.le_of_not_lt hinside) hp.line_le
      rw [if_neg habove, if_neg hinside]
      refine afterChanges_edit_behind hwithin hp (by dsimp only; omega) ?_
      dsimp only
      rw [Text.lineOf_lineStart hj, Text.lineOf_lineStart (Nat.le_trans hij hj)]
      omega

theorem lt_lineEnd_iff (hp : p.IsOf t) (hcol : p.col ≤ t.lastColumn p.line) {l : Nat}
    (hl : l ≤ t.lastLine) : p.index < t.lineEnd l ↔ p.line < l ∨ p.line = l ∧ t.line l ≠ [] := by
  have hindex := hp.index_eq
  rcases Nat.lt_trichotomy p.line l with hlt | heq | hgt
  · have hlines := Text.lineEnd_lt_lineStart hlt hl
    have := t.lineStart_le_lineEnd l
    have := hp.col_le
    simp only [Text.lineEnd] at hlines this ⊢
    simp only [hlt, true_or, iff_true]
    omega
  · subst heq
    rw [← List.length_pos_iff]
    simp only [Text.lineEnd, Text.lastColumn, Text.lineLength, Nat.lt_irrefl, false_or,
      true_and] at hcol ⊢
    omega
  · have hlines := Text.lineEnd_lt_lineStart hgt hp.line_le
    have hne := Nat.ne_of_gt hgt
    simp only [hne, false_and, or_false, Nat.not_lt.2 (Nat.le_of_lt hgt), iff_false]
    omega

/-- **An edit from the end of a line to the end of a line** separates positions before the ends of
their lines by lines, and has a position on an empty line behind its start or its stop. -/
theorem afterChanges_lineEnds (hij : i ≤ j) (hj : j ≤ t.lastLine) (hp : p.IsOf t)
    (hcol : p.col ≤ t.lastColumn p.line) :
    p.afterChanges after [(Edit.mk (t.lineEnd i) (t.lineEnd j) text).change t] =
      if p.line < i ∨ p.line = i ∧ t.line i ≠ [] then some (ofLineCol after p.line p.col)
      else if p.line < j ∨ p.line = j ∧ t.line j ≠ [] then none
      else some (ofLineCol after (p.line - (j - i) + text.count '\n') p.col) := by
  have hwithin : (Edit.mk (t.lineEnd i) (t.lineEnd j) text).Within t.length :=
    ⟨Text.lineEnd_mono hij hj, t.lineEnd_le_length j⟩
  have hi := lt_lineEnd_iff hp hcol (Nat.le_trans hij hj)
  have hj' := lt_lineEnd_iff hp hcol hj
  by_cases habove : p.line < i ∨ p.line = i ∧ t.line i ≠ []
  · rw [if_pos habove, afterChanges_edit_before hwithin hp (hi.2 habove)]
  · have hstart := Nat.le_of_not_lt (mt hi.1 habove)
    by_cases hinside : p.line < j ∨ p.line = j ∧ t.line j ≠ []
    · rw [if_neg habove, if_pos hinside,
        afterChanges_edit_inside hwithin hp hstart (hj'.2 hinside)]
    · have hstop := Nat.le_of_not_lt (mt hj'.1 hinside)
      rw [if_neg habove, if_neg hinside]
      refine afterChanges_edit_behind hwithin hp hstop ?_
      dsimp only
      rw [Text.lineOf_lineEnd hj, Text.lineOf_lineEnd (Nat.le_trans hij hj)]
      omega

end Position

/-! ## Changes of lines -/

/-- The lines `first..stop` of a text are replaced by `count` others. -/
structure LineChange where
  first : Nat
  stop : Nat
  count : Nat
  /-- The edit starts and stops at the ends of the lines before `first` and before `stop` rather
  than at the starts of these lines. -/
  atEnds : Bool
  /-- What is put in front of line `stop`, on that line. -/
  joined : Text := []
  deriving DecidableEq, Repr

namespace LineChange

/-- The line is taken out. -/
def Removes (change : LineChange) (l : Nat) : Prop := change.first ≤ l ∧ l < change.stop

/-- The number that a line has after the change, if it is not taken out. -/
def target (change : LineChange) (l : Nat) : Nat :=
  if l < change.first then l else l - (change.stop - change.first) + change.count

/-- The line is empty and the edit starts or stops at its end. -/
def AtBoundary (change : LineChange) (t : Text) (l : Nat) : Prop :=
  change.atEnds = true ∧ t.line l = [] ∧ (l + 1 = change.first ∨ l + 1 = change.stop)

/-- The line to which marks on a line at the boundary go, if they are not dropped: the last one of
the lines put in, or the one above if there are none. -/
def boundaryTarget? (change : LineChange) (l : Nat) : Option Nat :=
  if l + 1 = change.stop then some (change.first - 1 + change.count) else none

/-- What is put in front of a line, on that line. -/
def joinedTo (change : LineChange) (l : Nat) : Text :=
  if l = change.stop then change.joined else []

/-- What becomes of a position under a change of lines. -/
structure Follows (change : LineChange) (t after : Text) (p : Position)
    (found : Option Position) : Prop where
  /-- On a line that is taken out it is dropped. -/
  removed : ¬ change.AtBoundary t p.line → change.Removes p.line → found = none
  /-- On any other line it stays, with the line and in its column. -/
  kept : ¬ change.AtBoundary t p.line → ¬ change.Removes p.line →
    ∃ q, found = some q ∧ q.IsOf after ∧ q.line = change.target p.line ∧ q.col = p.col ∧
      after.line q.line = change.joinedTo p.line ++ t.line p.line
  /-- At the boundary it goes to the start of another line or is dropped. -/
  boundary : change.AtBoundary t p.line →
    found = (change.boundaryTarget? p.line).map fun l => ⟨after.lineStart l, l, 0⟩

/-- The lines that a change leaves. -/
def Leaves (change : LineChange) (t after : Text) : Prop :=
  ∃ new : List Text, new.length = change.count ∧
    after.lines = t.lines.take change.first ++
      (new ++ (t.lines.drop change.stop).modifyHead (change.joined ++ ·))

variable {change : LineChange} {t after : Text} {p : Position} {new : List Text} {text : Text}

theorem leaves_of_lines (new : List Text) (hjoined : change.joined = [])
    (hnew : new.length = change.count)
    (hlines : after.lines = t.lines.take change.first ++ (new ++ t.lines.drop change.stop)) :
    change.Leaves t after := by
  have hbelow : (t.lines.drop change.stop).modifyHead ([] ++ ·) = t.lines.drop change.stop :=
    congrFun List.modifyHead_id _
  exact ⟨new, hnew, by rw [hlines, hjoined, hbelow]⟩

theorem Leaves.lastLine_le (h : change.Leaves t after) (horder : change.first ≤ change.stop)
    (hstop : change.stop ≤ t.lastLine + 1) : change.first + change.count ≤ after.lastLine + 1 := by
  obtain ⟨new, hnew, hlines⟩ := h
  have hlength := congrArg List.length hlines
  rw [Text.length_lines, Text.lineCount_eq, List.length_append, List.length_append, hnew,
    Text.length_take_lines (Nat.le_trans horder hstop)] at hlength
  omega

/-- **The lines that stay** are those of the changed text, at their new numbers. -/
theorem Leaves.line_target (h : change.Leaves t after) (horder : change.first ≤ change.stop)
    (hstop : change.stop ≤ t.lastLine + 1) {l : Nat} (hl : l ≤ t.lastLine)
    (hkept : ¬ change.Removes l) :
    change.target l ≤ after.lastLine ∧
      after.line (change.target l) = change.joinedTo l ++ t.line l := by
  obtain ⟨new, hnew, hlines⟩ := h
  have hline : after.lines[change.target l]? = some (change.joinedTo l ++ t.line l) := by
    have habove := Text.length_take_lines (Nat.le_trans horder hstop)
    have hget := t.getElem?_lines l
    rw [if_pos hl] at hget
    rw [hlines, target, joinedTo]
    simp only [Removes, not_and, Nat.not_lt] at hkept
    by_cases hlt : l < change.first
    · rw [if_pos hlt, if_neg (by omega), List.getElem?_append_left (habove.symm ▸ hlt),
        List.getElem?_take_of_lt hlt, hget]
      rfl
    · have hbelow := hkept (Nat.not_lt.1 hlt)
      have hplace : l - (change.stop - change.first) + change.count - change.first -
          change.count = l - change.stop := by omega
      have hsum : change.stop + (l - change.stop) = l := by omega
      rw [if_neg hlt, List.getElem?_append_right (by omega), habove,
        List.getElem?_append_right (by omega), hnew, hplace, List.getElem?_modifyHead,
        List.getElem?_drop, hsum, hget]
      by_cases hfirst : l = change.stop
      · rw [if_pos (by omega), if_pos hfirst]
        rfl
      · rw [if_neg (by omega), if_neg hfirst]
        rfl
  rw [Text.getElem?_lines] at hline
  split at hline
  case isTrue hle => exact ⟨hle, Option.some.inj hline⟩
  case isFalse => cases hline

theorem exists_ofLineCol (hp : p.IsOf t)
    (h : change.target p.line ≤ after.lastLine ∧
      after.line (change.target p.line) = change.joinedTo p.line ++ t.line p.line) :
    ∃ q, some (Position.ofLineCol after (change.target p.line) p.col) = some q ∧ q.IsOf after ∧
      q.line = change.target p.line ∧ q.col = p.col ∧
      after.line q.line = change.joinedTo p.line ++ t.line p.line := by
  obtain ⟨hle, hline⟩ := h
  have hcol : p.col ≤ after.lineLength (change.target p.line) := by
    rw [Text.lineLength, hline, List.length_append]
    exact Nat.le_add_left_of_le hp.col_le
  refine ⟨_, rfl, Position.isOf_ofLineCol _ _ _, ?_, ?_, ?_⟩
  all_goals rw [Position.ofLineCol_eq hle hcol]
  exact hline

theorem ofLineCol_zero {l : Nat} (hl : l ≤ after.lastLine) :
    Position.ofLineCol after l 0 = ⟨after.lineStart l, l, 0⟩ :=
  Position.ofLineCol_eq hl (Nat.zero_le _)

theorem follows_lineStarts (horder : change.first ≤ change.stop) (hstop : change.stop ≤ t.lastLine)
    (hstarts : change.atEnds = false) (hcount : text.count '\n' = change.count)
    (hleaves : change.Leaves t after) (hp : p.IsOf t) :
    change.Follows t after p (p.afterChanges after
      [(Edit.mk (t.lineStart change.first) (t.lineStart change.stop) text).change t]) := by
  rw [Position.afterChanges_lineStarts horder hstop hp, hcount]
  have hline := hleaves.line_target horder (Nat.le_succ_of_le hstop) hp.line_le
  refine ⟨fun _ hremoves => ?_, fun _ hkept => ?_, fun hboundary => ?_⟩
  · rw [if_neg (Nat.not_lt.2 hremoves.1), if_pos hremoves.2]
  · obtain ⟨q, hq⟩ := exists_ofLineCol hp (hline hkept)
    refine ⟨q, ?_, hq.2⟩
    rw [← hq.1, target]
    split
    · rfl
    · rw [if_neg fun hlt => hkept ⟨Nat.le_of_not_lt ‹_›, hlt⟩]
  · rw [AtBoundary, hstarts] at hboundary
    exact absurd hboundary.1 Bool.false_ne_true

theorem above_lineEnd_iff {l k : Nat} (hk : 0 < k) :
    (l < k - 1 ∨ l = k - 1 ∧ t.line (k - 1) ≠ []) ↔ l < k ∧ ¬ (l + 1 = k ∧ t.line l = []) := by
  constructor
  · rintro (hlt | ⟨rfl, hne⟩)
    · exact ⟨by omega, fun h => by omega⟩
    · exact ⟨by omega, fun h => hne h.2⟩
  · rintro ⟨hlt, hne⟩
    rcases Nat.lt_or_eq_of_le (Nat.le_sub_one_of_lt hlt) with hlt | rfl
    · exact .inl hlt
    · exact .inr ⟨rfl, fun hempty => hne ⟨by omega, hempty⟩⟩

theorem follows_lineEnds (hpos : 0 < change.first) (horder : change.first ≤ change.stop)
    (hstop : change.stop ≤ t.lastLine + 1) (hends : change.atEnds = true)
    (hcount : text.count '\n' = change.count) (hleaves : change.Leaves t after)
    (hp : p.IsOf t) (hcol : p.col ≤ t.lastColumn p.line) :
    change.Follows t after p (p.afterChanges after
      [(Edit.mk (t.lineEnd (change.first - 1)) (t.lineEnd (change.stop - 1)) text).change t]) := by
  have hlast : change.stop - 1 ≤ t.lastLine := by omega
  have hline := hleaves.line_target horder hstop hp.line_le
  rw [Position.afterChanges_lineEnds (Nat.sub_le_sub_right horder 1) hlast hp hcol, hcount]
  simp only [above_lineEnd_iff hpos, above_lineEnd_iff (Nat.lt_of_lt_of_le hpos horder)]
  refine ⟨fun h hremoves => ?_, fun h hkept => ?_, fun hboundary => ?_⟩
  · obtain ⟨hfirst, hlt⟩ := hremoves
    rw [if_neg fun habove => Nat.not_lt.2 hfirst habove.1,
      if_pos ⟨hlt, fun hempty => h ⟨hends, hempty.2, .inr hempty.1⟩⟩]
  · obtain ⟨q, hq⟩ := exists_ofLineCol hp (hline hkept)
    refine ⟨q, ?_, hq.2⟩
    rw [← hq.1, target]
    by_cases habove : p.line < change.first
    · rw [if_pos ⟨habove, fun hempty => h ⟨hends, hempty.2, .inl hempty.1⟩⟩, if_pos habove]
    · have hbelow : change.stop ≤ p.line :=
        Nat.le_of_not_lt fun hlt => hkept ⟨Nat.le_of_not_lt habove, hlt⟩
      have hspan : change.stop - 1 - (change.first - 1) = change.stop - change.first := by omega
      rw [if_neg fun h => habove h.1, if_neg fun h => Nat.not_lt.2 hbelow h.1, if_neg habove,
        hspan]
  · obtain ⟨-, hempty, hl⟩ := hboundary
    have hzero : p.col = 0 := by
      rw [Text.lastColumn, Text.lineLength, hempty] at hcol
      exact Nat.le_zero.1 hcol
    -- an empty line at an end of the edit has its start and its end in one place
    have hfirst : ¬ (p.line < change.first ∧ ¬ (p.line + 1 = change.first ∧ t.line p.line = [])) :=
      fun h => h.2 ⟨by omega, hempty⟩
    rw [if_neg hfirst, boundaryTarget?]
    by_cases hlast : p.line + 1 = change.stop
    · have hnumber : p.line - (change.stop - 1 - (change.first - 1)) + change.count =
          change.first - 1 + change.count := by omega
      have hle : change.first - 1 + change.count ≤ after.lastLine := by
        have := hleaves.lastLine_le horder hstop
        omega
      rw [if_neg fun h => h.2 ⟨hlast, hempty⟩, if_pos hlast, hzero, hnumber, ofLineCol_zero hle]
      rfl
    · rw [if_pos ⟨by omega, fun h => hlast h.1⟩, if_neg hlast]
      rfl

theorem follows_all (hfirst : change.first = 0) (hstop : change.stop = t.lastLine + 1)
    (hcount : change.count = 0) (hends : change.atEnds = true) (hp : p.IsOf t)
    (hcol : p.col ≤ t.lastColumn p.line) :
    change.Follows t after p
      (p.afterChanges after [(Edit.deletion 0 t.length).change t]) := by
  have hwithin : (Edit.deletion 0 t.length).Within t.length := ⟨Nat.zero_le _, Nat.le_refl _⟩
  have hend := Position.lt_lineEnd_iff hp hcol (Nat.le_refl _)
  rw [Text.lineEnd_lastLine] at hend
  have hle := hp.line_le
  refine ⟨fun h _ => ?_, fun _ hkept => ?_, fun hboundary => ?_⟩
  · refine Position.afterChanges_edit_inside hwithin hp (Nat.zero_le _) (hend.2 ?_)
    rcases Nat.lt_or_eq_of_le hle with hlt | heq
    · exact .inl hlt
    · exact .inr ⟨heq, fun hempty => h ⟨hends, heq ▸ hempty, .inr (by omega)⟩⟩
  · exact absurd ⟨by omega, by omega⟩ hkept
  · obtain ⟨-, hempty, hl⟩ := hboundary
    have hlast : p.line = t.lastLine := by omega
    have hzero : p.col = 0 := by
      rw [Text.lastColumn, Text.lineLength, hempty] at hcol
      exact Nat.le_zero.1 hcol
    have hindex : t.length ≤ p.index := by
      refine Nat.le_of_not_lt fun hlt => ?_
      rcases hend.1 hlt with hlt | ⟨-, hne⟩
      · omega
      · exact hne (hlast ▸ hempty)
    have hlines : 0 + (t.lineOf t.length - t.lineOf 0) =
        p.line + (Edit.deletion 0 t.length).text.count '\n' := by
      have hlineOf := Text.lineOf_lineEnd (Nat.le_refl t.lastLine)
      rw [Text.lineEnd_lastLine] at hlineOf
      simp [hlineOf, hlast, Edit.deletion]
    rw [Position.afterChanges_edit_behind hwithin hp hindex hlines, boundaryTarget?,
      if_pos (by omega), hzero, hfirst, hcount, ofLineCol_zero (Nat.zero_le _)]
    rfl

end LineChange

/-! ## Commands that change lines -/

namespace Session

variable {s : Session} {t : Text} {sel : Selection} {p : Position} {range : Range} {plan : Plan}
  {change : LineChange}

/-- The change of a deletion of the lines of a range. It is made where lines end if it reaches the
end of the text. -/
def deletedLines (t : Text) (range : Range) : LineChange where
  first := range.firstLine t
  stop := range.finalLine t + 1
  count := 0
  atEnds := range.finalLine t = t.lastLine

/-- The change of putting the text of a linewise register below or above a line. It is made where
lines end below the last line. Elsewhere a text that does not end in a line break is joined to the
line that follows. -/
def putChange (t text : Text) (below : Bool) (l : Nat) : LineChange where
  first := insertedLine below l
  stop := insertedLine below l
  count := (putLines t text below l).1.text.count '\n'
  atEnds := below && l = t.lastLine
  joined := if below && l = t.lastLine then [] else text.lines.getLastD []

/-- The change of opening a line below or above a line. -/
def openChange (below : Bool) (l : Nat) : LineChange where
  first := insertedLine below l
  stop := insertedLine below l
  count := 1
  atEnds := below

/-- A plan deletes whole lines, puts a linewise register, or opens a line. -/
inductive EditsLines (s : Session) (t : Text) (sel : Selection) : Plan → LineChange → Prop
  | delete (range : Range) (since : Stage) : range.extent = .linewise →
      EditsLines s t sel (s.planOperator t sel .delete range since) (deletedLines t range)
  | put {text : Text} {n : Nat} (below : Bool) :
      s.registers.read s.registerName = some ⟨true, text⟩ → text.utf8Length * n ≤ putLimit →
      EditsLines s t sel (s.planPut t sel n below)
        (putChange t (text.copies n) below (t.lineOf (s.cursor t sel)))
  | opened (below : Bool) :
      EditsLines s t sel (s.planInsert t sel (if below then .openBelow else .openAbove))
        (openChange below (t.lineOf (s.cursor t sel)))

end Session

/-- The text after a commit. -/
def Commit.textAfter (c : Commit) (t : Text) : Text := c.edit.elim t (·.apply t)

/-- Where a position is after the edit of a commit. -/
def Commit.positionAfter (c : Commit) (t : Text) (p : Position) : Option Position :=
  match c.edit with
  | none => some p
  | some e => p.afterChanges (e.apply t) [e.change t]

namespace LineChange

variable {s : Session} {t : Text} {sel : Selection} {p : Position} {range : Range}

/-- **Deleting lines.** -/
theorem follows_deletion (hlines : range.extent = .linewise) (hp : p.IsOf t)
    (hcol : p.col ≤ t.lastColumn p.line) :
    (Session.deletedLines t range).Follows t ((Region.ofRange t range).deletion.apply t) p
      (p.afterChanges ((Region.ofRange t range).deletion.apply t)
        [(Region.ofRange t range).deletion.change t]) := by
  have happly := Region.lines_deletion (t := t) hlines
  have hfirst := range.firstLine_le_lastLine t
  have horder := range.firstLine_le_finalLine t
  -- the edit starts on a line, takes the whole text, or ends with the line above the first one
  rcases Nat.lt_or_eq_of_le (range.finalLine_le_lastLine t) with hlast | hlast
  · have hne := List.append_ne_nil_of_right_ne_nil (t.lines.take (range.firstLine t))
      (range.lines_below_ne_nil hlast)
    rw [Range.otherLines, if_neg hne] at happly
    have hedit : (Region.ofRange t range).deletion =
        ⟨t.lineStart (range.firstLine t), t.lineStart (range.finalLine t + 1), []⟩ := by
      rw [Region.ofRange_of_lt hlines hlast]
      rfl
    rw [hedit] at happly ⊢
    have hleaves : (Session.deletedLines t range).Leaves t _ := leaves_of_lines [] rfl rfl happly
    exact follows_lineStarts (Nat.le_succ_of_le horder) hlast (decide_eq_false (Nat.ne_of_lt hlast))
      rfl hleaves hp
  · have hstop : range.finalLine t + 1 = t.lastLine + 1 := congrArg (· + 1) hlast
    have hends : decide (range.finalLine t = t.lastLine) = true := decide_eq_true hlast
    rcases Nat.eq_zero_or_pos (range.firstLine t) with hzero | hpos
    · have hedit : (Region.ofRange t range).deletion = .deletion 0 t.length := by
        rw [Region.ofRange_of_eq hlines hlast, hzero, Text.lineStart_zero]
        rfl
      rw [hedit]
      exact follows_all hzero hstop rfl hends hp hcol
    · have hline := Text.lineStart_succ (t := t) (l := range.firstLine t - 1) (by omega)
      rw [Nat.sub_add_cancel hpos] at hline
      have hedit : (Region.ofRange t range).deletion =
          ⟨t.lineEnd (range.firstLine t - 1), t.lineEnd (range.finalLine t), []⟩ := by
        rw [Region.ofRange_of_eq hlines hlast, hlast, Text.lineEnd_lastLine]
        simp [Region.deletion, Edit.deletion, hline]
      rw [Range.otherLines, if_neg (List.append_ne_nil_of_left_ne_nil
        (Text.take_lines_ne_nil hpos) _)] at happly
      rw [hedit] at happly ⊢
      have hleaves : (Session.deletedLines t range).Leaves t _ := leaves_of_lines [] rfl rfl happly
      exact follows_lineEnds hpos (Nat.le_succ_of_le horder) (Nat.le_of_eq hstop) hends rfl hleaves
        hp hcol

theorem leaves_insertion (change : LineChange) (text : Text) (hstop : change.stop ≤ t.lastLine)
    (hfirst : change.first = change.stop) (hcount : change.count = text.count '\n')
    (hjoined : change.joined = text.lines.getLastD []) :
    change.Leaves t ((Edit.insertion (t.lineStart change.stop) text).apply t) := by
  obtain ⟨ls, last, hls, hlast, rfl⟩ := text.exists_ofLines_append
  have hlines : (Text.ofLines ls ++ last).lines = ls ++ [last] := by
    rw [Text.lines_ofLines_append hls, Text.lines_eq_singleton hlast]
  rw [List.count_append, Text.count_ofLines hls, List.count_eq_zero.2 hlast, Nat.add_zero] at hcount
  rw [hlines, List.getLastD_concat] at hjoined
  refine ⟨ls, hcount.symm, ?_⟩
  rw [hfirst, hjoined, Edit.apply, Edit.insertion, Text.splice, Nat.max_self,
    Text.take_lineStart hstop, Text.lines_ofLines_append fun _ => Text.lineBreak_notMem_of_mem_take,
    List.append_assoc, Text.lines_ofLines_append hls, Text.lines_append_left hlast,
    Text.lines_drop_lineStart hstop]

/-- **Putting in lines.** -/
theorem follows_put (text : Text) {l : Nat} (hl : l ≤ t.lastLine) (below : Bool) (hp : p.IsOf t)
    (hcol : p.col ≤ t.lastColumn p.line) :
    (Session.putChange t text below l).Follows t ((Session.putLines t text below l).1.apply t) p
      (p.afterChanges ((Session.putLines t text below l).1.apply t)
        [(Session.putLines t text below l).1.change t]) := by
  -- below the last line the edit is at the end of the text, otherwise at the start of a line
  cases hends : below && decide (l = t.lastLine) with
  | false =>
    have hstop : insertedLine below l ≤ t.lastLine := by
      cases below with
      | false => exact hl
      | true => exact Nat.lt_of_le_of_ne hl (of_decide_eq_false hends)
    have hedit : (Session.putLines t text below l).1 =
        .insertion (t.lineStart (insertedLine below l)) text := by
      cases below with
      | false => rfl
      | true =>
        have hlast : l < t.lastLine := hstop
        simp [Session.putLines, hlast, insertedLine]
    have hcount : (Session.putChange t text below l).count = text.count '\n' := by
      rw [Session.putChange, hedit]
      rfl
    have hleaves := leaves_insertion (Session.putChange t text below l) text hstop rfl hcount
      (by rw [Session.putChange, hends]; rfl)
    rw [hedit]
    exact follows_lineStarts (Nat.le_refl _) hstop hends hcount.symm hleaves hp
  | true =>
    obtain ⟨rfl, hlast⟩ := Bool.and_eq_true_iff.1 hends
    have hlast : l = t.lastLine := of_decide_eq_true hlast
    obtain ⟨body, hbody⟩ : ∃ body : Text, (Session.putLines t text true l).1 =
        .insertion (t.lineEnd l) ('\n' :: body) := by
      simp only [Session.putLines, hlast, Nat.lt_irrefl, Bool.not_true, Bool.false_eq_true,
        if_false]
      exact ⟨_, rfl⟩
    have hlines := Text.lines_splice_lineEnd hl body
    have hcount : body.lines.length = (Session.putChange t text true l).count := by
      rw [Text.length_lines, Session.putChange, hbody]
      exact List.count_cons_self.symm
    have hleaves : (Session.putChange t text true l).Leaves t
        ((Edit.insertion (t.lineEnd l) ('\n' :: body)).apply t) :=
      leaves_of_lines body.lines (by rw [Session.putChange, hends]; rfl) hcount hlines
    have hbreaks : ('\n' :: body).count '\n' = (Session.putChange t text true l).count := by
      rw [Session.putChange, hbody]
      rfl
    rw [hbody]
    exact follows_lineEnds (Nat.succ_pos l) (Nat.le_refl _) (Nat.succ_le_succ hl) hends hbreaks
      hleaves hp hcol

/-- **Opening a line.** -/
theorem follows_open (s : Session) (t : Text) (sel : Selection) (below : Bool) :
    ∃ e : Edit, ∃ landing column,
      s.planInsert t sel (if below then .openBelow else .openAbove) =
        .commit { edit := some e, landing, rest := .insert, column } ∧
      ∀ p : Position, p.IsOf t → p.col ≤ t.lastColumn p.line →
        (Session.openChange below (t.lineOf (s.cursor t sel))).Follows t (e.apply t) p
          (p.afterChanges (e.apply t) [e.change t]) := by
  have hl := t.lineOf_le_lastLine (s.cursor t sel)
  obtain ⟨c, hplan, hlines, -, -⟩ := s.planInsert_open t sel below
  have hleaves : (Session.openChange below (t.lineOf (s.cursor t sel))).Leaves t
      (c.edit.elim t (·.apply t)) := leaves_of_lines [[]] rfl rfl hlines
  cases below with
  | false =>
    cases hplan
    refine ⟨_, _, _, rfl, fun p hp _ => ?_⟩
    exact follows_lineStarts (Nat.le_refl _) hl rfl rfl hleaves hp
  | true =>
    cases hplan
    refine ⟨_, _, _, rfl, fun p hp hcol => ?_⟩
    exact follows_lineEnds (Nat.succ_pos _) (Nat.le_refl _) (Nat.succ_le_succ hl) rfl rfl hleaves hp
      hcol

theorem follows_nil (hp : p.IsOf []) :
    (Session.deletedLines [] range).Follows [] [] p (some p) := by
  have hzero : p = ⟨0, 0, 0⟩ := by
    rw [hp, Position.ofIndex_eq]
    simp [Text.lineOf]
  have hboundary : (Session.deletedLines [] range).AtBoundary [] 0 := by
    simp [Session.deletedLines, AtBoundary, Text.lastLine, Range.finalLine, Text.lineOf]
  subst hzero
  refine ⟨fun h _ => absurd hboundary h, fun h _ => absurd hboundary h, fun _ => ?_⟩
  simp [boundaryTarget?, Session.deletedLines, Range.finalLine, Range.firstLine, Text.lineOf]

end LineChange

/-- **What becomes of positions under a plan that edits lines.** -/
theorem Session.EditsLines.follows {s : Session} {t : Text} {sel : Selection} {plan : Plan}
    {change : LineChange} (h : s.EditsLines t sel plan change) :
    ∃ c : Commit, plan = .commit c ∧ ∀ p : Position, p.IsOf t → p.col ≤ t.lastColumn p.line →
      change.Follows t (c.textAfter t) p (c.positionAfter t p) := by
  cases h with
  | delete range since hlines =>
    obtain ⟨column, hplan⟩ := s.planOperator_eq t sel .delete range since
    refine ⟨_, hplan, fun p hp hcol => ?_⟩
    simp only [Commit.textAfter, Commit.positionAfter, Operator.commit, Operator.edit]
    cases hvoid : (Region.ofRange t range).isVoid with
    | true =>
      obtain rfl : t = [] := by
        by_contra ht
        rw [Region.isVoid_linewise hlines ht] at hvoid
        cases hvoid
      exact LineChange.follows_nil hp
    | false => exact LineChange.follows_deletion hlines hp hcol
  | @put text n below hread hfits =>
    refine ⟨_, planPut_linewise hread hfits below, fun p hp hcol => ?_⟩
    exact LineChange.follows_put (text.copies n) (t.lineOf_le_lastLine (s.cursor t sel)) below hp
      hcol
  | opened below =>
    obtain ⟨e, landing, column, hplan, hfollows⟩ := LineChange.follows_open s t sel below
    exact ⟨_, hplan, hfollows⟩

/-! ## The marks after a command -/

namespace Editor

variable {ed after : Editor} {change : LineChange} {plan : Plan} {c : Commit}

/-- Every mark at a Normal position follows a change of lines. -/
def MarksFollow (change : LineChange) (ed after : Editor) : Prop :=
  ∀ name p, ed.session.marks.get? name = some p → p.IsOf ed.host.text →
    ed.host.text.IsNormal p.index →
    change.Follows ed.host.text after.host.text p (after.session.marks.get? name)

theorem get?_forward (hchanges : ed.host.changes = [])
    (hhost : after.host = ed.host.committed c) (hmarks : after.session.marks = ed.session.marks)
    {name : Char} {p : Position} (hname : ed.session.marks.get? name = some p) :
    after.forward.session.marks.get? name = c.positionAfter ed.host.text p := by
  have hcommitted : after.host.changes = c.edit.toList.map (·.change ed.host.text) := by
    rw [hhost, Host.committed, Host.placed, Host.commitEdited]
    cases c.edit with
    | none => exact hchanges
    | some e => exact congrArg (_ :: ·) hchanges
  have htext : after.host.text = c.textAfter ed.host.text := by
    rw [hhost, Host.text_committed]
    rfl
  rw [Commit.textAfter] at htext
  rw [forward, Commit.positionAfter, hcommitted]
  cases hedit : c.edit with
  | none =>
    show after.session.marks.get? name = some p
    rw [hmarks, hname]
  | some e =>
    rw [hedit] at htext
    show (after.session.marks.applyChanges after.host.text [e.change ed.host.text]).get? name = _
    rw [hmarks, Marks.get?_applyChanges (by simp), hname, htext]
    rfl

theorem text_forward (ed : Editor) : ed.forward.host.text = ed.host.text := by
  unfold forward
  split <;> rfl

theorem marksFollow_forward (hchanges : ed.host.changes = [])
    (hhost : after.host = ed.host.committed c) (hmarks : after.session.marks = ed.session.marks)
    (hfollows : ∀ p : Position, p.IsOf ed.host.text →
      p.col ≤ ed.host.text.lastColumn p.line →
      change.Follows ed.host.text (c.textAfter ed.host.text) p
        (c.positionAfter ed.host.text p)) : MarksFollow change ed after.forward := by
  intro name p hname hp hnormal
  have htext : after.host.text = c.textAfter ed.host.text := by
    rw [hhost, Host.text_committed]
    rfl
  rw [get?_forward hchanges hhost hmarks hname, text_forward, htext]
  refine hfollows p hp ?_
  have hcol := hnormal.col_le.2
  have hsame : p.col = (Position.ofIndex ed.host.text p.index).col := congrArg Position.col hp
  rwa [← hp.line_eq, ← hsame] at hcol

/-- **Marks stay with their lines.** On a host that refuses nothing, once the change of a plan that
deletes whole lines, puts a linewise register or opens a line is passed on, every mark at a Normal
position on a deleted line is gone and every other one is on its line, wherever that is now, and in
its column. Only on empty lines at whose ends the edit starts or stops do marks go elsewhere. So it
is for every plan that is carried out and for every key that completes a command with such a plan.
-/
theorem marks_follow_lines (hg : ed.host.Grants) (hchanges : ed.host.changes = []) :
    (∀ plan change, ed.session.EditsLines ed.host.text ed.host.selection plan change →
      ∃ after, carryOut plan ed = .ok () after ∧ MarksFollow change ed after.forward) ∧
    ∀ event command i plan change, ed.completes event = some (command, i) →
      (ed.withInput i).planOfCommand command = some plan →
      ((ed.withInput i).noted command).session.EditsLines ed.host.text ed.host.selection plan
        change →
      MarksFollow change ed (ed.press event).2.forward := by
  refine ⟨fun plan change hedits => ?_,
    fun event command i plan change hcompletes hplan hedits => ?_⟩
  · obtain ⟨c, rfl, hfollows⟩ := hedits.follows
    exact ⟨_, carryOut_granted hg _, marksFollow_forward hchanges rfl rfl hfollows⟩
  · obtain ⟨c, rfl, hfollows⟩ := hedits.follows
    obtain ⟨lastChange, recording, hpress⟩ := press_of_plan hg hcompletes hplan
    have hmarks : ((ed.withInput i).noted command).session.marks = ed.session.marks := by
      unfold noted
      rw [Session.noteCommand_frame]
      rfl
    rw [hpress]
    exact marksFollow_forward hchanges rfl hmarks hfollows

/-- The line in the middle is deleted, with the mark on it. -/
theorem marks_follow_lines_middle :
    let t : Text := ['a', '\n', 'b', '\n', 'c', 'd']
    let marks : Marks := (Named.empty.set 'c' ⟨5, 2, 1⟩).set 'b' ⟨2, 1, 0⟩
    let ed : Editor := ⟨{ input := .pending .delete none none, marks }, .ofText t 2⟩
    let after := (ed.press (.text 'd')).2.forward
    ed.host.Grants ∧ ed.host.changes = [] ∧
      ed.session.marks.get? 'b' = some ⟨2, 1, 0⟩ ∧ after.session.marks.get? 'b' = none ∧
      ed.session.marks.get? 'c' = some ⟨5, 2, 1⟩ ∧
      ∃ q, after.session.marks.get? 'c' = some q ∧ q.line = 1 ∧ q.col = 1 ∧
        after.host.text.line 1 = ['c', 'd'] := by
  intro t marks ed after
  have hg : ed.host.Grants := ⟨rfl, rfl, rfl⟩
  have hchanges : ed.host.changes = [] := rfl
  have hcompletes : ed.completes (.text 'd') = some (.motion .wholeLines 1,
      { mode := .operatorPending, operator := some ⟨.delete, none⟩ }) := by decide
  have hfollow : MarksFollow (Session.deletedLines t (.linewise 2 2)) ed after :=
    (marks_follow_lines hg hchanges).2 _ _ _ _ _ hcompletes rfl
      (.delete (.linewise 2 2) .start rfl)
  have hdeleted := hfollow 'b' ⟨2, 1, 0⟩ rfl rfl (.inl ⟨'b', rfl, by decide⟩)
  have hkept := hfollow 'c' ⟨5, 2, 1⟩ rfl rfl (.inl ⟨'d', rfl, by decide⟩)
  have hinner : ∀ l, ¬ (Session.deletedLines t (.linewise 2 2)).AtBoundary t l :=
    fun l h => absurd h.1 (by decide)
  have htarget : (Session.deletedLines t (.linewise 2 2)).target 2 = 1 := by decide
  have htext : t.line 2 = ['c', 'd'] := by decide
  have hremoved : (Session.deletedLines t (.linewise 2 2)).Removes 1 := ⟨by decide, by decide⟩
  have hstays : ¬ (Session.deletedLines t (.linewise 2 2)).Removes 2 := fun h =>
    absurd h.2 (by decide)
  obtain ⟨q, hq, -, hline, hcol, hsame⟩ := hkept.kept (hinner 2) hstays
  have hfirst : q.line = 1 := hline.trans htarget
  rw [hfirst] at hsame
  exact ⟨hg, hchanges, rfl, hdeleted.removed (hinner 1) hremoved, rfl, q, hq, hfirst, hcol,
    hsame.trans htext⟩

/-- Marks on empty lines at which an edit starts or stops leave their lines. The empty last line is
deleted and its mark stays, on the line above. The last line is deleted and the mark on the empty
line above is gone. A line is put below the empty last one, and the mark on that goes to the line
put. A line is opened below an empty one, and the mark on that goes to the line opened. -/
theorem marks_leave_lines :
    let marked (t : Text) (i : Nat) : Editor :=
      ((⟨.new .normal {} none, .ofText t i⟩ : Editor).pressAll [.text 'm', .text 'a']).2
    let after (ed : Editor) (events : List InputEvent) : Editor := (ed.pressAll events).2.forward
    let deleted := after (marked ['a', '\n'] 2) [.text 'd', .text 'd']
    let below := after (marked ['\n', 'b'] 0) [.text 'j', .text 'd', .text 'd']
    let put := after (marked ['x', '\n'] 2) [.text 'k', .text 'y', .text 'y', .text 'j', .text 'p']
    let opened := after (marked ['\n', 'b'] 0) [.text 'o']
    deleted.host.text = ['a'] ∧ deleted.session.marks.get? 'a' = some ⟨0, 0, 0⟩ ∧
      below.host.text = [] ∧ below.session.marks.get? 'a' = none ∧
      put.host.text = ['x', '\n', '\n', 'x'] ∧
      put.session.marks.get? 'a' = some ⟨3, 2, 0⟩ ∧
      opened.host.text = ['\n', '\n', 'b'] ∧ opened.session.marks.get? 'a' = some ⟨1, 1, 0⟩ := by
  decide

end Editor

end ModalEdit
