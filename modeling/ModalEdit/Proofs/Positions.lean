import Mathlib.Data.Prod.Lex
import ModalEdit.Proofs.LineList
import ModalEdit.Text.Position

/-!
# Positions of a text

A position is one of a text if its line and column are those of its index (`Position.IsOf`). Then
its line and column determine it (`IsOf.ofLineCol_eq`), and comparing lines first and columns after
is comparing indices (`before_iff`). What stands after an index does not matter to its position
(`ofIndex_eq_of_take_eq`), and in a text put below whole lines the columns of its first line are
those of the line after them (`ofLineCol_ofLines_append`).
-/

namespace ModalEdit

namespace Text

variable {t : Text} {l : Nat}

theorem lineEnd_lt_lineStart {l' : Nat} (hlt : l < l') (hl' : l' ≤ t.lastLine) :
    t.lineEnd l < t.lineStart l' :=
  calc t.lineEnd l < t.lineEnd l + 1 := Nat.lt_succ_self _
    _ = t.lineStart (l + 1) := (lineStart_succ (Nat.lt_of_lt_of_le hlt hl')).symm
    _ ≤ t.lineStart l' := lineStart_mono hlt hl'

/-- A line depends on the text from its start up to the break that ends it. -/
theorem takeWhile_eq_of_take_eq {u : Text}
    (h : t.take ((u.takeWhile (· ≠ '\n')).length + 1) =
      u.take ((u.takeWhile (· ≠ '\n')).length + 1)) :
    t.takeWhile (· ≠ '\n') = u.takeWhile (· ≠ '\n') := by
  induction u generalizing t with
  | nil =>
    obtain rfl : t = [] := by simpa using h
    rfl
  | cons d ds ih =>
    cases t with
    | nil => simp at h
    | cons c cs =>
      obtain ⟨rfl, htail⟩ := List.cons_eq_cons.1 h
      by_cases hc : c = '\n'
      · simp [hc]
      · rw [List.takeWhile_cons_of_pos (by simpa using hc), List.length_cons] at htail
        rw [List.takeWhile_cons_of_pos (by simpa using hc),
          List.takeWhile_cons_of_pos (by simpa using hc), ih htail]

section BelowLines

variable {above : List Text} (h : ∀ line ∈ above, '\n' ∉ line) (rest : Text)

include h

theorem length_le_lastLine_ofLines : above.length ≤ (ofLines above ++ rest).lastLine := by
  have hpos := List.length_pos_iff.2 rest.lines_ne_nil
  rw [lastLine_eq, lines_ofLines_append h, List.length_append]
  omega

theorem line_ofLines_append : (ofLines above ++ rest).line above.length = rest.line 0 := by
  have hline := getElem?_lines (ofLines above ++ rest) above.length
  rw [lines_ofLines_append h, List.getElem?_append_right (Nat.le_refl _), Nat.sub_self,
    getElem?_lines, if_pos (Nat.zero_le _), if_pos (length_le_lastLine_ofLines h rest)] at hline
  exact (Option.some.inj hline).symm

theorem lineStart_ofLines_append :
    (ofLines above ++ rest).lineStart above.length = (ofLines above).length := by
  rw [lineStart_eq_length (length_le_lastLine_ofLines h rest), lines_ofLines_append h,
    List.take_left]

theorem count_ofLines : (ofLines above).count '\n' = above.length := by
  have hlines := lines_ofLines_append h []
  have hlength := congrArg List.length hlines
  rw [List.append_nil, length_lines, List.length_append] at hlength
  exact Nat.succ.inj hlength

end BelowLines

end Text

namespace Position

variable {t u : Text} {p q : Position}

/-- The line and the column of the position are those of its index, which lies in the text. -/
def IsOf (p : Position) (t : Text) : Prop := p = ofIndex t p.index

theorem ofIndex_min_length (t : Text) (i : Nat) : ofIndex t (min i t.length) = ofIndex t i := by
  have hline : t.lineOf (min i t.length) = t.lineOf i := by
    unfold Text.lineOf
    rw [← List.take_eq_take_min]
  rw [ofIndex_eq, ofIndex_eq, hline, Nat.min_assoc, Nat.min_self]

theorem isOf_ofIndex (t : Text) (i : Nat) : (ofIndex t i).IsOf t := by
  rw [IsOf, ofIndex_index, ofIndex_min_length]

theorem IsOf.index_le (h : p.IsOf t) : p.index ≤ t.length := by
  rw [h, ofIndex_index]
  exact Nat.min_le_right _ _

theorem IsOf.line_eq (h : p.IsOf t) : p.line = t.lineOf p.index := by
  have hline := congrArg Position.line h
  rwa [ofIndex_line] at hline

theorem IsOf.line_le (h : p.IsOf t) : p.line ≤ t.lastLine := by
  rw [h.line_eq]
  exact t.lineOf_le_lastLine _

/-- A position stands at its column from the start of its line. -/
theorem IsOf.index_eq (h : p.IsOf t) : p.index = t.lineStart p.line + p.col := by
  have hcol := congrArg Position.col h
  rw [ofIndex_eq, Nat.min_eq_left h.index_le] at hcol
  have hstart := t.lineStart_lineOf_le _ h.index_le
  rw [h.line_eq]
  dsimp only at hcol
  omega

theorem IsOf.col_le (h : p.IsOf t) : p.col ≤ t.lineLength p.line := by
  have hend := Text.le_lineEnd_lineOf h.index_le
  have hindex := h.index_eq
  rw [← h.line_eq] at hend
  simp only [Text.lineEnd] at hend
  omega

theorem isOf_of_col_le {l c : Nat} (hl : l ≤ t.lastLine) (hc : c ≤ t.lineLength l) :
    (⟨t.lineStart l + c, l, c⟩ : Position).IsOf t := by
  have hend := t.lineEnd_le_length l
  simp only [Text.lineEnd] at hend
  have hmin : min (t.lineStart l + c) t.length = t.lineStart l + c := by omega
  rw [IsOf, ofIndex_eq, Text.lineOf_lineStart_add hl hc, hmin, Nat.add_sub_cancel_left]

theorem ofLineCol_eq {l c : Nat} (hl : l ≤ t.lastLine) (hc : c ≤ t.lineLength l) :
    ofLineCol t l c = ⟨t.lineStart l + c, l, c⟩ := by
  simp only [ofLineCol, Nat.min_eq_left hl, Nat.min_eq_left hc]

/-- A line and a column always give a position of the text. -/
theorem isOf_ofLineCol (t : Text) (l c : Nat) : (ofLineCol t l c).IsOf t :=
  isOf_of_col_le (Nat.min_le_right _ _) (Nat.min_le_right _ _)

/-- **The line and the column of a position determine it.** -/
theorem IsOf.ofLineCol_eq (h : p.IsOf t) : ofLineCol t p.line p.col = p := by
  rw [Position.ofLineCol_eq h.line_le h.col_le, ← h.index_eq]

/-- **Positions are ordered as their indices are.** -/
theorem before_iff (hp : p.IsOf t) (hq : q.IsOf t) : p.before q = true ↔ p.index < q.index := by
  have hpc := hp.col_le
  have hqc := hq.col_le
  rw [hp.index_eq, hq.index_eq]
  simp only [before, Bool.or_eq_true, Bool.and_eq_true, decide_eq_true_eq, beq_iff_eq]
  rcases Nat.lt_trichotomy p.line q.line with hlt | heq | hgt
  · have hlines := Text.lineEnd_lt_lineStart hlt hq.line_le
    simp only [Text.lineEnd] at hlines
    omega
  · rw [heq]
    omega
  · have hlines := Text.lineEnd_lt_lineStart hgt hp.line_le
    simp only [Text.lineEnd] at hlines
    omega

/-- The line and the column, in the order of reading. -/
def place (p : Position) : Nat ×ₗ Nat := toLex (p.line, p.col)

theorem before_iff_place (p q : Position) : p.before q = true ↔ p.place < q.place := by
  simp [before, place, Prod.Lex.toLex_lt_toLex]

/-! ## Positions after an edit -/

theorem walk_take (i l c n : Nat) (t : Text) : walk i l c n (t.take n) = walk i l c n t := by
  induction t generalizing i l c n with
  | nil => rw [List.take_nil]
  | cons d ds ih =>
    cases n with
    | zero => rfl
    | succ n => simp only [List.take_succ_cons, walk, ih]

/-- **A position depends on the text before it only.** -/
theorem ofIndex_eq_of_take_eq {i : Nat} (h : t.take i = u.take i) : ofIndex t i = ofIndex u i := by
  unfold ofIndex
  rw [← walk_take, h, walk_take]

/-- **Below whole lines** the columns of a text's first line are those of the line after them. -/
theorem ofLineCol_ofLines_append {above : List Text} {rest : Text} {c : Nat}
    (h : ∀ line ∈ above, '\n' ∉ line) (hc : c ≤ (rest.line 0).length) :
    ofLineCol (Text.ofLines above ++ rest) above.length c =
      ⟨(Text.ofLines above).length + c, above.length, c⟩ := by
  rw [← Text.line_ofLines_append h] at hc
  rw [ofLineCol_eq (Text.length_le_lastLine_ofLines h rest) hc, Text.lineStart_ofLines_append h]

end Position

end ModalEdit
