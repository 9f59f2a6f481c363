import ModalEdit.Text.Lines.Lemmas

/-!
# Texts as lists of lines

A text and its list of lines determine each other. A line break between two texts separates their
lines (`lines_append_break`), and everything about the list of lines follows from that equation. In
the other direction, `ofLines` is the text of whole lines, each followed by a line break.

The text before the start of a line is the text of the whole lines above it (`take_lineStart`), and
the lines of the text from there on are the lines from that one on (`lines_drop_lineStart`). So a
text cut at the starts of lines and put together again has the lines of its pieces.
-/

namespace ModalEdit.Text

variable {t : Text} {ls : List Text} {l : Nat}

/-! ## Whole lines -/

/-- The text of whole lines, each followed by a line break. -/
def ofLines (ls : List Text) : Text :=
  ls.flatMap (· ++ ['\n'])

@[simp] theorem ofLines_nil : ofLines [] = [] := rfl

@[simp] theorem ofLines_cons (line : Text) (ls : List Text) :
    ofLines (line :: ls) = line ++ '\n' :: ofLines ls := by
  simp [ofLines]

@[simp] theorem ofLines_append (ls ls' : List Text) :
    ofLines (ls ++ ls') = ofLines ls ++ ofLines ls' := by
  simp [ofLines]

theorem copies_ofLines (ls : List Text) (n : Nat) :
    (ofLines ls).copies n = ofLines (List.replicate n ls).flatten := by
  rw [copies_eq]
  induction n with
  | zero => rfl
  | succ n ih => simp [List.replicate_succ, ih]

theorem ofLines_eq_append_lineBreak (h : ls ≠ []) : ∃ u, ofLines ls = u ++ ['\n'] := by
  rcases List.eq_nil_or_concat ls with rfl | ⟨init, last, rfl⟩
  · exact absurd rfl h
  · exact ⟨ofLines init ++ last, by simp⟩

/-! ## The lines of a text -/

/-- **A line break separates lines.** -/
theorem lines_append_break (t u : Text) : lines (t ++ '\n' :: u) = lines t ++ lines u := by
  induction t with
  | nil => simp [lines]
  | cons c cs ih =>
    rw [List.cons_append, lines, lines, ih]
    by_cases hc : c = '\n'
    · rw [if_pos hc, if_pos hc]
      rfl
    · rw [if_neg hc, if_neg hc]
      cases hl : lines cs with
      | nil => exact absurd hl (lines_ne_nil cs)
      | cons first rest => rfl

theorem lines_eq_singleton {line : Text} (h : '\n' ∉ line) : lines line = [line] := by
  induction line with
  | nil => rfl
  | cons c cs ih =>
    rw [List.mem_cons, not_or] at h
    obtain ⟨hc, hcs⟩ := h
    rw [lines, if_neg (Ne.symm hc), ih hcs]

theorem lines_ofLines_append (h : ∀ line ∈ ls, '\n' ∉ line) (t : Text) :
    lines (ofLines ls ++ t) = ls ++ lines t := by
  induction ls with
  | nil => rfl
  | cons line ls ih =>
    have hline := lines_eq_singleton (h line (by simp))
    have hls := ih fun line' hline' => h line' (by simp [hline'])
    rw [ofLines_cons, List.append_assoc, List.cons_append, lines_append_break, hline, hls]
    rfl

theorem lineBreak_notMem_of_mem_lines {line : Text} (h : line ∈ t.lines) : '\n' ∉ line := by
  induction t generalizing line with
  | nil =>
    rw [lines, List.mem_singleton] at h
    simp [h]
  | cons c cs ih =>
    rw [lines] at h
    by_cases hc : c = '\n'
    · rw [if_pos hc] at h
      rcases List.mem_cons.1 h with rfl | h
      · simp
      · exact ih h
    · rw [if_neg hc] at h
      cases hl : lines cs with
      | nil => exact absurd hl (lines_ne_nil cs)
      | cons first rest =>
        rw [hl] at h ih
        rcases List.mem_cons.1 h with rfl | h
        · simp [Ne.symm hc, ih]
        · exact ih (by simp [h])

theorem lineBreak_notMem_of_mem_take {line : Text} (h : line ∈ t.lines.take l) : '\n' ∉ line :=
  lineBreak_notMem_of_mem_lines (List.mem_of_mem_take h)

/-- The lines of a text make up the text, with a line break after its last line. -/
theorem ofLines_lines (t : Text) : ofLines t.lines = t ++ ['\n'] := by
  induction t with
  | nil => rfl
  | cons c cs ih =>
    rw [lines]
    by_cases hc : c = '\n'
    · rw [if_pos hc, ofLines_cons, ih, hc]
      rfl
    · rw [if_neg hc]
      cases hl : lines cs with
      | nil => exact absurd hl (lines_ne_nil cs)
      | cons first rest =>
        rw [hl, ofLines_cons] at ih
        rw [ofLines_cons, List.cons_append, ih]
        rfl

/-- **Texts with the same lines are the same.** -/
theorem lines_injective {t u : Text} (h : t.lines = u.lines) : t = u := by
  have hbreak : t ++ ['\n'] = u ++ ['\n'] := by rw [← ofLines_lines, h, ofLines_lines]
  exact List.append_cancel_right hbreak

theorem utf8Length_ofLines_lines (t : Text) : (ofLines t.lines).utf8Length = t.utf8Length + 1 := by
  rw [ofLines_lines, utf8Length_append]
  rfl

theorem lastLine_eq (t : Text) : t.lastLine = t.lines.length - 1 := by
  rw [length_lines, lineCount_eq]
  omega

theorem lt_length_lines (h : l ≤ t.lastLine) : l < t.lines.length := by
  rw [length_lines, lineCount_eq]
  omega

theorem drop_succ_lastLine (t : Text) : t.lines.drop (t.lastLine + 1) = [] := by
  rw [← lineCount_eq, ← length_lines, List.drop_length]

theorem take_succ_lastLine (t : Text) : t.lines.take (t.lastLine + 1) = t.lines := by
  rw [← lineCount_eq, ← length_lines, List.take_length]

theorem length_take_lines (h : l ≤ t.lastLine + 1) : (t.lines.take l).length = l := by
  rw [← lineCount_eq, ← length_lines] at h
  exact List.length_take_of_le h

theorem take_lines_ne_nil (h : 0 < l) : t.lines.take l ≠ [] := by
  intro hnil
  rcases List.take_eq_nil_iff.1 hnil with hl | hl
  · omega
  · exact lines_ne_nil t hl

/-! ## Cutting at the start of a line -/

/-- **The text before a line is that of the whole lines above it.** -/
theorem take_lineStart (h : l ≤ t.lastLine) :
    t.take (t.lineStart l) = ofLines (t.lines.take l) := by
  induction t generalizing l with
  | nil =>
    have hl : l = 0 := by simpa [lastLine] using h
    simp [hl]
  | cons c cs ih =>
    cases l with
    | zero => simp
    | succ l =>
      rw [lastLine_cons] at h
      rw [lineStart_cons_succ, Nat.add_comm, List.take_succ_cons, lines]
      by_cases hc : c = '\n'
      · rw [if_pos hc] at h ⊢
        rw [if_pos hc, ih (by omega), List.take_succ_cons, ofLines_cons, hc]
        rfl
      · rw [if_neg hc] at h ⊢
        rw [if_neg hc, ih h]
        cases hl : lines cs with
        | nil => exact absurd hl (lines_ne_nil cs)
        | cons first rest => simp

/-- **The text from the start of a line on has the lines from that one on.** -/
theorem lines_drop_lineStart (h : l ≤ t.lastLine) :
    lines (t.drop (t.lineStart l)) = t.lines.drop l := by
  have hlines := lines_ofLines_append (fun _ => lineBreak_notMem_of_mem_take (t := t) (l := l))
    (t.drop (t.lineStart l))
  rw [← take_lineStart h, List.take_append_drop] at hlines
  rw [hlines]
  exact (List.drop_left' (length_take_lines (Nat.le_succ_of_le h))).symm

theorem lineStart_eq_length (h : l ≤ t.lastLine) :
    t.lineStart l = (ofLines (t.lines.take l)).length := by
  rw [← take_lineStart h, List.length_take_of_le (t.lineStart_le_length l)]

theorem lineStart_pos (h : l ≤ t.lastLine) (hpos : 0 < l) : 0 < t.lineStart l := by
  obtain ⟨u, hu⟩ := ofLines_eq_append_lineBreak (take_lines_ne_nil (t := t) hpos)
  rw [lineStart_eq_length h, hu, List.length_append]
  exact Nat.succ_pos _

/-- The whole lines above a line are those above an earlier one and those between the two. -/
theorem ofLines_take_of_le {i j : Nat} (hij : i ≤ j) (ls : List Text) :
    ofLines (ls.take j) = ofLines (ls.take i) ++ ofLines ((ls.take j).drop i) := by
  rw [← ofLines_append, ← take_eq_append_of_le hij]

theorem lineStart_mono {i j : Nat} (hij : i ≤ j) (hj : j ≤ t.lastLine) :
    t.lineStart i ≤ t.lineStart j := by
  rw [lineStart_eq_length hj, lineStart_eq_length (Nat.le_trans hij hj), ofLines_take_of_le hij,
    List.length_append]
  exact Nat.le_add_right _ _

/-- The text from one line to before another is that of the whole lines between. -/
theorem slice_lineStart {i j : Nat} (hij : i ≤ j) (hj : j ≤ t.lastLine) :
    t.slice (t.lineStart i) (t.lineStart j) = ofLines ((t.lines.take j).drop i) := by
  unfold slice
  rw [take_lineStart hj, ofLines_take_of_le hij, lineStart_eq_length (Nat.le_trans hij hj),
    List.drop_left]

/-- The text from a line on is that of whole lines but for the last line break. -/
theorem drop_lineStart_append_lineBreak (h : l ≤ t.lastLine) :
    t.drop (t.lineStart l) ++ ['\n'] = ofLines (t.lines.drop l) := by
  rw [← lines_drop_lineStart h, ofLines_lines]

theorem drop_lineEnd (h : l < t.lastLine) :
    t.drop (t.lineEnd l) = '\n' :: t.drop (t.lineStart (l + 1)) := by
  have hbreak := getElem?_lineEnd h
  obtain ⟨hlt, hget⟩ := List.getElem?_eq_some_iff.1 hbreak
  rw [List.drop_eq_getElem_cons hlt, hget, lineStart_succ h]

/-! ## Edits of whole lines -/

/-- **Replacing whole lines by whole lines.** -/
theorem lines_splice_lineStart {i j : Nat} (hij : i ≤ j) (hj : j ≤ t.lastLine)
    (h : ∀ line ∈ ls, '\n' ∉ line) :
    lines (t.splice (t.lineStart i) (t.lineStart j) (ofLines ls)) =
      t.lines.take i ++ (ls ++ t.lines.drop j) := by
  unfold splice
  rw [take_lineStart (Nat.le_trans hij hj), Nat.max_eq_right (lineStart_mono hij hj),
    lines_ofLines_append fun _ => lineBreak_notMem_of_mem_take, lines_ofLines_append h,
    lines_drop_lineStart hj]

theorem lines_splice_length (h : l ≤ t.lastLine) (new : Text) :
    lines (t.splice (t.lineStart l) t.length new) = t.lines.take l ++ lines new := by
  unfold splice
  rw [take_lineStart h, Nat.max_eq_right (t.lineStart_le_length l), List.drop_length,
    List.append_nil, lines_ofLines_append fun _ => lineBreak_notMem_of_mem_take]

theorem lines_of_append_lineBreak {u : Text} (h : ∀ line ∈ ls, '\n' ∉ line)
    (hu : u ++ ['\n'] = ofLines ls) : lines u = ls := by
  have hlines := lines_append_break u []
  rw [hu, ← List.append_nil (ofLines ls), lines_ofLines_append h] at hlines
  exact (List.append_cancel_right hlines).symm

/-- The text above a line, without the line break before it, has the lines above. -/
theorem lines_take_lineStart_sub_one (h : l ≤ t.lastLine) (hpos : 0 < l) :
    lines (t.take (t.lineStart l - 1)) = t.lines.take l := by
  obtain ⟨u, hu⟩ := ofLines_eq_append_lineBreak (take_lines_ne_nil (t := t) hpos)
  have hstart : t.lineStart l = u.length + 1 := by
    rw [lineStart_eq_length h, hu, List.length_append, List.length_singleton]
  have htake : t.take (t.lineStart l - 1) = u := by
    have hmin : min u.length (t.lineStart l) = u.length := by omega
    rw [hstart, Nat.add_sub_cancel, ← hmin, ← List.take_take, take_lineStart h, hu, List.take_left]
  rw [htake]
  exact lines_of_append_lineBreak (fun _ => lineBreak_notMem_of_mem_take) hu.symm

theorem lines_take_lineEnd (h : l ≤ t.lastLine) :
    lines (t.take (t.lineEnd l)) = t.lines.take (l + 1) := by
  rcases Nat.lt_or_eq_of_le h with hlast | rfl
  · have hend : t.lineEnd l = t.lineStart (l + 1) - 1 := by rw [lineStart_succ hlast]; omega
    rw [hend, lines_take_lineStart_sub_one hlast (Nat.succ_pos l)]
  · rw [lineEnd_lastLine, List.take_length, take_succ_lastLine]

theorem lines_splice_lineEnd (h : l ≤ t.lastLine) (u : Text) :
    lines (t.splice (t.lineEnd l) (t.lineEnd l) ('\n' :: u)) =
      t.lines.take (l + 1) ++ (lines u ++ t.lines.drop (l + 1)) := by
  unfold splice
  rw [Nat.max_self, List.cons_append, lines_append_break, lines_take_lineEnd h]
  rcases Nat.lt_or_eq_of_le h with hlast | rfl
  · rw [drop_lineEnd hlast, lines_append_break, lines_drop_lineStart hlast]
  · rw [lineEnd_lastLine, List.drop_length, drop_succ_lastLine, List.append_nil, List.append_nil]

theorem lineEnd_add_one_eq_length (h : l ≤ t.lastLine) :
    t.lineEnd l + 1 = (ofLines (t.lines.take (l + 1))).length := by
  rw [← lines_take_lineEnd h, ofLines_lines, List.length_append,
    List.length_take_of_le (t.lineEnd_le_length l), List.length_singleton]

/-- Where the lines below start, if lines of another text stay above them. -/
theorem lineStart_of_lines {u : Text} {below : List Text} (hl : l ≤ t.lastLine + 1)
    (hbelow : below ≠ []) (h : u.lines = t.lines.take l ++ below) :
    l ≤ u.lastLine ∧ u.lineStart l = (ofLines (t.lines.take l)).length := by
  have habove := length_take_lines hl
  have hle : l ≤ u.lastLine := by
    have hpos := List.length_pos_iff.2 hbelow
    rw [lastLine_eq, h, List.length_append, habove]
    omega
  refine ⟨hle, ?_⟩
  rw [lineStart_eq_length hle, h, List.take_left' habove]

end ModalEdit.Text
