import ModalEdit.Text.Lines

/-!
# The arithmetic of lines

Where lines start and end determines the line of every index. A line ends on a line feed or at the
end of the text, the next one starts right after it, and the indices from a line's start to its end
are the indices on that line.

The proofs go by induction on the text: the first character is either the whole of an empty first
line, or it lengthens the first line by one, and the lines after it are those of the rest of the
text.
-/

namespace ModalEdit.Text

variable {t : Text} {i l : Nat}

/-! ## One more character -/

@[simp] theorem line_nil (l : Nat) : line [] l = [] := by
  simp [line]

theorem line_cons_zero (c : Char) (cs : Text) :
    line (c :: cs) 0 = if c = '\n' then [] else c :: line cs 0 := by
  by_cases h : c = '\n' <;> simp [line, h]

theorem line_cons_succ (c : Char) (cs : Text) (l : Nat) :
    line (c :: cs) (l + 1) = line cs (if c = '\n' then l else l + 1) := by
  simp [line, lineStart_cons_succ, Nat.add_comm 1]

@[simp] theorem lineEnd_nil (l : Nat) : lineEnd [] l = 0 := by
  simp [lineEnd, lineLength]

theorem lineEnd_cons_zero (c : Char) (cs : Text) :
    lineEnd (c :: cs) 0 = if c = '\n' then 0 else lineEnd cs 0 + 1 := by
  by_cases h : c = '\n' <;> simp [lineEnd, lineLength, line_cons_zero, h]

theorem lineEnd_cons_succ (c : Char) (cs : Text) (l : Nat) :
    lineEnd (c :: cs) (l + 1) = lineEnd cs (if c = '\n' then l else l + 1) + 1 := by
  simp only [lineEnd, lineLength, line_cons_succ, lineStart_cons_succ]
  omega

theorem lastLine_cons (c : Char) (cs : Text) :
    lastLine (c :: cs) = if c = '\n' then lastLine cs + 1 else lastLine cs := by
  by_cases h : c = '\n' <;> simp [lastLine, h]

/-! ## Starts and ends -/

theorem lineStart_le_lineEnd (t : Text) (l : Nat) : t.lineStart l ≤ t.lineEnd l :=
  Nat.le_add_right _ _

theorem lineEnd_lastLine (t : Text) : t.lineEnd t.lastLine = t.length := by
  induction t with
  | nil => simp
  | cons c cs ih =>
    by_cases h : c = '\n'
    · simp [lastLine_cons, lineEnd_cons_succ, h, ih]
    · cases hl : lastLine cs with
      | zero => simpa [lastLine_cons, lineEnd_cons_zero, h, hl] using ih
      | succ l => simpa [lastLine_cons, lineEnd_cons_succ, h, hl] using ih

/-- The next line starts right after the line feed of a line. -/
theorem lineStart_succ (h : l < t.lastLine) : t.lineStart (l + 1) = t.lineEnd l + 1 := by
  induction t generalizing l with
  | nil => simp [lastLine] at h
  | cons c cs ih =>
    rw [lastLine_cons] at h
    rw [lineStart_cons_succ]
    by_cases hc : c = '\n'
    · rw [if_pos hc] at h ⊢
      cases l with
      | zero => simp [lineEnd_cons_zero, hc]
      | succ l => rw [lineEnd_cons_succ, if_pos hc, ih (by omega)]; omega
    · rw [if_neg hc] at h ⊢
      cases l with
      | zero => rw [lineEnd_cons_zero, if_neg hc, ih h]; omega
      | succ l => rw [lineEnd_cons_succ, if_neg hc, ih h]; omega

/-- A line that is not the last ends on a line feed. -/
theorem getElem?_lineEnd (h : l < t.lastLine) : t[t.lineEnd l]? = some '\n' := by
  induction t generalizing l with
  | nil => simp [lastLine] at h
  | cons c cs ih =>
    rw [lastLine_cons] at h
    by_cases hc : c = '\n'
    · rw [if_pos hc] at h
      cases l with
      | zero => simp [lineEnd_cons_zero, hc]
      | succ l => simpa [lineEnd_cons_succ, hc] using ih (by omega)
    · rw [if_neg hc] at h
      cases l with
      | zero => simpa [lineEnd_cons_zero, hc] using ih h
      | succ l => simpa [lineEnd_cons_succ, hc] using ih h

/-- A line number past the last line stands for the end of the text. -/
theorem lineStart_of_lastLine_lt (h : t.lastLine < l) : t.lineStart l = t.length := by
  induction t generalizing l with
  | nil => simp
  | cons c cs ih =>
    rw [lastLine_cons] at h
    cases l with
    | zero => omega
    | succ l =>
      rw [lineStart_cons_succ]
      by_cases hc : c = '\n'
      · rw [if_pos hc] at h ⊢
        rw [ih (by omega), List.length_cons]; omega
      · rw [if_neg hc] at h ⊢
        rw [ih h, List.length_cons]; omega

/-! ## The line of an index -/

/-- The indices from a line's start to its end are on that line. -/
theorem lineOf_lineStart_add {k : Nat} (hl : l ≤ t.lastLine) (hk : k ≤ t.lineLength l) :
    t.lineOf (t.lineStart l + k) = l := by
  induction t generalizing l k with
  | nil =>
    simp only [lastLine, List.count_nil, Nat.le_zero] at hl
    simp [lineOf, hl]
  | cons c cs ih =>
    rw [lastLine_cons] at hl
    by_cases hc : c = '\n'
    · rw [if_pos hc] at hl
      cases l with
      | zero =>
        have : k = 0 := by simpa [lineLength, line_cons_zero, hc] using hk
        simp [this]
      | succ l =>
        have hk' : k ≤ lineLength cs l := by simpa [lineLength, line_cons_succ, hc] using hk
        rw [lineStart_cons_succ, if_pos hc,
          show 1 + lineStart cs l + k = lineStart cs l + k + 1 by omega,
          lineOf_cons_succ, if_pos hc, ih (by omega) hk']
    · rw [if_neg hc] at hl
      cases l with
      | zero =>
        cases k with
        | zero => simp
        | succ k =>
          have hk' : k ≤ lineLength cs 0 := by simpa [lineLength, line_cons_zero, hc] using hk
          have := ih (Nat.zero_le _) hk'
          rw [lineStart_zero, Nat.zero_add] at this ⊢
          rw [lineOf_cons_succ, if_neg hc, this]
      | succ l =>
        have hk' : k ≤ lineLength cs (l + 1) := by simpa [lineLength, line_cons_succ, hc] using hk
        rw [lineStart_cons_succ, if_neg hc,
          show 1 + lineStart cs (l + 1) + k = lineStart cs (l + 1) + k + 1 by omega,
          lineOf_cons_succ, if_neg hc, ih hl hk']

theorem lineOf_lineStart (hl : l ≤ t.lastLine) : t.lineOf (t.lineStart l) = l := by
  simpa using lineOf_lineStart_add (k := 0) hl (Nat.zero_le _)

theorem lineOf_lineEnd (hl : l ≤ t.lastLine) : t.lineOf (t.lineEnd l) = l :=
  lineOf_lineStart_add hl (Nat.le_refl _)

theorem le_lineEnd_lineOf (h : i ≤ t.length) : i ≤ t.lineEnd (t.lineOf i) := by
  induction t generalizing i with
  | nil => simpa using h
  | cons c cs ih =>
    cases i with
    | zero => exact Nat.zero_le _
    | succ i =>
      have := ih (i := i) (by simpa using h)
      rw [lineOf_cons_succ]
      by_cases hc : c = '\n'
      · rw [if_pos hc, lineEnd_cons_succ, if_pos hc]; omega
      · rw [if_neg hc]
        cases hl : lineOf cs i with
        | zero => rw [hl] at this; rw [lineEnd_cons_zero, if_neg hc]; omega
        | succ l => rw [hl] at this; rw [lineEnd_cons_succ, if_neg hc]; omega

/-- An index is on a line exactly when it lies between the line's start and its end. -/
theorem lineOf_eq_iff (hl : l ≤ t.lastLine) (hi : i ≤ t.length) :
    t.lineOf i = l ↔ t.lineStart l ≤ i ∧ i ≤ t.lineEnd l := by
  constructor
  · rintro rfl
    exact ⟨t.lineStart_lineOf_le i hi, le_lineEnd_lineOf hi⟩
  · rintro ⟨h₁, h₂⟩
    obtain ⟨k, rfl⟩ := Nat.exists_eq_add_of_le h₁
    exact lineOf_lineStart_add hl (by simpa [lineEnd] using h₂)

/-! ## The list of lines -/

theorem lines_ne_nil (t : Text) : t.lines ≠ [] := by
  cases t with
  | nil => simp [lines]
  | cons c cs =>
    rw [lines]
    split
    · simp
    · split <;> simp

/-- The list of lines holds each line at its number. -/
theorem getElem?_lines (t : Text) (l : Nat) :
    t.lines[l]? = if l ≤ t.lastLine then some (t.line l) else none := by
  induction t generalizing l with
  | nil => cases l <;> simp [lines, lastLine]
  | cons c cs ih =>
    rw [lastLine_cons]
    by_cases hc : c = '\n'
    · rw [if_pos hc, lines, if_pos hc]
      cases l with
      | zero => simp [line_cons_zero, hc]
      | succ l => simp [line_cons_succ, hc, ih]
    · rw [if_neg hc, lines, if_neg hc]
      cases hl : lines cs with
      | nil => exact absurd hl (lines_ne_nil cs)
      | cons first rest =>
        have h := ih l
        rw [hl] at h
        cases l with
        | zero =>
          have : first = line cs 0 := by simpa using h
          simp [line_cons_zero, hc, this]
        | succ l => simpa [line_cons_succ, hc] using h

@[simp] theorem length_lines (t : Text) : t.lines.length = t.lineCount := by
  have h := t.getElem?_lines t.lastLine
  have h' := t.getElem?_lines (t.lastLine + 1)
  rw [if_pos (Nat.le_refl _)] at h
  rw [if_neg (by omega)] at h'
  have := (List.getElem?_eq_some_iff.1 h).1
  have := List.getElem?_eq_none_iff.1 h'
  rw [lineCount_eq]
  omega

end ModalEdit.Text
