import ModalEdit.Proofs.Bounds
import ModalEdit.Proofs.Granting

/-!
# Where commits leave the cursor

A cursor in column `k` of a line comes to rest in the same line, in column `k` or in the last column
if `k` is past it (`restingIndex_lineStart_add`). So the first non-blank of a line is where a cursor
sent there stays, and a cursor sent to any other index stays or is pulled back by one column, the
latter only from the end of its line.
-/

namespace ModalEdit

namespace Text

variable {t : Text} {l i : Nat}

theorem restingIndex_lineStart_add {k : Nat} (hl : l ≤ t.lastLine) (hk : k ≤ t.lineLength l) :
    t.restingIndex (t.lineStart l + k) = t.lineStart l + min k (t.lastColumn l) := by
  have hend := t.lineEnd_le_length l
  rw [lineEnd_eq] at hend
  have hmin : min (t.lineStart l + k) t.length = t.lineStart l + k := by omega
  simp only [restingIndex, Position.ofIndex_eq, lineOf_lineStart_add hl hk, hmin,
    Nat.add_sub_cancel_left]

theorem firstNonBlank_eq_add (t : Text) (l : Nat) :
    ∃ k ≤ t.lastColumn l, t.firstNonBlank l = t.lineStart l + k := by
  simp only [firstNonBlank]
  split
  · refine ⟨_, ?_, rfl⟩
    simp only [lastColumn]
    omega
  · refine ⟨t.lastColumn l, Nat.le_refl _, ?_⟩
    simp only [lastColumn, lineEnd_eq]
    omega

theorem firstNonBlank_le_length (t : Text) (l : Nat) : t.firstNonBlank l ≤ t.length := by
  obtain ⟨k, hk, hfirst⟩ := t.firstNonBlank_eq_add l
  have hcolumn : t.lastColumn l ≤ t.lineLength l := Nat.sub_le _ 1
  have hend := t.lineEnd_le_length l
  rw [lineEnd_eq] at hend
  omega

theorem lineOf_firstNonBlank (hl : l ≤ t.lastLine) : t.lineOf (t.firstNonBlank l) = l := by
  obtain ⟨k, hk, hfirst⟩ := t.firstNonBlank_eq_add l
  rw [hfirst, lineOf_lineStart_add hl (Nat.le_trans hk (Nat.sub_le _ 1))]

theorem restingIndex_firstNonBlank (hl : l ≤ t.lastLine) :
    t.restingIndex (t.firstNonBlank l) = t.firstNonBlank l := by
  obtain ⟨k, hk, hfirst⟩ := t.firstNonBlank_eq_add l
  have hlength : k ≤ t.lineLength l := Nat.le_trans hk (Nat.sub_le _ 1)
  rw [hfirst, restingIndex_lineStart_add hl hlength, Nat.min_eq_left hk]

/-- A cursor stays where it is sent, or it is pulled back one column from the end of its line. -/
theorem restingIndex_cases (hi : i ≤ t.length) :
    t.restingIndex i = i ∨
      0 < i ∧ t.restingIndex i = i - 1 ∧ t.lineEnd (t.lineOf (i - 1)) = i := by
  have hl := t.lineOf_le_lastLine i
  have hstart := t.lineStart_lineOf_le i hi
  have hend := le_lineEnd_lineOf hi
  generalize t.lineOf i = l at hl hstart hend
  obtain ⟨k, rfl⟩ := Nat.exists_eq_add_of_le hstart
  rw [lineEnd_eq] at hend
  have hk : k ≤ t.lineLength l := by omega
  rw [restingIndex_lineStart_add hl hk]
  by_cases hcolumn : k ≤ t.lastColumn l
  · exact Or.inl (by rw [Nat.min_eq_left hcolumn])
  · have hlast : t.lastColumn l = t.lineLength l - 1 := rfl
    have hback : t.lineStart l + k - 1 = t.lineStart l + (k - 1) := by omega
    refine Or.inr ⟨by omega, by omega, ?_⟩
    rw [hback, lineOf_lineStart_add hl (by omega), lineEnd_eq]
    omega

end Text

/-! ## Commits -/

namespace Editor

variable {ed : Editor} {c : Commit}

/-- A commit that lands on a line in Normal mode leaves the cursor on its first non-blank. -/
theorem cursorAt_lineText {l : Nat} (hlanding : c.landing = .lineText l)
    (hrest : c.rest = .normal) : (ed.committed c).CursorAt .normal
      ((ed.committed c).host.text.firstNonBlank (min l (ed.committed c).host.text.lastLine)) := by
  have h := cursorAt_committed c ed
  rw [Commit.cursor, hlanding, hrest] at h
  exact Text.restingIndex_firstNonBlank (Nat.min_le_right l _) ▸ h

theorem cursorAt_index {i : Nat} (hlanding : c.landing = .index i) (hrest : c.rest = .insert)
    (hi : i ≤ (ed.committed c).host.text.length) : (ed.committed c).CursorAt .insert i := by
  have h := cursorAt_committed c ed
  rw [Commit.cursor, hlanding, hrest] at h
  exact Nat.min_eq_left hi ▸ h

end Editor

end ModalEdit
