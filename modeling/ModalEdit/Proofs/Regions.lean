import ModalEdit.Proofs.DeletingWords
import ModalEdit.Proofs.Positions

/-!
# The region of a range

A range is first brought into order and into the text: its region depends on the lower and the upper
of its two ends, each pulled back to the end of the text (`Range.lower`, `Range.upper`), and not on
which of them the motion began at. What the region then holds is its extent's to say
(`ofRange_holds`): the characters of whole lines, those up to and with the upper end, or those
before it. Only the last has a special case, the line break before an upper end in column 0.
-/

namespace ModalEdit

variable {t : Text} {i j l : Nat} {range : Range}

namespace Text

theorem lineStart_le_iff (hl : l ≤ t.lastLine) (hi : i ≤ t.length) :
    t.lineStart l ≤ i ↔ l ≤ t.lineOf i := by
  constructor
  · intro h
    have hline := t.lineOf_mono h
    rwa [lineOf_lineStart hl] at hline
  · intro h
    calc t.lineStart l ≤ t.lineStart (t.lineOf i) := lineStart_mono h (t.lineOf_le_lastLine i)
      _ ≤ i := t.lineStart_lineOf_le i hi

theorem le_lineEnd_iff (hl : l ≤ t.lastLine) (hi : i ≤ t.length) :
    i ≤ t.lineEnd l ↔ t.lineOf i ≤ l := by
  constructor
  · intro h
    have hline := t.lineOf_mono h
    rwa [lineOf_lineEnd hl] at hline
  · intro h
    rcases Nat.lt_or_eq_of_le h with hlt | rfl
    · have hnext := lineEnd_lt_lineStart hlt hl
      have hend := le_lineEnd_lineOf hi
      have hline := t.lineStart_le_lineEnd l
      omega
    · exact le_lineEnd_lineOf hi

end Text

namespace Range

/-- The lower end of a range in a text. -/
def lower (range : Range) (t : Text) : Nat :=
  min (min range.start range.stop) t.length

/-- The upper end of a range in a text. -/
def upper (range : Range) (t : Text) : Nat :=
  min (max range.start range.stop) t.length

theorem lower_le_upper (range : Range) (t : Text) : range.lower t ≤ range.upper t := by
  unfold lower upper
  omega

theorem upper_le_length (range : Range) (t : Text) : range.upper t ≤ t.length :=
  Nat.min_le_right _ _

theorem lineOf_lower (range : Range) (t : Text) : t.lineOf (range.lower t) = range.firstLine t :=
  Text.lineOf_min_length t _

theorem lineOf_upper (range : Range) (t : Text) : t.lineOf (range.upper t) = range.finalLine t :=
  Text.lineOf_min_length t _

end Range

namespace Region

/-- The region is of the whole lines from `first` to `final`. -/
structure HoldsLines (r : Region) (t : Text) (first final : Nat) : Prop where
  linewise : r.linewise = true
  start : r.start = t.lineStart first
  /-- It holds exactly the characters on these lines, their line breaks included. -/
  mem_iff : ∀ i, r.start ≤ i ∧ i < r.stop ↔ i < t.length ∧ first ≤ t.lineOf i ∧ t.lineOf i ≤ final
  /-- They are the lines themselves, and only the last line of the text has no line break. -/
  slice : t.slice r.start r.stop ++ (if final = t.lastLine then ['\n'] else []) =
    Text.ofLines ((t.lines.take (final + 1)).drop first)
  lastLine : r.lastLine = true ↔ final = t.lastLine

theorem lastLine_linewise (h : range.extent = .linewise) :
    (ofRange t range).lastLine = true ↔ range.finalLine t = t.lastLine := by
  have hle := range.finalLine_le_lastLine t
  rw [ofRange_linewise h, decide_eq_true_eq]
  omega

/-- **A range of whole lines holds the lines it touches.** -/
theorem holdsLines_ofRange (h : range.extent = .linewise) :
    (ofRange t range).HoldsLines t (range.firstLine t) (range.finalLine t) where
  linewise := linewise_ofRange h
  start := start_linewise h
  mem_iff i := by
    have hfirst := range.firstLine_le_lastLine t
    have hfinal := range.finalLine_le_lastLine t
    rw [ofRange_linewise h]
    by_cases hi : i < t.length
    · have hstart := Text.lineStart_le_iff hfirst (Nat.le_of_lt hi)
      have hstop := Text.le_lineEnd_iff hfinal (Nat.le_of_lt hi)
      dsimp only
      omega
    · dsimp only
      omega
  slice := by
    have htext := registerText_linewise h (t := t)
    rw [registerText] at htext
    simp only [lastLine_linewise h] at htext
    exact htext
  lastLine := lastLine_linewise h

theorem ofRange_inclusive (t : Text) (a b : Nat) :
    ofRange t (.inclusive a b) =
      ⟨(Range.inclusive a b).lower t, min ((Range.inclusive a b).upper t + 1) t.length, false,
        false⟩ := rfl

/-- **An exclusive range stops before its upper end**, or one line break earlier if that is in column
0 of a later line. -/
theorem ofRange_exclusive_stop (t : Text) (a b : Nat) {lower upper : Nat}
    (hlower : (Range.exclusive a b).lower t = lower)
    (hupper : (Range.exclusive a b).upper t = upper) :
    ∃ stop, ofRange t (.exclusive a b) = ⟨lower, stop, false, false⟩ ∧
      if t.lineOf lower < t.lineOf upper ∧ (Position.ofIndex t upper).col = 0 then
        stop + 1 = upper ∧ t[stop]? = some '\n'
      else stop = upper := by
  have hle := (Range.exclusive a b).upper_le_length t
  have hends := (Range.exclusive a b).lower_le_upper t
  rw [hlower, hupper] at hends
  rw [hupper] at hle
  have hregion : ofRange t (.exclusive a b) = ⟨lower, exclusiveStop t lower upper, false, false⟩ := by
    rw [← hlower, ← hupper]
    rfl
  refine ⟨exclusiveStop t lower upper, hregion, ?_⟩
  rcases Nat.lt_or_eq_of_le hends with hlt | rfl
  · have hstart := t.lineStart_lineOf_le upper hle
    have hcol : (Position.ofIndex t upper).col = 0 ↔ t.lineStart (t.lineOf upper) = upper := by
      rw [Position.ofIndex_eq, Nat.min_eq_left hle]
      dsimp only
      omega
    simp only [exclusiveStop_eq hlt hle, hcol]
    split
    · rename_i hlater
      have hlast := t.lineOf_le_lastLine upper
      have hbreak := Text.lineEnd_before hlater.2 hlater.1
      refine ⟨by omega, ?_⟩
      rw [show upper - 1 = t.lineEnd (t.lineOf upper - 1) by omega]
      exact Text.getElem?_lineEnd (by omega)
    · rfl
  · rw [if_neg fun h => Nat.lt_irrefl _ h.1, exclusiveStop, if_neg fun h => Nat.lt_irrefl _ h.1]

/-- **What a range comes to in a text.** The order of its ends does not matter, its region lies in
the text, and each extent has its own rule for what the region holds between the two ends, pulled
back to the end of the text: the whole lines of both and all lines between; up to and with the
character at the upper end; or up to the upper end, without the line break before it if that is in
column 0 of a later line. -/
theorem ofRange_holds (t : Text) (a b : Nat) (extent : Extent) :
    ofRange t ⟨a, b, extent⟩ = ofRange t ⟨b, a, extent⟩ ∧
      (ofRange t ⟨a, b, extent⟩).start ≤ (ofRange t ⟨a, b, extent⟩).stop ∧
      (ofRange t ⟨a, b, extent⟩).stop ≤ t.length ∧
      ∃ lower upper, lower = min (min a b) t.length ∧ upper = min (max a b) t.length ∧
        match extent with
        | .linewise => (ofRange t (.linewise a b)).HoldsLines t (t.lineOf lower) (t.lineOf upper)
        | .inclusive =>
          ofRange t (.inclusive a b) = ⟨lower, min (upper + 1) t.length, false, false⟩
        | .exclusive =>
          ∃ stop, ofRange t (.exclusive a b) = ⟨lower, stop, false, false⟩ ∧
            if t.lineOf lower < t.lineOf upper ∧ (Position.ofIndex t upper).col = 0 then
              stop + 1 = upper ∧ t[stop]? = some '\n'
            else stop = upper := by
  obtain ⟨hle, hstop⟩ := ofRange_le t ⟨a, b, extent⟩
  refine ⟨ofRange_comm t a b extent, hle, hstop, _, _, rfl, rfl, ?_⟩
  cases extent with
  | linewise =>
    have hlines : (ofRange t (.linewise a b)).HoldsLines t _ _ := holdsLines_ofRange rfl
    rwa [← Range.lineOf_lower, ← Range.lineOf_upper] at hlines
  | inclusive => exact ofRange_inclusive t a b
  | exclusive => exact ofRange_exclusive_stop t a b rfl rfl

/-- A word is deleted up to the next line, and the line break stays. -/
example : ofRange ['a', '\n', 'b'] (.exclusive 2 0) = ⟨0, 1, false, false⟩ := by decide

end Region

end ModalEdit
