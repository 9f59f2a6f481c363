import ModalEdit.Text.Basic

/-!
# Lines

Lines are separated by a line feed and by nothing else, so a text has one line more than it has line
feeds: the empty text has one line, and a text that ends in a line feed has an empty last line. A
line is named by its number from 0; `lineStart` and `lineEnd` bound its characters, the line feed
left out. A line number past the last line starts and ends at the end of the text, and an index past
the end of the text is on the last line.
-/

namespace ModalEdit.Text

/-- The number of lines. -/
def lineCount (t : Text) : Nat :=
  t.count '\n' + 1

/-- The number of the last line. -/
def lastLine (t : Text) : Nat :=
  t.count '\n'

/-- The line of an index: the number of line feeds before it. -/
def lineOf (t : Text) (i : Nat) : Nat :=
  (t.take i).count '\n'

/-- The index where a line starts, if the text given is what comes from index `i` on. -/
def lineStartFrom : Nat → Text → Nat → Nat
  | i, _, 0 => i
  | i, [], _ + 1 => i
  | i, c :: cs, l + 1 => lineStartFrom (i + 1) cs (if c = '\n' then l else l + 1)

/-- The index where a line starts. -/
def lineStart (t : Text) (l : Nat) : Nat :=
  lineStartFrom 0 t l

/-- The characters of a line, without its line feed. -/
def line (t : Text) (l : Nat) : Text :=
  (t.drop (t.lineStart l)).takeWhile (· ≠ '\n')

/-- The length of a line, without its line feed. -/
def lineLength (t : Text) (l : Nat) : Nat :=
  (t.line l).length

/-- The index just past the last character of a line. -/
def lineEnd (t : Text) (l : Nat) : Nat :=
  t.lineStart l + t.lineLength l

/-- The list of all lines. -/
def lines : Text → List Text
  | [] => [[]]
  | c :: cs =>
    if c = '\n' then [] :: lines cs
    else
      match lines cs with
      | [] => [[c]]
      | l :: ls => (c :: l) :: ls

/-- A space or a tab. -/
def isBlank (c : Char) : Bool :=
  c == ' ' || c == '\t'

/-- The first character of a line that is no blank; on a line of blanks the last one, on an empty
line its start. -/
def firstNonBlank (t : Text) (l : Nat) : Nat :=
  let indent := ((t.line l).takeWhile isBlank).length
  if indent < t.lineLength l then t.lineStart l + indent
  else max (t.lineEnd l - 1) (t.lineStart l)

/-- The last column of a line that a cursor on a character can have. -/
def lastColumn (t : Text) (l : Nat) : Nat :=
  t.lineLength l - 1

theorem lineCount_eq (t : Text) : t.lineCount = t.lastLine + 1 := rfl

theorem lineStartFrom_eq_add (i : Nat) (t : Text) (l : Nat) :
    lineStartFrom i t l = i + t.lineStart l := by
  unfold lineStart
  induction t generalizing i l with
  | nil => cases l <;> rfl
  | cons c cs ih =>
    cases l with
    | zero => rfl
    | succ l =>
      rw [lineStartFrom, lineStartFrom, ih, ih (0 + 1)]
      omega

@[simp] theorem lineStart_zero (t : Text) : t.lineStart 0 = 0 := by
  cases t <;> rfl

@[simp] theorem lineStart_nil (l : Nat) : lineStart [] l = 0 := by
  cases l <;> rfl

theorem lineStart_cons_succ (c : Char) (cs : Text) (l : Nat) :
    lineStart (c :: cs) (l + 1) = 1 + lineStart cs (if c = '\n' then l else l + 1) := by
  rw [lineStart, lineStartFrom, lineStartFrom_eq_add]

@[simp] theorem lineOf_zero (t : Text) : t.lineOf 0 = 0 := by
  simp [lineOf]

theorem lineOf_cons_succ (c : Char) (cs : Text) (i : Nat) :
    lineOf (c :: cs) (i + 1) = if c = '\n' then lineOf cs i + 1 else lineOf cs i := by
  by_cases h : c = '\n' <;> simp [lineOf, h]

theorem lineOf_le_lastLine (t : Text) (i : Nat) : t.lineOf i ≤ t.lastLine :=
  (List.take_sublist i t).count_le _

theorem lineOf_mono (t : Text) {i j : Nat} (h : i ≤ j) : t.lineOf i ≤ t.lineOf j :=
  (List.take_sublist_take_left h).count_le _

theorem lineStart_le_length (t : Text) (l : Nat) : t.lineStart l ≤ t.length := by
  induction t generalizing l with
  | nil => simp
  | cons c cs ih =>
    cases l with
    | zero => simp
    | succ l =>
      have := ih (if c = '\n' then l else l + 1)
      rw [lineStart_cons_succ, List.length_cons]
      omega

theorem lineEnd_le_length (t : Text) (l : Nat) : t.lineEnd l ≤ t.length := by
  have h := (List.takeWhile_sublist (· ≠ '\n') (l := t.drop (t.lineStart l))).length_le
  have hs := t.lineStart_le_length l
  simp only [List.length_drop] at h
  simp only [lineEnd, lineLength, line]
  omega

/-- An index lies at or after the start of its line. -/
theorem lineStart_lineOf_le (t : Text) (i : Nat) (h : i ≤ t.length) :
    t.lineStart (t.lineOf i) ≤ i := by
  induction t generalizing i with
  | nil => simp
  | cons c cs ih =>
    cases i with
    | zero => simp [lineOf]
    | succ i =>
      have hi : i ≤ cs.length := by simpa using h
      have := ih i hi
      by_cases hc : c = '\n'
      · simp only [lineOf, List.take_succ_cons, List.count_cons, hc, beq_self_eq_true, if_true,
          lineStart_cons_succ] at this ⊢
        omega
      · have hcount : (List.count '\n' (List.take (i + 1) (c :: cs))) = lineOf cs i := by
          simp [lineOf, hc]
        simp only [lineOf] at this hcount ⊢
        rw [hcount]
        cases hl : List.count '\n' (List.take i cs) with
        | zero => simp
        | succ l =>
          rw [lineStart_cons_succ, if_neg hc, ← hl]
          omega

end ModalEdit.Text
