import ModalEdit.Index
import ModalEdit.Text.Lines

/-!
# Positions

A position is an index together with its line and column. `Position.ofIndex` and
`Position.ofLineCol` clamp their arguments to the text, so each gives a position of the text for
every argument.
-/

namespace ModalEdit

/-- A place in a text: an index with its line and its column in that line. -/
structure Position where
  index : Nat
  line : Nat
  col : Nat
  deriving DecidableEq, Repr, Inhabited

namespace Position

/-- The position `n` characters on from index `i`, line `l` and column `c`, or that of the end, if
the text given is what comes from there on. -/
def walk (i l c : Nat) : (n : Nat) → Text → Position
  | 0, _ => ⟨i, l, c⟩
  | _ + 1, [] => ⟨i, l, c⟩
  | n + 1, d :: ds => if d = '\n' then walk (i + 1) (l + 1) 0 n ds else walk (i + 1) l (c + 1) n ds

/-- The position of an index; one past the end counts as the end. -/
def ofIndex (t : Text) (i : Nat) : Position :=
  walk 0 0 0 i t

/-- The position at a line and column, both clamped to the text. -/
def ofLineCol (t : Text) (line col : Nat) : Position :=
  let line := min line t.lastLine
  let col := min col (t.lineLength line)
  ⟨t.lineStart line + col, line, col⟩

/-- A coordinate pulled into `0..top`: kept if it lies there, and otherwise none, or with `clamp`
the nearest one that does. -/
def fit (x : Int) (top : Nat) (clamp : Bool) : Option Nat :=
  if 0 ≤ x ∧ x ≤ top then some x.toNat
  else if clamp then some (max 0 (min x top)).toNat
  else none

/-- The position some lines and columns away. A target outside the text gives none, or with `clamp`
the nearest line and then the nearest column. -/
def moveBy (p : Position) (t : Text) (lines cols : Int) (clamp : Bool) : Option Position := do
  let line ← fit (p.line + lines) t.lastLine clamp
  let col ← fit (p.col + cols) (t.lineLength line) clamp
  return ofLineCol t line col

/-- The position of an index, computed on machine indices. -/
def ofIndexChecked (t : Text) (i : Nat) : Except Index.Fault Position := do
  let index := min i t.length
  let line := t.lineOf index
  return ⟨index, line, ← Index.sub index (t.lineStart line)⟩

/-- The position at a line and column, computed on machine indices. -/
def ofLineColChecked (t : Text) (line col : Nat) : Except Index.Fault Position := do
  let line := min line t.lastLine
  let col := min col (t.lineLength line)
  return ⟨← Index.add (t.lineStart line) col, line, col⟩

/-- The position some lines and columns away, computed on machine indices. -/
def moveByChecked (p : Position) (t : Text) (lines cols : Int) (clamp : Bool) :
    Except Index.Fault (Option Position) := do
  match fit (← Index.move p.line lines) t.lastLine clamp with
  | none => return none
  | some line =>
    match fit (← Index.move p.col cols) (t.lineLength line) clamp with
    | none => return none
    | some col => return some (← ofLineColChecked t line col)

/-- Lines are compared first, then columns. -/
def before (a b : Position) : Bool :=
  a.line < b.line || (a.line == b.line && a.col < b.col)

/-- Characters count into the column up to the first line feed, and from the start of their line
after it. -/
theorem walk_eq (i l c n : Nat) (t : Text) :
    walk i l c n t =
      ⟨i + min n t.length, l + t.lineOf n,
        (if t.lineOf n = 0 then c else 0) + (min n t.length - t.lineStart (t.lineOf n))⟩ := by
  induction t generalizing i l c n with
  | nil => cases n <;> simp [walk, Text.lineOf]
  | cons d ds ih =>
    cases n with
    | zero => simp [walk]
    | succ n =>
      have hmin : min (n + 1) (ds.length + 1) = min n ds.length + 1 := by omega
      rw [walk, Text.lineOf_cons_succ, List.length_cons, hmin]
      by_cases hd : d = '\n'
      · simp only [hd, if_true, ih, Text.lineStart_cons_succ, Nat.add_eq_zero_iff, Nat.one_ne_zero,
          and_false, if_false, Position.mk.injEq]
        refine ⟨by omega, by omega, ?_⟩
        split <;> omega
      · simp only [hd, if_false, ih]
        cases hl : Text.lineOf ds n with
        | zero => simp; omega
        | succ k =>
          rw [Text.lineStart_cons_succ]
          simp [hd]
          omega

theorem ofIndex_eq (t : Text) (i : Nat) :
    ofIndex t i =
      ⟨min i t.length, t.lineOf i, min i t.length - t.lineStart (t.lineOf i)⟩ := by
  simp [ofIndex, walk_eq]

@[simp] theorem ofIndex_index (t : Text) (i : Nat) : (ofIndex t i).index = min i t.length := by
  rw [ofIndex_eq]

@[simp] theorem ofIndex_line (t : Text) (i : Nat) : (ofIndex t i).line = t.lineOf i := by
  rw [ofIndex_eq]

theorem ofLineCol_index_le (t : Text) (line col : Nat) :
    (ofLineCol t line col).index ≤ t.length := by
  have h := t.lineEnd_le_length (min line t.lastLine)
  simp only [ofLineCol, Text.lineEnd] at h ⊢
  omega

end Position

end ModalEdit
