import ModalEdit.Index
import ModalEdit.Word.Basic

/-!
# Word steps

One step forward to the start of a word, forward to the end of a word, or back to the start of a
word, and the repetition of a step. White space between words is skipped.

How far a step goes depends only on the characters on its side of the cursor: those from the cursor
on for a step forward, and those before the cursor, the nearest first, for a step back. So a step is
a function from these characters to a distance, and steps in a row look at every character once.
-/

namespace ModalEdit

/-! ## One step, as a distance -/

/-- How many characters at the head of a list have the class of the first one. -/
def runLength (big : Bool) : List Char → Nat
  | [] => 0
  | c :: cs => (cs.takeWhile fun d => CharClass.of big d == CharClass.of big c).length + 1

/-- How many white space characters a list begins with. -/
def spaceLength (cs : List Char) : Nat :=
  (cs.takeWhile Unicode.isWhiteSpace).length

/-- How far the next run starts from the head of a list, with a run of white space in between
skipped. Where only white space is left, it is where the run at the head ends. -/
def toNextStart (big : Bool) (ahead : List Char) : Option Nat :=
  if ahead.isEmpty then none
  else
    let run := runLength big ahead
    let rest := ahead.drop run
    let space := spaceLength rest
    some (if (rest.drop space).isEmpty then run else run + space)

/-- How far the last character of the next run is that is not white space and ends after the head of
a list. -/
def toNextEnd (big : Bool) (ahead : List Char) : Option Nat :=
  let space := spaceLength (ahead.drop 1)
  let rest := ahead.drop (1 + space)
  if rest.isEmpty then none else some (space + runLength big rest)

/-- How far back the last run starts that is not white space, given the characters before the cursor
from the nearest on. Where there is only white space, it is the start of the text. -/
def toPrevStart (big : Bool) (behind : List Char) : Option Nat :=
  if behind.isEmpty then none
  else
    let space := spaceLength behind
    some (space + runLength big (behind.drop space))

/-! ## One step, as an index -/

namespace Text

/-- The start of the next run, with a run of white space in between skipped. Where only white space
is left, the end of the run at `i` is kept. -/
def nextWordStart (t : Text) (big : Bool) (i : Nat) : Option Nat :=
  (toNextStart big (t.drop i)).map (i + ·)

/-- The last character of the next run that ends after `i` and is not white space. -/
def nextWordEnd (t : Text) (big : Bool) (i : Nat) : Option Nat :=
  (toNextEnd big (t.drop i)).map (i + ·)

/-- The start of the last run before `i` that is not white space; the start of the text when only
white space comes before. -/
def prevWordStart (t : Text) (big : Bool) (i : Nat) : Option Nat :=
  (toPrevStart big (t.backward i)).map (min i t.length - ·)

/-! ## Steps on machine indices -/

/-- The step to a word end, computed on machine indices: it looks from the next index on. -/
def nextWordEndChecked (t : Text) (big : Bool) (i : Nat) : Except Index.Fault (Option Nat) := do
  let _ ← Index.add i 1
  return t.nextWordEnd big i

/-- The step back to a word start, computed on machine indices. It looks at the character before the
cursor, which an empty text does not have. -/
def prevWordStartChecked (t : Text) (big : Bool) (i : Nat) : Except Index.Fault (Option Nat) := do
  if i = 0 then return none
  let _ ← Index.sub (min i t.length) 1
  return t.prevWordStart big i

/-- In a text with a character, stepping back never leaves the range of machine indices. -/
theorem prevWordStartChecked_eq_ok {t : Text} (big : Bool) (i : Nat) (h : t ≠ []) :
    t.prevWordStartChecked big i = .ok (t.prevWordStart big i) := by
  have hlen : 0 < t.length := List.length_pos_iff.2 h
  by_cases hi : i = 0
  · subst hi; rfl
  · have hj : 1 ≤ min i t.length := by omega
    simp only [prevWordStartChecked, if_neg hi, Index.sub_eq_ok hj]
    rfl

end Text

/-! ## Repeated steps -/

/-- How far up to `n` more steps lead when `done` characters lie behind, ending early when a step
fails or stays in place. -/
def stepMore (step : List Char → Option Nat) : Nat → Nat → List Char → Nat
  | 0, done, _ => done
  | n + 1, done, ahead =>
    match step ahead with
    | some (k + 1) => stepMore step n (done + (k + 1)) (ahead.drop (k + 1))
    | _ => done

/-- How far `count` steps lead, at least one. Only the first one has to succeed. -/
def stepRepeat (step : List Char → Option Nat) (count : Nat) (ahead : List Char) : Option Nat :=
  (step ahead).map fun k => stepMore step (count - 1) k (ahead.drop k)

/-- The distance behind counts in full. -/
theorem stepMore_eq_add (step : List Char → Option Nat) (n done : Nat) (ahead : List Char) :
    stepMore step n done ahead = done + stepMore step n 0 ahead := by
  induction n generalizing done ahead with
  | zero => rfl
  | succ n ih =>
    simp only [stepMore]
    split
    · rw [ih, ih (0 + _)]; omega
    · rfl

namespace Text

/-- The end of the run at `i`, then up to `count - 1` more word ends. -/
def runEndThenMore (t : Text) (big : Bool) (count i : Nat) : Option Nat :=
  let ahead := t.drop i
  if ahead.isEmpty then none
  else
    let last := runLength big ahead - 1
    some (i + stepMore (toNextEnd big) (count - 1) last (ahead.drop last))

end Text

end ModalEdit
