import ModalEdit.Text.Lines
import ModalEdit.Unicode.Alphanumeric
import ModalEdit.Unicode.WhiteSpace

/-!
# Words

A word is a maximal run of characters of one class. Small words know three classes; big words fold
symbols into text. A line break is white space, so a run of white space may span lines unless the
search is limited to one line.
-/

namespace ModalEdit

/-- The classes that characters fall into. -/
inductive CharClass where
  | text
  | symbol
  | space
  deriving DecidableEq, Repr

/-- The class of a character, for big words or for small ones. -/
def CharClass.of (big : Bool) (c : Char) : CharClass :=
  if Unicode.isWhiteSpace c then .space
  else if big || Unicode.isAlphanumeric c || c == '_' then .text
  else .symbol

/-- White space is the same for big and small words. -/
theorem CharClass.of_eq_space_iff (big : Bool) (c : Char) :
    CharClass.of big c = .space ↔ Unicode.isWhiteSpace c = true := by
  unfold CharClass.of
  split
  · simp_all
  · split <;> simp_all

/-- The characters `start..stop`, all of one class. -/
structure Run where
  start : Nat
  stop : Nat
  cls : CharClass
  deriving DecidableEq, Repr

namespace Text

/-- The class of the character at an index. -/
def classAt (t : Text) (big : Bool) (i : Nat) : Option CharClass :=
  t[i]?.map (CharClass.of big)

/-- The run that holds index `i`, within `lo..hi`. -/
def runWithin (t : Text) (big : Bool) (lo hi i : Nat) : Option Run :=
  if lo ≤ i ∧ i < hi then
    (t.classAt big i).map fun cls =>
      let same := fun c => CharClass.of big c == cls
      { start := i - (((t.take i).drop lo).reverse.takeWhile same).length
        stop := i + (((t.take hi).drop i).takeWhile same).length
        cls }
  else none

/-- The run that holds index `i`, anywhere in the text. -/
def runAt (t : Text) (big : Bool) (i : Nat) : Option Run :=
  t.runWithin big 0 t.length i

/-- The run that holds index `i`, limited to its line; the line break is in no run. -/
def runInLine (t : Text) (big : Bool) (i : Nat) : Option Run :=
  let l := t.lineOf i
  t.runWithin big (t.lineStart l) (t.lineEnd l) i

/-- A run holds the index it was sought from and stays within its limits. -/
theorem runWithin_bounds {t : Text} {big : Bool} {lo hi i : Nat} {r : Run}
    (h : t.runWithin big lo hi i = some r) :
    lo ≤ r.start ∧ r.start ≤ i ∧ i < r.stop ∧ r.stop ≤ hi ∧ r.stop ≤ t.length := by
  unfold runWithin at h
  split at h
  case isFalse => simp at h
  case isTrue hb =>
    obtain ⟨cls, hcls, rfl⟩ := Option.map_eq_some_iff.1 h
    obtain ⟨c, hc, rfl⟩ := Option.map_eq_some_iff.1 hcls
    obtain ⟨hi', hget⟩ := List.getElem?_eq_some_iff.1 hc
    have hback := (List.takeWhile_sublist (fun d => CharClass.of big d == CharClass.of big c)
      (l := ((t.take i).drop lo).reverse)).length_le
    have hfwd := (List.takeWhile_sublist (fun d => CharClass.of big d == CharClass.of big c)
      (l := (t.take hi).drop i)).length_le
    have hpos : 0 < (((t.take hi).drop i).takeWhile
        fun d => CharClass.of big d == CharClass.of big c).length := by
      have hlt : i < (t.take hi).length := by simp; omega
      rw [List.drop_eq_getElem_cons hlt]
      simp [hget]
    simp only [List.length_reverse, List.length_drop, List.length_take] at hback hfwd
    simp only
    omega

end Text

end ModalEdit
