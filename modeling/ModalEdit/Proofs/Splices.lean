import ModalEdit.Text.Basic

/-!
# Splices

What a text holds before, in and after a stretch that was replaced, and what two replacements come
to: one that covers another, and insertions at either end of what was put in.
-/

namespace ModalEdit.Text

variable {t : Text} {i j k l : Nat}

theorem take_splice (hi : i ≤ t.length) (hk : k ≤ i) (j : Nat) (new : Text) :
    (t.splice i j new).take k = t.take k := by
  rw [splice, List.take_append_of_le_length (by rw [List.length_take_of_le hi]; exact hk),
    List.take_take, Nat.min_eq_left hk]

theorem drop_splice (hij : i ≤ j) (hi : i ≤ t.length) (new : Text) :
    (t.splice i j new).drop (i + new.length) = t.drop j := by
  rw [splice, ← List.append_assoc, List.drop_left', Nat.max_eq_right hij]
  rw [List.length_append, List.length_take_of_le hi]

theorem drop_splice_nil (hij : i ≤ j) (hi : i ≤ t.length) :
    (t.splice i j []).drop i = t.drop j :=
  drop_splice hij hi []

theorem getElem?_splice_of_lt (hi : i ≤ t.length) (hk : k < i) (j : Nat) (new : Text) :
    (t.splice i j new)[k]? = t[k]? := by
  rw [← List.getElem?_take_of_lt (Nat.lt_succ_self k), take_splice hi hk,
    List.getElem?_take_of_lt (Nat.lt_succ_self k)]

theorem getElem?_splice_new {new : Text} (hi : i ≤ t.length) (hk : k < new.length) (j : Nat) :
    (t.splice i j new)[i + k]? = new[k]? := by
  rw [splice, List.getElem?_append_right (by rw [List.length_take_of_le hi]; omega),
    List.length_take_of_le hi, Nat.add_sub_cancel_left, List.getElem?_append_left hk]

/-- The characters after a stretch that was taken out. -/
theorem getElem?_splice_add (hij : i ≤ j) (hi : i ≤ t.length) (k : Nat) :
    (t.splice i j [])[i + k]? = t[j + k]? := by
  rw [← List.getElem?_drop, drop_splice_nil hij hi, List.getElem?_drop]

theorem splice_nil_self (t : Text) (i : Nat) : t.splice i i [] = t := by
  rw [splice, Nat.max_self, List.nil_append, List.take_append_drop]

theorem splice_splice (hij : i ≤ j) (hjk : j ≤ k) (hj : j ≤ t.length) (hkl : k ≤ l)
    (new newer : Text) :
    (t.splice j k new).splice i (j + new.length + (l - k)) newer = t.splice i l newer := by
  have hfront : (t.splice j k new).take i = t.take i := take_splice hj hij k new
  have hrest : (t.splice j k new).drop (j + new.length + (l - k)) = t.drop l := by
    rw [← List.drop_drop, drop_splice hjk hj, List.drop_drop, Nat.add_sub_cancel' hkl]
  rw [splice, hfront, Nat.max_eq_right (by omega), hrest, splice, Nat.max_eq_right (by omega)]

/-- Characters are taken out first between two places, and then on both sides of these. -/
theorem splice_splice_nil (hij : i ≤ j) (hjk : j ≤ k) (hj : j ≤ t.length) (hkl : k ≤ l) :
    (t.splice j k []).splice i (j + (l - k)) [] = t.splice i l [] :=
  splice_splice hij hjk hj hkl [] []

/-- A text put in right before one that was put in. -/
theorem splice_splice_before (hij : i ≤ j) (hi : i ≤ t.length) (a b : Text) :
    (t.splice i j a).splice i i b = t.splice i j (b ++ a) := by
  have hrest : (t.splice i j a).drop i = a ++ t.drop j := by
    rw [splice, List.drop_left' (List.length_take_of_le hi), Nat.max_eq_right hij]
  rw [splice, take_splice hi (Nat.le_refl i), Nat.max_self, hrest, splice, Nat.max_eq_right hij,
    List.append_assoc]

/-- A text put in right after one that was put in. -/
theorem splice_splice_after (hij : i ≤ j) (hi : i ≤ t.length) (a b : Text) :
    (t.splice i j a).splice (i + a.length) (i + a.length) b = t.splice i j (a ++ b) := by
  have hfront : (t.splice i j a).take (i + a.length) = t.take i ++ a := by
    rw [splice, ← List.append_assoc, List.take_left']
    rw [List.length_append, List.length_take_of_le hi]
  rw [splice, hfront, Nat.max_self, drop_splice hij hi, splice, Nat.max_eq_right hij,
    List.append_assoc, List.append_assoc]

theorem splice_slice_self (hij : i ≤ j) (t : Text) : t.splice i j (t.slice i j) = t := by
  rw [splice, Nat.max_eq_right hij]
  exact take_append_between_append_drop hij t

theorem splice_slice (hij : i ≤ j) (hj : j ≤ t.length) :
    (t.splice i j []).splice i i (t.slice i j) = t := by
  rw [splice_splice_before hij (Nat.le_trans hij hj), List.append_nil, splice_slice_self hij]

end ModalEdit.Text
