/-!
# Texts

A text is the list of its characters, and every index counts characters. Reading outside the text
gives nothing and every cut is clamped, so no operation needs a bound on its arguments.
-/

namespace ModalEdit

/-- The characters of a document, line breaks included. -/
abbrev Text := List Char

namespace Text

/-- The characters from `start` up to, not including, `stop`. -/
def slice (t : Text) (start stop : Nat) : Text :=
  (t.take stop).drop start

/-- The text with `start..stop` replaced; a `stop` before `start` counts as `start`. -/
def splice (t : Text) (start stop : Nat) (new : Text) : Text :=
  t.take start ++ (new ++ t.drop (max start stop))

/-- `n` copies of the text, one after the other. Copies of the empty text cost nothing. -/
def copies (t : Text) (n : Nat) : Text :=
  if t.isEmpty then [] else (List.replicate n t).flatten

/-- The length of the text in UTF-8 bytes. -/
def utf8Length (t : Text) : Nat :=
  t.foldr (fun c bytes => c.utf8Size + bytes) 0

/-- The characters `0..stop` of a text from the last one on. -/
def backward (t : Text) (stop : Nat) : Text :=
  (t.take stop).reverse

@[simp] theorem length_slice (t : Text) (start stop : Nat) :
    (t.slice start stop).length = min stop t.length - start := by
  simp [slice]

@[simp] theorem length_splice (t : Text) (start stop : Nat) (new : Text) :
    (t.splice start stop new).length =
      min start t.length + new.length + (t.length - max start stop) := by
  simp [splice, Nat.add_assoc]

theorem copies_eq (t : Text) (n : Nat) : t.copies n = (List.replicate n t).flatten := by
  cases t <;> simp [copies]

@[simp] theorem length_copies (t : Text) (n : Nat) : (t.copies n).length = n * t.length := by
  simp [copies_eq]

@[simp] theorem utf8Length_cons (c : Char) (t : Text) :
    utf8Length (c :: t) = c.utf8Size + utf8Length t := rfl

@[simp] theorem utf8Length_append (t u : Text) :
    utf8Length (t ++ u) = utf8Length t + utf8Length u := by
  induction t with
  | nil => exact (Nat.zero_add _).symm
  | cons c t ih => rw [List.cons_append, utf8Length_cons, utf8Length_cons, ih, Nat.add_assoc]

/-- A longer front of a list is a shorter one and what stands between their ends. -/
theorem take_eq_append_of_le {α : Type} {i j : Nat} (h : i ≤ j) (l : List α) :
    l.take j = l.take i ++ (l.take j).drop i := by
  have hsplit := List.take_append_drop i (l.take j)
  rw [List.take_take, Nat.min_eq_left h] at hsplit
  exact hsplit.symm

/-- A list is its front, what stands between two places, and the rest. -/
theorem take_append_between_append_drop {α : Type} {i j : Nat} (h : i ≤ j) (l : List α) :
    l.take i ++ ((l.take j).drop i ++ l.drop j) = l := by
  rw [← List.append_assoc, ← take_eq_append_of_le h, List.take_append_drop]

@[simp] theorem copies_one (t : Text) : t.copies 1 = t := by
  simp [copies_eq]

@[simp] theorem length_backward (t : Text) (stop : Nat) :
    (t.backward stop).length = min stop t.length := by
  simp [backward]

theorem getElem?_backward {t : Text} {stop k : Nat} (hstop : stop ≤ t.length) (hk : k < stop) :
    (t.backward stop)[k]? = t[stop - 1 - k]? := by
  have hlength : (t.take stop).length = stop := by rw [List.length_take, Nat.min_eq_left hstop]
  rw [backward, List.getElem?_reverse (by omega), hlength, List.getElem?_take_of_lt (by omega)]

end Text

end ModalEdit
