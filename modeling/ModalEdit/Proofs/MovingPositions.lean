import ModalEdit.Proofs.CheckedMotion
import ModalEdit.Proofs.Positions

/-!
# Moving positions

The indices of a text and its places, the columns of its lines, are the same set in the same order
(`positions_correspond`). A move by lines and columns is one of places: without clamping it leads to
the place at these distances and nowhere else (`moveBy_eq_some_iff`), so the opposite move leads
back. Clamping changes only what would lead nowhere: each coordinate is kept if it lies in its range
and becomes one of the range otherwise (`fit_clamp`).
-/

namespace ModalEdit.Position

variable {t : Text} {p q : Position} {i l c : Nat} {lines cols : Int}

/-! ## Indices and places -/

theorem ofIndex_of_le (h : i ≤ t.length) : (ofIndex t i).index = i := by
  rw [ofIndex_index, Nat.min_eq_left h]

/-- **From an index to its place and back.** -/
theorem ofLineCol_ofIndex (t : Text) (i : Nat) :
    ofLineCol t (ofIndex t i).line (ofIndex t i).col = ofIndex t i :=
  (isOf_ofIndex t i).ofLineCol_eq

/-- **From a place to its index and back.** -/
theorem ofIndex_ofLineCol (t : Text) (l c : Nat) :
    ofIndex t (ofLineCol t l c).index = ofLineCol t l c :=
  (isOf_ofLineCol t l c).symm

theorem index_lt_iff_place_lt (hp : p.IsOf t) (hq : q.IsOf t) :
    p.index < q.index ↔ p.place < q.place := by
  rw [← before_iff hp hq, before_iff_place]

/-! ## Moves -/

theorem fit_eq_some_iff {x : Int} {top n : Nat} :
    fit x top false = some n ↔ (n : Int) = x ∧ n ≤ top := by
  unfold fit
  by_cases h : 0 ≤ x ∧ x ≤ top
  · rw [if_pos h, Option.some.injEq]
    omega
  · rw [if_neg h, if_neg Bool.false_ne_true]
    simp only [reduceCtorEq, false_iff]
    omega

theorem fit_clamp (x : Int) (top : Nat) :
    ∃ n ≤ top, fit x top true = some n ∧ ∀ m, fit x top false = some m → m = n := by
  unfold fit
  by_cases h : 0 ≤ x ∧ x ≤ top
  · simp only [if_pos h]
    exact ⟨x.toNat, by omega, rfl, fun m hm => (Option.some.inj hm).symm⟩
  · simp only [if_neg h]
    exact ⟨(max 0 (min x top)).toNat, by omega, rfl, fun m hm => by simp at hm⟩

/-- **A move leads to the place at its distances** if that is a place of the text, and nowhere
otherwise. -/
theorem moveBy_eq_some_iff :
    p.moveBy t lines cols false = some q ↔
      q.IsOf t ∧ (q.line : Int) = p.line + lines ∧ (q.col : Int) = p.col + cols := by
  unfold moveBy
  constructor
  · intro h
    obtain ⟨l, hl, h⟩ := Option.bind_eq_some_iff.1 h
    obtain ⟨c, hc, h⟩ := Option.bind_eq_some_iff.1 h
    obtain ⟨hline, hlast⟩ := fit_eq_some_iff.1 hl
    obtain ⟨hcol, hlength⟩ := fit_eq_some_iff.1 hc
    obtain rfl := Option.some.inj h
    refine ⟨isOf_ofLineCol t l c, ?_⟩
    rw [ofLineCol_eq hlast hlength]
    exact ⟨hline, hcol⟩
  · rintro ⟨hq, hline, hcol⟩
    have hl : fit (p.line + lines) t.lastLine false = some q.line :=
      fit_eq_some_iff.2 ⟨hline, hq.line_le⟩
    have hc : fit (p.col + cols) (t.lineLength q.line) false = some q.col :=
      fit_eq_some_iff.2 ⟨hcol, hq.col_le⟩
    simp only [hl, hc, Option.bind_eq_bind, Option.bind_some, hq.ofLineCol_eq]
    rfl

theorem moveBy_isSome_iff :
    (p.moveBy t lines cols false).isSome = true ↔
      ∃ l c : Nat, (l : Int) = p.line + lines ∧ (c : Int) = p.col + cols ∧
        l ≤ t.lastLine ∧ c ≤ t.lineLength l := by
  rw [Option.isSome_iff_exists]
  constructor
  · rintro ⟨q, h⟩
    obtain ⟨hq, hline, hcol⟩ := moveBy_eq_some_iff.1 h
    exact ⟨q.line, q.col, hline, hcol, hq.line_le, hq.col_le⟩
  · rintro ⟨l, c, hline, hcol, hlast, hlength⟩
    exact ⟨_, moveBy_eq_some_iff.2 ⟨isOf_of_col_le hlast hlength, hline, hcol⟩⟩

/-- **The opposite move leads back.** -/
theorem moveBy_neg (hp : p.IsOf t) (h : p.moveBy t lines cols false = some q) :
    q.moveBy t (-lines) (-cols) false = some p := by
  obtain ⟨-, hline, hcol⟩ := moveBy_eq_some_iff.1 h
  exact moveBy_eq_some_iff.2 ⟨hp, by omega, by omega⟩

/-- **A clamped move always leads to a position of the text**, and to the same one as the move
without clamping if that leads somewhere. -/
theorem moveBy_clamp (p : Position) (t : Text) (lines cols : Int) :
    ∃ q, p.moveBy t lines cols true = some q ∧ q.IsOf t ∧
      ∀ q', p.moveBy t lines cols false = some q' → q' = q := by
  obtain ⟨l, -, hl, hline⟩ := fit_clamp (p.line + lines) t.lastLine
  obtain ⟨c, -, hc, hcol⟩ := fit_clamp (p.col + cols) (t.lineLength l)
  refine ⟨ofLineCol t l c, ?_, isOf_ofLineCol t l c, ?_⟩
  · simp only [moveBy, hl, hc, Option.bind_eq_bind, Option.bind_some]
    rfl
  · intro q' h
    obtain ⟨l', hl', h⟩ := Option.bind_eq_some_iff.1 h
    obtain ⟨c', hc', h⟩ := Option.bind_eq_some_iff.1 h
    obtain rfl := hline l' hl'
    obtain rfl := hcol c' hc'
    exact (Option.some.inj h).symm

/-! ## Moves on machine indices -/

theorem IsOf.line_le_length (h : p.IsOf t) : p.line ≤ t.length :=
  Nat.le_trans h.line_le List.count_le_length

theorem IsOf.col_le_length (h : p.IsOf t) : p.col ≤ t.length := by
  have hindex := h.index_eq
  have hle := h.index_le
  omega

/-- The distances move the line and the column within the range of signed machine indices. -/
def MovesInRange (p : Position) (lines cols : Int) : Prop :=
  ((p.line : Int) + lines).natAbs < Index.bound / 2 ∧ ((p.col : Int) + cols).natAbs < Index.bound / 2

theorem movesInRange_neg (ht : t.length < Index.bound / 2) (hp : p.IsOf t)
    (h : p.moveBy t lines cols false = some q) : q.MovesInRange (-lines) (-cols) := by
  obtain ⟨-, hline, hcol⟩ := moveBy_eq_some_iff.1 h
  have hlength := hp.line_le_length
  have hlength' := hp.col_le_length
  exact ⟨by omega, by omega⟩

/-- **Indices and places of a text correspond.** Each index has a place and each place an index, and
the one that comes first in the text comes first in the order of lines and columns. A move by lines
and columns leads somewhere exactly if the target exists, and the opposite move leads back; a clamped
one always leads to a position of the text, the same one if the target exists. Machine indices do the
same as long as the distances keep the coordinates in their range, on the way back as well. -/
theorem positions_correspond (t : Text) :
    (∀ i ≤ t.length, (ofIndex t i).index = i ∧
        ofLineCol t (ofIndex t i).line (ofIndex t i).col = ofIndex t i) ∧
      (∀ l ≤ t.lastLine, ∀ c ≤ t.lineLength l,
        (ofLineCol t l c).line = l ∧ (ofLineCol t l c).col = c ∧
          ofIndex t (ofLineCol t l c).index = ofLineCol t l c) ∧
      (∀ i ≤ t.length, ∀ j ≤ t.length, i < j ↔ (ofIndex t i).place < (ofIndex t j).place) ∧
      ∀ p : Position, p.IsOf t → ∀ lines cols : Int,
        ((p.moveBy t lines cols false).isSome = true ↔
          ∃ l c : Nat, (l : Int) = p.line + lines ∧ (c : Int) = p.col + cols ∧
            l ≤ t.lastLine ∧ c ≤ t.lineLength l) ∧
        (∀ q, p.moveBy t lines cols false = some q →
          q.moveBy t (-lines) (-cols) false = some p) ∧
        (∃ q, p.moveBy t lines cols true = some q ∧ q.IsOf t ∧
          ∀ q', p.moveBy t lines cols false = some q' → q' = q) ∧
        (t.length < Index.bound / 2 → p.MovesInRange lines cols →
          (∀ clamp, p.moveByChecked t lines cols clamp = .ok (p.moveBy t lines cols clamp)) ∧
          ∀ q, p.moveBy t lines cols false = some q →
            q.moveByChecked t (-lines) (-cols) false = .ok (some p)) := by
  refine ⟨fun i hi => ⟨ofIndex_of_le hi, ofLineCol_ofIndex t i⟩, fun l hl c hc => ?_,
    fun i hi j hj => ?_, fun p hp lines cols => ⟨moveBy_isSome_iff, fun q => moveBy_neg hp,
      moveBy_clamp p t lines cols, fun ht hrange => ⟨fun clamp => ?_, fun q hq => ?_⟩⟩⟩
  · rw [ofIndex_ofLineCol, ofLineCol_eq hl hc]
    exact ⟨rfl, rfl, rfl⟩
  · have hplace := index_lt_iff_place_lt (isOf_ofIndex t i) (isOf_ofIndex t j)
    rwa [ofIndex_of_le hi, ofIndex_of_le hj] at hplace
  · exact moveByChecked_eq_ok (by omega) hrange.1 hrange.2 clamp
  · have hback := movesInRange_neg ht hp hq
    rw [moveByChecked_eq_ok (by omega) hback.1 hback.2, moveBy_neg hp hq]

/-- From the second column down to a shorter line there is no way but by clamping. -/
theorem positions_correspond_of_two_lines :
    (ofIndex ['a', 'b', '\n', 'c'] 2).IsOf ['a', 'b', '\n', 'c'] ∧
      (ofIndex ['a', 'b', '\n', 'c'] 2).MovesInRange 1 0 ∧
      (ofIndex ['a', 'b', '\n', 'c'] 2).moveByChecked ['a', 'b', '\n', 'c'] 1 0 false = .ok none ∧
      (ofIndex ['a', 'b', '\n', 'c'] 2).place < (ofIndex ['a', 'b', '\n', 'c'] 4).place ∧
      ∃ q, (ofIndex ['a', 'b', '\n', 'c'] 2).moveByChecked ['a', 'b', '\n', 'c'] 1 0 true =
        .ok (some q) ∧ q.IsOf ['a', 'b', '\n', 'c'] := by
  obtain ⟨-, -, hplace, hmove⟩ := positions_correspond ['a', 'b', '\n', 'c']
  have hp : (ofIndex ['a', 'b', '\n', 'c'] 2).IsOf ['a', 'b', '\n', 'c'] := isOf_ofIndex _ 2
  have hrange : (ofIndex ['a', 'b', '\n', 'c'] 2).MovesInRange 1 0 := ⟨by decide, by decide⟩
  obtain ⟨-, -, ⟨q, hq, hqof, -⟩, hchecked⟩ := hmove _ hp 1 0
  obtain ⟨hequal, -⟩ := hchecked (by decide) hrange
  refine ⟨hp, hrange, ?_, (hplace 2 (by decide) 4 (by decide)).1 (by decide), q, ?_, hqof⟩
  · rw [hequal]
    decide
  · rw [hequal, hq]

end ModalEdit.Position
