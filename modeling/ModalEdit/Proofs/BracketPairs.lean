import Mathlib.Order.Bounds.Defs
import Mathlib.Tactic.WLOG
import ModalEdit.Motion.Range

/-!
# Pairs of brackets

Two brackets of one kind are a pair if the text between them is balanced in them (`Text.Pairs`).
From a bracket `%` leads to the other one of its pair, and nowhere if it is in none; from any other
cursor it leads where the first bracket after the cursor does (`percent_pairs`).

A pair looks the same from both ends, so `%` leads back. The two directions are one scan with a
depth. It ends at the first character that closes more than was opened, and what it passed is
balanced (`unmatchedAfter_eq_some_iff`). The scan back reads the text from its end, where the
brackets swap their roles (`balanced_reverse`).
-/

namespace ModalEdit

variable {opening closing : Char} {depth k : Nat} {cs : List Char}

/-! ## Balanced texts -/

/-- As many characters open as close, and no front of the text closes more than it opens. -/
structure Balanced (opening closing : Char) (s : Text) : Prop where
  count_eq : s.count opening = s.count closing
  front_le : ∀ k, (s.take k).count closing ≤ (s.take k).count opening

theorem count_eq_count_take_add (s : Text) (c : Char) (k : Nat) :
    s.count c = (s.take k).count c + (s.drop k).count c := by
  rw [← List.count_append, List.take_append_drop]

theorem Balanced.reverse {s : Text} (h : Balanced opening closing s) :
    Balanced closing opening s.reverse := by
  refine ⟨by rw [List.count_reverse, List.count_reverse, h.count_eq], fun k => ?_⟩
  -- a front of the reversed text is a rear of the text, and the front before it has an excess
  rw [List.take_reverse, List.count_reverse, List.count_reverse]
  have hfront := h.front_le (s.length - k)
  have htotal := h.count_eq
  rw [count_eq_count_take_add s opening (s.length - k),
    count_eq_count_take_add s closing (s.length - k)] at htotal
  omega

theorem balanced_reverse {s : Text} :
    Balanced closing opening s.reverse ↔ Balanced opening closing s :=
  ⟨fun h => s.reverse_reverse ▸ h.reverse, Balanced.reverse⟩

/-! ## The scan -/

/-- The character at `k` closes one opening more than there are before it in the list, which is
`depth` openings deep, and no character before `k` does. -/
structure ClosesAt (opening closing : Char) (depth : Nat) (cs : List Char) (k : Nat) : Prop where
  closes : cs[k]? = some closing
  count_eq : (cs.take k).count closing = (cs.take k).count opening + depth
  front_le : ∀ j ≤ k, (cs.take j).count closing ≤ (cs.take j).count opening + depth

namespace ClosesAt

theorem not_nil : ¬ClosesAt opening closing depth [] k := fun h => by simpa using h.closes

theorem zero_iff {c : Char} :
    ClosesAt opening closing depth (c :: cs) 0 ↔ c = closing ∧ depth = 0 := by
  constructor
  · intro h
    have hcount := h.count_eq
    exact ⟨by simpa using h.closes, by simpa using hcount.symm⟩
  · rintro ⟨rfl, rfl⟩
    refine ⟨rfl, rfl, fun j hj => ?_⟩
    rw [Nat.le_zero.1 hj]
    exact Nat.le_refl _

theorem succ_iff {c : Char} {depth' : Nat}
    (hcount : ∀ s : Text, ((c :: s).count closing = (c :: s).count opening + depth ↔
      s.count closing = s.count opening + depth') ∧
      ((c :: s).count closing ≤ (c :: s).count opening + depth ↔
        s.count closing ≤ s.count opening + depth')) :
    ClosesAt opening closing depth (c :: cs) (k + 1) ↔ ClosesAt opening closing depth' cs k := by
  constructor
  · intro h
    refine ⟨by simpa using h.closes, (hcount _).1.1 (by simpa using h.count_eq), fun j hj => ?_⟩
    exact (hcount _).2.1 (by simpa using h.front_le (j + 1) (Nat.succ_le_succ hj))
  · intro h
    refine ⟨by simpa using h.closes, by simpa using (hcount _).1.2 h.count_eq, fun j hj => ?_⟩
    cases j with
    | zero => simp
    | succ j => simpa using (hcount _).2.2 (h.front_le j (Nat.le_of_succ_le_succ hj))

theorem not_succ (hne : opening ≠ closing) :
    ¬ClosesAt opening closing 0 (closing :: cs) (k + 1) := fun h => by
  have hfirst := h.front_le 1 (Nat.succ_le_succ (Nat.zero_le k))
  simp [hne.symm] at hfirst

theorem iff_balanced :
    ClosesAt opening closing 0 cs k ↔
      cs[k]? = some closing ∧ Balanced opening closing (cs.take k) := by
  constructor
  · intro h
    refine ⟨h.closes, h.count_eq.symm, fun j => ?_⟩
    rw [List.take_take]
    exact h.front_le _ (Nat.min_le_right j k)
  · rintro ⟨hclosing, hbalanced⟩
    refine ⟨hclosing, hbalanced.count_eq.symm, fun j hj => ?_⟩
    have hfront := hbalanced.front_le j
    rwa [List.take_take, Nat.min_eq_left hj] at hfront

end ClosesAt

/-- **The scan ends at the first character that closes more than was opened.** -/
theorem unmatchedAfter_eq_some_iff (hne : opening ≠ closing) (i depth : Nat) (cs : List Char)
    (p : Nat) :
    unmatchedAfter opening closing i depth cs = some p ↔
      ∃ k, p = i + k ∧ ClosesAt opening closing depth cs k := by
  induction cs generalizing i depth with
  | nil =>
    rw [unmatchedAfter]
    exact ⟨nofun, fun ⟨_, _, h⟩ => absurd h ClosesAt.not_nil⟩
  | cons c cs ih =>
    -- a character at which the scan goes on, at another depth
    have hstep (depth' : Nat) (hfirst : ¬(c = closing ∧ depth = 0))
        (hcount : ∀ s : Text, ((c :: s).count closing = (c :: s).count opening + depth ↔
          s.count closing = s.count opening + depth') ∧
          ((c :: s).count closing ≤ (c :: s).count opening + depth ↔
            s.count closing ≤ s.count opening + depth')) :
        unmatchedAfter opening closing (i + 1) depth' cs = some p ↔
          ∃ k, p = i + k ∧ ClosesAt opening closing depth (c :: cs) k := by
      rw [ih (i + 1) depth']
      constructor
      · rintro ⟨k, rfl, h⟩
        exact ⟨k + 1, by omega, (ClosesAt.succ_iff hcount).2 h⟩
      · rintro ⟨k, rfl, h⟩
        cases k with
        | zero => exact absurd (ClosesAt.zero_iff.1 h) hfirst
        | succ k => exact ⟨k, by omega, (ClosesAt.succ_iff hcount).1 h⟩
    rw [unmatchedAfter.eq_def]
    dsimp only
    by_cases hopens : c = opening
    · rw [if_pos hopens]
      have hcloses : c ≠ closing := hopens ▸ hne
      refine hstep (depth + 1) (fun h => hcloses h.1) fun s => ?_
      rw [List.count_cons_of_ne hcloses, hopens, List.count_cons_self]
      omega
    · rw [if_neg hopens]
      by_cases hcloses : c = closing
      · rw [if_pos hcloses]
        cases depth with
        | zero =>
          subst hcloses
          refine ⟨fun h => ?_, ?_⟩
          · cases h
            exact ⟨0, rfl, ClosesAt.zero_iff.2 ⟨rfl, rfl⟩⟩
          · rintro ⟨k, rfl, h⟩
            cases k with
            | zero => rfl
            | succ k => exact absurd h (ClosesAt.not_succ hne)
        | succ depth =>
          refine hstep depth (fun h => by cases h.2) fun s => ?_
          rw [List.count_cons_of_ne hopens, hcloses, List.count_cons_self]
          omega
      · rw [if_neg hcloses]
        refine hstep depth (fun h => hcloses h.1) fun s => ?_
        rw [List.count_cons_of_ne hopens, List.count_cons_of_ne hcloses]
        exact ⟨Iff.rfl, Iff.rfl⟩

/-! ## Pairs -/

namespace Text

variable {t : Text} {i j p : Nat} {opens : Bool}

/-- The brackets at `i` and `j` are a pair. -/
structure Pairs (t : Text) (opening closing : Char) (i j : Nat) : Prop where
  lt : i < j
  opens : t[i]? = some opening
  closes : t[j]? = some closing
  balanced : Balanced opening closing (t.slice (i + 1) j)

/-- The kind of the bracket at an index, by its two characters, and whether it opens. -/
def bracketAt? (t : Text) (i : Nat) : Option (Char × Char × Bool) :=
  t[i]?.bind bracketPair

/-- The index `p` holds the other bracket of the pair that the one at `i` is in. -/
def Partners (t : Text) (opening closing : Char) (opens : Bool) (i p : Nat) : Prop :=
  if opens then t.Pairs opening closing i p else t.Pairs opening closing p i

theorem bracketPair_eq_some_iff {c : Char} :
    bracketPair c = some (opening, closing, opens) ↔
      (opening, closing) ∈ [('(', ')'), ('[', ']'), ('{', '}')] ∧
        c = if opens then opening else closing := by
  constructor
  · intro h
    unfold bracketPair at h
    split at h
    all_goals
      cases h
      try exact ⟨by decide, rfl⟩
  · rintro ⟨hkind, rfl⟩
    simp only [List.mem_cons, Prod.mk.injEq, List.not_mem_nil, or_false] at hkind
    rcases hkind with ⟨rfl, rfl⟩ | ⟨rfl, rfl⟩ | ⟨rfl, rfl⟩
    all_goals cases opens <;> rfl

theorem bracketAt?_eq_some_iff :
    t.bracketAt? i = some (opening, closing, opens) ↔
      (opening, closing) ∈ [('(', ')'), ('[', ']'), ('{', '}')] ∧
        t[i]? = some (if opens then opening else closing) := by
  rw [bracketAt?, Option.bind_eq_some_iff]
  constructor
  · rintro ⟨c, hc, h⟩
    obtain ⟨hkind, rfl⟩ := bracketPair_eq_some_iff.1 h
    exact ⟨hkind, hc⟩
  · rintro ⟨hkind, hc⟩
    exact ⟨_, hc, bracketPair_eq_some_iff.2 ⟨hkind, rfl⟩⟩

theorem ne_of_bracketAt? (h : t.bracketAt? i = some (opening, closing, opens)) :
    opening ≠ closing := by
  have hkind := (bracketAt?_eq_some_iff.1 h).1
  simp only [List.mem_cons, Prod.mk.injEq, List.not_mem_nil, or_false] at hkind
  rcases hkind with ⟨rfl, rfl⟩ | ⟨rfl, rfl⟩ | ⟨rfl, rfl⟩ <;> decide

theorem lt_length_of_bracketAt? (h : (t.bracketAt? i).isSome = true) : i < t.length := by
  obtain ⟨_, h⟩ := Option.isSome_iff_exists.1 h
  obtain ⟨c, hc, -⟩ := Option.bind_eq_some_iff.1 h
  exact (List.getElem?_eq_some_iff.1 hc).1

/-- The bracket at the other end of a pair has the first one for its partner. -/
theorem Partners.symm (h : t.bracketAt? i = some (opening, closing, opens))
    (hp : t.Partners opening closing opens i p) :
    t.bracketAt? p = some (opening, closing, !opens) ∧
      t.Partners opening closing (!opens) p i := by
  have hkind := (bracketAt?_eq_some_iff.1 h).1
  cases opens with
  | true => exact ⟨bracketAt?_eq_some_iff.2 ⟨hkind, Pairs.closes hp⟩, hp⟩
  | false => exact ⟨bracketAt?_eq_some_iff.2 ⟨hkind, Pairs.opens hp⟩, hp⟩

/-- The scan ahead ends at the other bracket of the pair that one opens. -/
theorem unmatchedClose_eq_some_iff (hne : opening ≠ closing) (hi : t[i]? = some opening) :
    t.unmatchedClose (i + 1) opening closing = some p ↔ t.Pairs opening closing i p := by
  rw [unmatchedClose, unmatchedAfter_eq_some_iff hne]
  simp only [ClosesAt.iff_balanced, List.getElem?_drop]
  have hslice (k : Nat) : (t.drop (i + 1)).take k = t.slice (i + 1) (i + 1 + k) := by
    rw [slice, List.drop_take, Nat.add_sub_cancel_left]
  constructor
  · rintro ⟨k, rfl, hclosing, hbalanced⟩
    exact ⟨by omega, hi, hclosing, hslice k ▸ hbalanced⟩
  · rintro ⟨hlt, -, hclosing, hbalanced⟩
    obtain ⟨k, rfl⟩ := Nat.exists_eq_add_of_le hlt
    exact ⟨k, rfl, hclosing, hslice k ▸ hbalanced⟩

/-- The scan back ends at the bracket that opens and has balanced text between it and the index. -/
theorem unmatchedOpen_eq_some_iff_balanced (hne : opening ≠ closing) :
    t.unmatchedOpen i opening closing = some p ↔
      p < i ∧ t[p]? = some opening ∧ Balanced opening closing (t.slice (p + 1) i) := by
  wlog hle : i ≤ t.length generalizing i
  · -- past the end the same characters come before as at the end
    have hend : t.length ≤ i := Nat.le_of_not_le hle
    have hscan := this (Nat.le_refl t.length)
    simp only [unmatchedOpen, backward, slice, List.take_of_length_le hend, List.take_length,
      Nat.min_eq_right hend, Nat.min_self] at hscan ⊢
    rw [hscan]
    constructor
    · rintro ⟨hp, h⟩
      exact ⟨Nat.lt_of_lt_of_le hp hend, h⟩
    · rintro ⟨-, hopening, h⟩
      exact ⟨(List.getElem?_eq_some_iff.1 hopening).1, hopening, h⟩
  have hslice (k : Nat) : (t.backward i).take k = (t.slice (i - k) i).reverse := by
    rw [backward, List.take_reverse, List.length_take, Nat.min_eq_left hle, slice]
  rw [unmatchedOpen, Nat.min_eq_left hle, Option.map_eq_some_iff]
  simp only [unmatchedAfter_eq_some_iff hne.symm, ClosesAt.iff_balanced, hslice, balanced_reverse,
    Nat.zero_add]
  constructor
  · rintro ⟨k, ⟨_, rfl, hopening, hbalanced⟩, rfl⟩
    have hk : k < i := by
      have hk := (List.getElem?_eq_some_iff.1 hopening).1
      rwa [length_backward, Nat.min_eq_left hle] at hk
    rw [getElem?_backward hle hk] at hopening
    have hback : i - 1 - k + 1 = i - k := by omega
    exact ⟨by omega, hopening, hback ▸ hbalanced⟩
  · rintro ⟨hp, hopening, hbalanced⟩
    have hback : i - 1 - (i - 1 - p) = p := by omega
    have hstart : i - (i - 1 - p) = p + 1 := by omega
    refine ⟨i - 1 - p, ⟨_, rfl, ?_, hstart.symm ▸ hbalanced⟩, hback⟩
    rw [getElem?_backward hle (by omega), hback]
    exact hopening

/-- The scan back ends at the other bracket of the pair that one closes. -/
theorem unmatchedOpen_eq_some_iff (hne : opening ≠ closing) (hi : t[i]? = some closing) :
    t.unmatchedOpen i opening closing = some p ↔ t.Pairs opening closing p i := by
  rw [unmatchedOpen_eq_some_iff_balanced hne]
  exact ⟨fun ⟨hp, hopening, hbalanced⟩ => ⟨hp, hopening, hi, hbalanced⟩,
    fun ⟨hp, hopening, _, hbalanced⟩ => ⟨hp, hopening, hbalanced⟩⟩

/-- **A bracket's partner is the other one of its pair.** -/
theorem partner_eq_some_iff (h : t.bracketAt? i = some (opening, closing, opens)) :
    t.partner i = some p ↔ t.Partners opening closing opens i p := by
  have hne := ne_of_bracketAt? h
  obtain ⟨-, hi⟩ := bracketAt?_eq_some_iff.1 h
  obtain ⟨c, hc, hpair⟩ := Option.bind_eq_some_iff.1 h
  have hpartner : t.partner i =
      if opens then t.unmatchedClose (i + 1) opening closing
      else t.unmatchedOpen i opening closing := by
    simp only [partner, hc, Option.bind_eq_bind, Option.bind_some, hpair]
  rw [hpartner]
  cases opens with
  | true => exact unmatchedClose_eq_some_iff hne hi
  | false => exact unmatchedOpen_eq_some_iff hne hi

/-! ## The first bracket -/

theorem firstBracket_eq_none_iff :
    t.firstBracket i = none ↔ ∀ j ≥ i, t.bracketAt? j = none := by
  rw [firstBracket, Option.map_eq_none_iff, List.findIdx?_eq_none_iff]
  constructor
  · intro h j hj
    rw [bracketAt?, Option.bind_eq_none_iff]
    intro c hc
    refine Option.not_isSome_iff_eq_none.1 (Bool.eq_false_iff.1 (h c ?_))
    obtain ⟨k, rfl⟩ := Nat.exists_eq_add_of_le hj
    exact List.mem_of_getElem? (i := k) (List.getElem?_drop ▸ hc)
  · intro h c hc
    obtain ⟨k, hk⟩ := List.getElem?_of_mem hc
    rw [List.getElem?_drop] at hk
    have hnone := h (i + k) (Nat.le_add_right i k)
    rw [bracketAt?, hk, Option.bind_some] at hnone
    rw [hnone]
    rfl

theorem firstBracket_eq_some (h : IsLeast {j | i ≤ j ∧ (t.bracketAt? j).isSome = true} j) :
    t.firstBracket i = some j := by
  obtain ⟨⟨hij, hbracket⟩, hleast⟩ := h
  obtain ⟨k, rfl⟩ := Nat.exists_eq_add_of_le hij
  have hlt := lt_length_of_bracketAt? hbracket
  have hread {n : Nat} (hn : i + n < t.length) :
      (t.bracketAt? (i + n)) = bracketPair t[i + n] := by
    rw [bracketAt?, List.getElem?_eq_getElem hn, Option.bind_some]
  refine congrArg (Option.map (i + ·)) (List.findIdx?_eq_some_iff_getElem.2 ⟨?_, ?_, ?_⟩)
  · rw [List.length_drop]
    omega
  · rw [List.getElem_drop, ← hread hlt]
    exact hbracket
  · intro n hn hpair
    rw [List.getElem_drop, ← hread (by omega)] at hpair
    have hle := hleast ⟨Nat.le_add_right i n, hpair⟩
    omega

end Text

/-! ## The motion -/

namespace Motion

variable {t : Text} {i j p : Nat} {opens : Bool}

theorem range_percent (ctx : MotionContext) (hi : i ≤ t.length) :
    percent.range t ctx 0 i = ((t.firstBracket i).bind t.partner).map (.inclusive i) := by
  simp only [range, Position.ofIndex_index, Nat.min_eq_left hi, if_true]

theorem range_percent_of_bracketAt? (ctx : MotionContext)
    (h : t.bracketAt? i = some (opening, closing, opens)) :
    percent.range t ctx 0 i = (t.partner i).map (.inclusive i) := by
  have hbracket : (t.bracketAt? i).isSome = true := by rw [h]; rfl
  have hfirst : t.firstBracket i = some i :=
    Text.firstBracket_eq_some ⟨⟨Nat.le_refl i, hbracket⟩, fun _ hk => hk.1⟩
  rw [range_percent ctx (Nat.le_of_lt (Text.lt_length_of_bracketAt? hbracket)), hfirst]
  rfl

theorem range_percent_eq_some_iff (ctx : MotionContext)
    (h : t.bracketAt? i = some (opening, closing, opens)) :
    percent.range t ctx 0 i = some (.inclusive i p) ↔ t.Partners opening closing opens i p := by
  rw [range_percent_of_bracketAt? ctx h, ← Text.partner_eq_some_iff h, Option.map_eq_some_iff]
  constructor
  · rintro ⟨p, hp, hrange⟩
    cases hrange
    exact hp
  · exact fun hp => ⟨p, hp, rfl⟩

/-- **`%` goes to and fro between the two brackets of a pair.** From a bracket it leads to `p`
exactly if the bracket at `p` is the other one of its pair, and then from `p` back; it has no range
exactly if the bracket is in no pair. From any other cursor it leads where the first bracket after
the cursor does, and nowhere if there is none. -/
theorem percent_pairs (t : Text) (ctx : MotionContext) :
    (∀ (i : Nat) (opening closing : Char) (opens : Bool),
      t.bracketAt? i = some (opening, closing, opens) →
      (∀ p, percent.range t ctx 0 i = some (.inclusive i p) ↔
        t.Partners opening closing opens i p) ∧
      (percent.range t ctx 0 i = none ↔ ¬∃ p, t.Partners opening closing opens i p) ∧
      ∀ p, percent.range t ctx 0 i = some (.inclusive i p) →
        percent.range t ctx 0 p = some (.inclusive p i)) ∧
    ∀ i : Nat,
      (∀ j, IsLeast {j | i ≤ j ∧ (t.bracketAt? j).isSome = true} j →
        (percent.range t ctx 0 i).map (·.stop) = (percent.range t ctx 0 j).map (·.stop)) ∧
      ((∀ j ≥ i, t.bracketAt? j = none) → percent.range t ctx 0 i = none) := by
  refine ⟨fun i opening closing opens h => ⟨fun p => ?_, ?_, fun p hp => ?_⟩, fun i => ⟨?_, ?_⟩⟩
  · exact range_percent_eq_some_iff ctx h
  · rw [range_percent_of_bracketAt? ctx h, Option.map_eq_none_iff,
      Option.eq_none_iff_forall_ne_some, not_exists]
    exact forall_congr' fun p => not_congr (Text.partner_eq_some_iff h)
  · obtain ⟨hother, hback⟩ := ((range_percent_eq_some_iff ctx h).1 hp).symm h
    exact (range_percent_eq_some_iff ctx hother).2 hback
  · intro j hj
    obtain ⟨⟨opening, closing, opens⟩, hbracket⟩ := Option.isSome_iff_exists.1 hj.1.2
    have hlt := Text.lt_length_of_bracketAt? hj.1.2
    rw [range_percent_of_bracketAt? ctx hbracket,
      range_percent ctx (Nat.le_trans hj.1.1 (Nat.le_of_lt hlt)), Text.firstBracket_eq_some hj,
      Option.map_map, Option.map_map]
    rfl
  · intro hnone
    have hfirst : t.firstBracket (min i t.length) = none := by
      refine Text.firstBracket_eq_none_iff.2 fun j hj => ?_
      by_cases hlt : j < t.length
      · exact hnone j (by omega)
      · rw [Text.bracketAt?, List.getElem?_eq_none (Nat.le_of_not_lt hlt)]
        rfl
    simp only [range, Position.ofIndex_index, hfirst, if_true]
    rfl

/-- Pairs of two kinds that cross, and a bracket in no pair. The cursor before them leads to the end
of the first pair. -/
theorem percent_pairs_crossed :
    let t : Text := ['x', '(', '[', ')', ']', ')']
    t.Partners '(' ')' true 1 3 ∧ t.Partners '[' ']' false 4 2 ∧
      (¬∃ p, t.Partners '(' ')' false 5 p) ∧ percent.range t {} 0 3 = some (.inclusive 3 1) ∧
      (percent.range t {} 0 0).map (·.stop) = some 3 := by
  intro t
  obtain ⟨hpairs, hfirst⟩ := percent_pairs t {}
  obtain ⟨hopens, -, hback⟩ := hpairs 1 '(' ')' true rfl
  obtain ⟨hcloses, -, -⟩ := hpairs 4 '[' ']' false rfl
  obtain ⟨-, halone, -⟩ := hpairs 5 '(' ')' false rfl
  have hleast : IsLeast {j | 0 ≤ j ∧ (t.bracketAt? j).isSome = true} 1 := by
    refine ⟨⟨Nat.zero_le 1, rfl⟩, fun j hj => Nat.one_le_iff_ne_zero.2 ?_⟩
    rintro rfl
    cases hj.2
  refine ⟨(hopens 3).1 rfl, (hcloses 2).1 rfl, halone.1 rfl, hback 3 rfl, ?_⟩
  rw [(hfirst 0).1 1 hleast]
  rfl

end Motion

end ModalEdit
