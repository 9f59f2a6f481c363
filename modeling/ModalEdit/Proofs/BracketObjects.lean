import Mathlib.Data.Nat.SuccPred
import ModalEdit.Proofs.BracketPairs
import ModalEdit.Proofs.LinewiseOperators
import ModalEdit.TextObject.Range

/-!
# Bracket objects are innermost pairs

A bracket object is there exactly if some pair of its kind holds the cursor, and it is made from the
one of these pairs that opens last (`TextObject.bracket_innermost`). Its inside is the characters
between the two brackets, or, where the brackets stand around whole lines, those lines.

All of it is read off one number, how many brackets are open before an index (`Text.depth`). A pair
is a bracket that opens and the first index after it at which the depth falls below what it was made
by that bracket. Hence pairs never cross (`Pairs.exists_pairs_of_opens`): inside a pair every
bracket that opens is closed again. Before the cursor, the last bracket that is still open is the
last one after which the depth never falls below that at the cursor (`exists_last_rise`).
-/

namespace ModalEdit

variable {opening closing : Char} {t : Text} {i j left right p : Nat}

namespace Text

/-! ## Depth -/

/-- How many more brackets open than close before an index. -/
def depth (t : Text) (opening closing : Char) (i : Nat) : Int :=
  (t.take i).count opening - (t.take i).count closing

theorem depth_succ {c : Char} (h : t[i]? = some c) :
    t.depth opening closing (i + 1) =
      t.depth opening closing i + [c].count opening - [c].count closing := by
  obtain ⟨hi, rfl⟩ := List.getElem?_eq_some_iff.1 h
  simp only [depth, List.take_succ_eq_append_getElem hi, List.count_append]
  omega

theorem depth_succ_of_opens (hne : opening ≠ closing) (h : t[i]? = some opening) :
    t.depth opening closing (i + 1) = t.depth opening closing i + 1 := by
  rw [depth_succ h, List.count_singleton_self, List.count_singleton, if_neg (by simpa using hne)]
  omega

theorem depth_succ_of_closes (hne : opening ≠ closing) (h : t[i]? = some closing) :
    t.depth opening closing (i + 1) = t.depth opening closing i - 1 := by
  rw [depth_succ h, List.count_singleton_self, List.count_singleton,
    if_neg (by simpa using hne.symm)]
  omega

theorem depth_succ_cases (t : Text) (opening closing : Char) (i : Nat) :
    t.depth opening closing (i + 1) = t.depth opening closing i ∨
      t[i]? = some opening ∨ t[i]? = some closing := by
  cases hc : t[i]? with
  | none =>
    rw [List.getElem?_eq_none_iff] at hc
    left
    rw [depth, depth, List.take_of_length_le hc, List.take_of_length_le (by omega)]
  | some c =>
    rw [depth_succ hc, List.count_singleton, List.count_singleton]
    by_cases hopens : c = opening
    · exact Or.inr (Or.inl (congrArg some hopens))
    · by_cases hcloses : c = closing
      · exact Or.inr (Or.inr (congrArg some hcloses))
      · left
        rw [if_neg (by simpa using hopens), if_neg (by simpa using hcloses)]
        omega

theorem balanced_slice_iff (hij : i ≤ j) :
    Balanced opening closing (t.slice i j) ↔
      t.depth opening closing j = t.depth opening closing i ∧
        ∀ k, i ≤ k → k ≤ j → t.depth opening closing i ≤ t.depth opening closing k := by
  have hcount (c : Char) {k : Nat} (hik : i ≤ k) (hkj : k ≤ j) :
      (t.take k).count c = (t.take i).count c + ((t.slice i j).take (k - i)).count c := by
    have hfront : (t.slice i j).take (k - i) = t.slice i k := by
      rw [slice, slice, ← List.drop_take, List.take_take, Nat.min_eq_left hkj]
    rw [hfront, slice, ← List.count_append, ← take_eq_append_of_le hik]
  have hwhole : (t.slice i j).take (j - i) = t.slice i j :=
    List.take_of_length_le (by rw [length_slice]; omega)
  have hopens := hcount opening hij (Nat.le_refl j)
  have hcloses := hcount closing hij (Nat.le_refl j)
  rw [hwhole] at hopens hcloses
  simp only [depth]
  constructor
  · rintro ⟨hsame, hfront⟩
    refine ⟨by omega, fun k hik hkj => ?_⟩
    have hle := hfront (k - i)
    rw [hcount opening hik hkj, hcount closing hik hkj]
    omega
  · rintro ⟨hsame, hfront⟩
    refine ⟨by omega, fun k => ?_⟩
    by_cases hk : k ≤ j - i
    · have hle := hfront (i + k) (by omega) (by omega)
      have hopens' := hcount opening (k := i + k) (by omega) (by omega)
      have hcloses' := hcount closing (k := i + k) (by omega) (by omega)
      rw [Nat.add_sub_cancel_left] at hopens' hcloses'
      omega
    · rw [List.take_of_length_le (by rw [length_slice]; omega)]
      omega

/-! ## Where the depth passes a level -/

theorem exists_first_fall (hne : opening ≠ closing) {d : Int} (hij : i ≤ j)
    (hi : d ≤ t.depth opening closing i) (hj : t.depth opening closing j < d) :
    ∃ k, i ≤ k ∧ k < j ∧ t[k]? = some closing ∧ t.depth opening closing k = d ∧
      ∀ m, i ≤ m → m ≤ k → d ≤ t.depth opening closing m := by
  obtain ⟨n, rfl⟩ := Nat.exists_eq_add_of_le hij
  induction n generalizing i with
  | zero => exact absurd hj (by rw [Nat.add_zero]; omega)
  | succ n ih =>
    by_cases hnext : d ≤ t.depth opening closing (i + 1)
    · obtain ⟨k, hik, hk, hcloses, hdepth, hfront⟩ :=
        ih hnext (Nat.le_add_right _ n) (by rwa [Nat.add_right_comm])
      refine ⟨k, by omega, by omega, hcloses, hdepth, fun m him hmk => ?_⟩
      rcases Nat.eq_or_lt_of_le him with rfl | hlt
      · exact hi
      · exact hfront m hlt hmk
    · have hcloses : t[i]? = some closing := by
        rcases t.depth_succ_cases opening closing i with hsame | hopens | hcloses
        · omega
        · have hup := depth_succ_of_opens hne hopens
          omega
        · exact hcloses
      have hdown := depth_succ_of_closes hne hcloses
      refine ⟨i, Nat.le_refl i, by omega, hcloses, by omega, fun m him hmi => ?_⟩
      rwa [Nat.le_antisymm hmi him]

theorem exists_last_rise (hne : opening ≠ closing) {d : Int} (hij : i ≤ j)
    (hi : t.depth opening closing i < d) (hj : d ≤ t.depth opening closing j) :
    ∃ k, i ≤ k ∧ k < j ∧ t[k]? = some opening ∧ t.depth opening closing (k + 1) = d ∧
      ∀ m, k < m → m ≤ j → d ≤ t.depth opening closing m := by
  obtain ⟨n, rfl⟩ := Nat.exists_eq_add_of_le hij
  induction n with
  | zero => exact absurd hi (by rw [Nat.add_zero] at hj; omega)
  | succ n ih =>
    by_cases hbefore : d ≤ t.depth opening closing (i + n)
    · obtain ⟨k, hik, hk, hopens, hdepth, hrear⟩ := ih (Nat.le_add_right i n) hbefore
      refine ⟨k, hik, by omega, hopens, hdepth, fun m hkm hm => ?_⟩
      rcases Nat.eq_or_lt_of_le hm with rfl | hlt
      · exact hj
      · exact hrear m hkm (by omega)
    · have hopens : t[i + n]? = some opening := by
        rcases t.depth_succ_cases opening closing (i + n) with hsame | hopens | hcloses
        · rw [Nat.add_assoc] at hsame
          omega
        · exact hopens
        · have hdown := depth_succ_of_closes hne hcloses
          rw [Nat.add_assoc] at hdown
          omega
      have hup := depth_succ_of_opens hne hopens
      rw [Nat.add_assoc] at hup
      refine ⟨i + n, by omega, by omega, hopens, by rw [Nat.add_assoc]; omega, fun m hkm hm => ?_⟩
      rwa [show m = i + (n + 1) by omega]

/-! ## Pairs and what they hold -/

theorem pairs_iff :
    t.Pairs opening closing left right ↔
      left < right ∧ t[left]? = some opening ∧ t[right]? = some closing ∧
        t.depth opening closing right = t.depth opening closing (left + 1) ∧
        ∀ k, left < k → k ≤ right →
          t.depth opening closing (left + 1) ≤ t.depth opening closing k := by
  constructor
  · intro h
    exact ⟨h.lt, h.opens, h.closes, (balanced_slice_iff h.lt).1 h.balanced⟩
  · rintro ⟨hlt, hopens, hcloses, hbalanced⟩
    exact ⟨hlt, hopens, hcloses, (balanced_slice_iff hlt).2 hbalanced⟩

/-- **Inside a pair every bracket that opens is closed again.** -/
theorem Pairs.exists_pairs_of_opens (hne : opening ≠ closing)
    (h : t.Pairs opening closing left right) (hp : t[p]? = some opening) (hleft : left < p)
    (hright : p < right) : ∃ q < right, t.Pairs opening closing p q := by
  obtain ⟨-, -, -, hsame, hbetween⟩ := pairs_iff.1 h
  have hup := depth_succ_of_opens hne hp
  have hlow := hbetween p hleft (Nat.le_of_lt hright)
  obtain ⟨q, hpq, hq, hcloses, hdepth, hfront⟩ :=
    exists_first_fall (i := p + 1) (d := t.depth opening closing (p + 1)) hne hright
      (Int.le_refl _) (by omega)
  exact ⟨q, hq, pairs_iff.2 ⟨hpq, hp, hcloses, hdepth, hfront⟩⟩

theorem Pairs.right_unique (hne : opening ≠ closing) (h : t.Pairs opening closing left i)
    (h' : t.Pairs opening closing left j) : i = j :=
  Option.some.inj (((unmatchedClose_eq_some_iff hne h.opens).2 h).symm.trans
    ((unmatchedClose_eq_some_iff hne h.opens).2 h'))

/-- The brackets at `left` and `right` are a pair, and the index `i` is on one of them or between
them. -/
structure Encloses (t : Text) (opening closing : Char) (i left right : Nat) : Prop where
  pairs : t.Pairs opening closing left right
  left_le : left ≤ i
  le_right : i ≤ right

/-- Of the pairs that enclose the index `i`, the one that opens last. -/
structure Innermost (t : Text) (opening closing : Char) (i left right : Nat) : Prop
    extends t.Encloses opening closing i left right where
  latest : ∀ left' right', t.Encloses opening closing i left' right' → left' ≤ left

theorem Encloses.exists_innermost (h : t.Encloses opening closing i left right) :
    ∃ left right, t.Innermost opening closing i left right := by
  have hbounded : BddAbove {left | ∃ right, t.Encloses opening closing i left right} :=
    ⟨i, fun _ ⟨_, hencloses⟩ => hencloses.left_le⟩
  obtain ⟨left, ⟨right, hencloses⟩, hlatest⟩ :=
    hbounded.exists_isGreatest_of_nonempty ⟨left, right, h⟩
  exact ⟨left, right, hencloses, fun left' right' h' => hlatest ⟨right', h'⟩⟩

/-- **The innermost pair around an index is the one whose first bracket is the last that is open
there**: it is at the index, or there is none there and the text from it to the index is
balanced. -/
theorem innermost_iff (hne : opening ≠ closing) :
    t.Innermost opening closing i left right ↔
      t.Pairs opening closing left right ∧
        (left = i ∨ t[i]? ≠ some opening ∧ left < i ∧
          Balanced opening closing (t.slice (left + 1) i)) := by
  constructor
  · intro h
    refine ⟨h.pairs, (Nat.eq_or_lt_of_le h.left_le).imp_right fun hlt => ?_⟩
    -- a bracket that opens at the index would be the first of a pair inside this one
    have hnot : t[i]? ≠ some opening := by
      intro hopens
      have hir : i ≠ right := by
        rintro rfl
        exact hne (Option.some.inj (hopens.symm.trans h.pairs.closes))
      obtain ⟨q, -, hq⟩ := h.pairs.exists_pairs_of_opens hne hopens hlt
        (Nat.lt_of_le_of_ne h.le_right hir)
      have hle := h.latest i q ⟨hq, Nat.le_refl i, Nat.le_of_lt hq.lt⟩
      omega
    obtain ⟨-, -, -, hsame, hbetween⟩ := pairs_iff.1 h.pairs
    refine ⟨hnot, hlt, (balanced_slice_iff hlt).2 ⟨?_, fun k hk hki => hbetween k hk ?_⟩⟩
    · -- a bracket after the first one that is still open at the index is in a pair around it
      refine Int.le_antisymm (Int.not_lt.1 fun hdeep => ?_) (hbetween i hlt h.le_right)
      obtain ⟨p, hp, hpi, hopens, hdepth, hrear⟩ := exists_last_rise hne hlt hdeep (Int.le_refl _)
      obtain ⟨q, -, hq⟩ := h.pairs.exists_pairs_of_opens hne hopens hp
        (Nat.lt_of_lt_of_le hpi h.le_right)
      obtain ⟨-, -, hcloses, hqsame, -⟩ := pairs_iff.1 hq
      have hdown := depth_succ_of_closes hne hcloses
      have hiq : i ≤ q := by
        refine Nat.le_of_not_lt fun hqi => ?_
        have hlow := hrear (q + 1) (Nat.lt_succ_of_lt hq.lt) hqi
        omega
      have hle := h.latest p q ⟨hq, Nat.le_of_lt hpi, hiq⟩
      omega
    · exact Nat.le_trans hki h.le_right
  · rintro ⟨hpairs, rfl | ⟨hnot, hlt, hbalanced⟩⟩
    · exact ⟨⟨hpairs, Nat.le_refl _, Nat.le_of_lt hpairs.lt⟩, fun _ _ h' => h'.left_le⟩
    · obtain ⟨hsame, hbetween⟩ := (balanced_slice_iff (i := left + 1) hlt).1 hbalanced
      obtain ⟨-, -, hcloses, hright, -⟩ := pairs_iff.1 hpairs
      have hdown := depth_succ_of_closes hne hcloses
      have hir : i ≤ right := by
        refine Nat.le_of_not_lt fun hri => ?_
        have hlow := hbetween (right + 1) (Nat.lt_succ_of_lt hpairs.lt) hri
        omega
      refine ⟨⟨hpairs, Nat.le_of_lt hlt, hir⟩,
        fun left' right' h' => Nat.le_of_not_lt fun hlate => ?_⟩
      have hli : left' < i := by
        refine Nat.lt_of_le_of_ne h'.left_le ?_
        rintro rfl
        exact hnot h'.pairs.opens
      -- a pair that starts later lies deeper at the index than a balanced text leaves it
      obtain ⟨-, hopens, -, -, hinner⟩ := pairs_iff.1 h'.pairs
      have hup := depth_succ_of_opens hne hopens
      have hlow := hbetween left' hlate (Nat.le_of_lt hli)
      have hhigh := hinner i hli h'.le_right
      omega

/-- **The search finds the innermost pair**, and nothing where no pair encloses the index. -/
theorem bracketPairAt_eq_some_iff (hne : opening ≠ closing) :
    t.bracketPairAt opening closing i = some (left, right) ↔
      t.Innermost opening closing i left right := by
  rw [innermost_iff hne, bracketPairAt]
  by_cases hopens : t[i]? = some opening
  · rw [if_pos hopens, Option.map_eq_some_iff]
    simp only [unmatchedClose_eq_some_iff hne hopens, Prod.mk.injEq]
    constructor
    · rintro ⟨_, hpairs, rfl, rfl⟩
      exact ⟨hpairs, Or.inl rfl⟩
    · rintro ⟨hpairs, rfl | ⟨hnot, -⟩⟩
      · exact ⟨right, hpairs, rfl, rfl⟩
      · exact absurd hopens hnot
  · rw [if_neg hopens]
    by_cases hcloses : t[i]? = some closing
    · rw [if_pos hcloses, Option.map_eq_some_iff]
      simp only [unmatchedOpen_eq_some_iff hne hcloses, Prod.mk.injEq]
      constructor
      · rintro ⟨_, hpairs, rfl, rfl⟩
        exact ⟨hpairs, Or.inr ⟨hopens, hpairs.lt, hpairs.balanced⟩⟩
      · rintro ⟨hpairs, rfl | ⟨-, hlt, hbalanced⟩⟩
        · exact absurd hpairs.opens hopens
        · have hpairs' : t.Pairs opening closing left i := ⟨hlt, hpairs.opens, hcloses, hbalanced⟩
          exact ⟨left, hpairs', rfl, hpairs'.right_unique hne hpairs⟩
    · -- off the brackets the search first goes back to one that is still open
      rw [if_neg hcloses]
      simp only [Option.bind_eq_bind, Option.bind_eq_some_iff, Option.pure_def, Option.some.injEq,
        Prod.mk.injEq, unmatchedOpen_eq_some_iff_balanced hne]
      constructor
      · rintro ⟨_, ⟨hlt, hleft, hbalanced⟩, _, hright, rfl, rfl⟩
        exact ⟨(unmatchedClose_eq_some_iff hne hleft).1 hright, Or.inr ⟨hopens, hlt, hbalanced⟩⟩
      · rintro ⟨hpairs, rfl | ⟨-, hlt, hbalanced⟩⟩
        · exact absurd hpairs.opens hopens
        · exact ⟨left, ⟨hlt, hpairs.opens, hbalanced⟩, right,
            (unmatchedClose_eq_some_iff hne hpairs.opens).2 hpairs, rfl, rfl⟩

theorem Pairs.innermost (h : t.Pairs opening closing left right) (hleft : left ≤ j)
    (hright : j ≤ right)
    (hnested : ∀ left' right', t.Pairs opening closing left' right' → left < left' →
      right' < right → ¬(left' ≤ j ∧ j ≤ right')) (hne : opening ≠ closing) :
    t.Innermost opening closing j left right := by
  refine ⟨⟨h, hleft, hright⟩, fun left' right' h' => Nat.le_of_not_lt fun hlate => ?_⟩
  have hlt : left' < right := by
    refine Nat.lt_of_le_of_ne (Nat.le_trans h'.left_le hright) ?_
    rintro rfl
    exact hne (Option.some.inj (h'.pairs.opens.symm.trans h.closes))
  obtain ⟨q, hq, hpairs⟩ := h.exists_pairs_of_opens hne h'.pairs.opens hlate hlt
  obtain rfl := hpairs.right_unique hne h'.pairs
  exact hnested left' q hpairs hlate hq ⟨h'.left_le, h'.le_right⟩

/-! ## What is inside -/

/-- Two brackets stand around whole lines: a line break follows the first one, and the second one is
the first character that is no blank of a line below the next one. -/
structure AroundLines (t : Text) (left right : Nat) : Prop where
  breaks : t[left + 1]? = some '\n'
  below : t.lineOf left + 1 < t.lineOf right
  first : t.firstNonBlank (t.lineOf right) = right

theorem linesBetween_eq_some (h : t.AroundLines left right) :
    ∃ range : Range, t.linesBetween left right = some range ∧ range.extent = .linewise ∧
      ∀ l, range.firstLine t ≤ l ∧ l ≤ range.finalLine t ↔
        t.lineOf left < l ∧ l < t.lineOf right := by
  have hlast := t.lineOf_le_lastLine right
  have hbelow := h.below
  have hfirst := lineOf_lineStart (t := t) (l := t.lineOf left + 1) (by omega)
  have hfinal := lineOf_lineStart (t := t) (l := t.lineOf right - 1) (by omega)
  have hmono : t.lineStart (t.lineOf left + 1) ≤ t.lineStart (t.lineOf right - 1) :=
    Text.lineStart_mono (by omega) (by omega)
  refine ⟨_, if_pos ⟨h.breaks, h.below, h.first⟩, rfl, fun l => ?_⟩
  simp only [Range.firstLine, Range.finalLine, Range.linewise, Nat.min_eq_left hmono,
    Nat.max_eq_right hmono, hfirst, hfinal]
  omega

theorem linesBetween_eq_none (h : ¬t.AroundLines left right) : t.linesBetween left right = none :=
  if_neg fun ⟨hbreaks, hbelow, hfirst⟩ => h ⟨hbreaks, hbelow, hfirst⟩

end Text

namespace TextObject

/-- **A bracket object is the innermost pair of its kind around the cursor.** There is one exactly
if some pair encloses the cursor. Around, it is both brackets and what is between them; inside, what
is between them, or if they stand around whole lines these lines. So the cursors in a pair that are
in no pair nested in it all give the same object. For the brackets that `%` knows, it leads from one
end of the object to the other. -/
theorem bracket_innermost (hne : opening ≠ closing) (t : Text) (count : Nat) :
    (∀ scope i, ((bracket opening closing).range t scope count i).isSome = true ↔
      ∃ left right, t.Encloses opening closing i left right) ∧
    (∀ i left right, t.Encloses opening closing i left right →
      ∃ left right, t.Innermost opening closing i left right) ∧
    (∀ i left right, t.Innermost opening closing i left right →
      (bracket opening closing).range t .around count i = some (.exclusive left (right + 1)) ∧
      (¬t.AroundLines left right →
        (bracket opening closing).range t .inner count i = some (.exclusive (left + 1) right)) ∧
      (t.AroundLines left right → ∃ range,
        (bracket opening closing).range t .inner count i = some range ∧
        range.extent = .linewise ∧ ∀ l, range.firstLine t ≤ l ∧ l ≤ range.finalLine t ↔
          t.lineOf left < l ∧ l < t.lineOf right)) ∧
    (∀ i j left right, t.Innermost opening closing i left right → left ≤ j → j ≤ right →
      (∀ left' right', t.Pairs opening closing left' right' → left < left' → right' < right →
        ¬(left' ≤ j ∧ j ≤ right')) →
      ∀ scope, (bracket opening closing).range t scope count j =
        (bracket opening closing).range t scope count i) ∧
    ((opening, closing) ∈ [('(', ')'), ('[', ']'), ('{', '}')] →
      ∀ i left right, t.Innermost opening closing i left right → ∀ ctx,
        Motion.percent.range t ctx 0 left = some (.inclusive left right)) := by
  have hpair {i left right : Nat} (h : t.Innermost opening closing i left right) :
      t.bracketPairAt opening closing i = some (left, right) :=
    (Text.bracketPairAt_eq_some_iff hne).2 h
  refine ⟨fun scope i => ?_, fun i left right h => h.exists_innermost, fun i left right h => ?_,
    fun i j left right h hleft hright hnested scope => ?_, fun hkind i left right h ctx => ?_⟩
  · rw [range, Option.isSome_map, Option.isSome_iff_exists]
    constructor
    · rintro ⟨⟨left, right⟩, h⟩
      exact ⟨left, right, ((Text.bracketPairAt_eq_some_iff hne).1 h).toEncloses⟩
    · rintro ⟨_, _, h⟩
      obtain ⟨left, right, h⟩ := h.exists_innermost
      exact ⟨_, hpair h⟩
  · simp only [range, hpair h, Option.map_some]
    refine ⟨rfl, fun hlines => ?_, fun hlines => ?_⟩
    · rw [Text.linesBetween_eq_none hlines]
      rfl
    · obtain ⟨range, hrange, hextent, htouches⟩ := Text.linesBetween_eq_some hlines
      exact ⟨range, by rw [hrange]; rfl, hextent, htouches⟩
  · simp only [range, hpair h, hpair (h.pairs.innermost hleft hright hnested hne)]
  · have hbracket : t.bracketAt? left = some (opening, closing, true) :=
      Text.bracketAt?_eq_some_iff.2 ⟨hkind, h.pairs.opens⟩
    exact (Motion.range_percent_eq_some_iff ctx hbracket).2 h.pairs

/-- A block around one whole line, with a pair of another kind and an unmatched bracket in it. -/
theorem bracket_innermost_block :
    let t : Text := ['f', '{', '\n', '(', '[', ']', '\n', '}']
    (∃ left right, t.Encloses '{' '}' 4 left right) ∧ t.Innermost '{' '}' 4 1 7 ∧
      (bracket '{' '}').range t .around 1 4 = some (.exclusive 1 8) ∧
      (∃ range, (bracket '{' '}').range t .inner 1 4 = some range ∧ range.extent = .linewise ∧
        ∀ l, range.firstLine t ≤ l ∧ l ≤ range.finalLine t ↔ l = 1) ∧
      (bracket '{' '}').range t .inner 1 7 = (bracket '{' '}').range t .inner 1 4 ∧
      Motion.percent.range t {} 0 1 = some (.inclusive 1 7) := by
  intro t
  have hne : '{' ≠ '}' := by decide
  obtain ⟨hsome, -, hobject, hsame, hpercent⟩ := bracket_innermost hne t 1
  have hinner (i : Nat) (h : t.bracketPairAt '{' '}' i = some (1, 7)) : t.Innermost '{' '}' i 1 7 :=
    (Text.bracketPairAt_eq_some_iff hne).1 h
  obtain ⟨haround, -, hlines⟩ := hobject 4 1 7 (hinner 4 rfl)
  obtain ⟨range, hrange, hextent, htouches⟩ := hlines ⟨rfl, by decide, by decide⟩
  refine ⟨(hsome .inner 4).1 rfl, hinner 4 rfl, haround, ⟨range, hrange, hextent, fun l => ?_⟩, ?_,
    hpercent (by decide) 4 1 7 (hinner 4 rfl) {}⟩
  · rw [htouches, show t.lineOf 1 = 0 by decide, show t.lineOf 7 = 2 by decide]
    omega
  · refine hsame 4 7 1 7 (hinner 4 rfl) (by decide) (by decide) (fun left' right' h hleft _ _ => ?_)
      .inner
    -- no other brace opens in the text
    have hlt := (List.getElem?_eq_some_iff.1 h.opens).1
    have hopens := h.opens
    have hcases : left' = 2 ∨ left' = 3 ∨ left' = 4 ∨ left' = 5 ∨ left' = 6 ∨ left' = 7 := by
      change left' < 8 at hlt
      omega
    rcases hcases with rfl | rfl | rfl | rfl | rfl | rfl <;> cases hopens

end TextObject

end ModalEdit
