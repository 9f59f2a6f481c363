import Mathlib.Order.Bounds.Basic
import ModalEdit.Proofs.WordScan

/-!
# Word steps lead to word boundaries

A word starts where a character that is not white space follows one of another class, and ends where
one is followed by one of another class. The word steps lead to the nearest start or end in their
direction (`wordSteps_nearest`). Where there is none, the step ahead to a start keeps the end of the
run it is in, or the end of the text on white space; the step ahead to an end fails; and the step
back leads to the start of the text.

All of them pass a run and the white space beside it. Each of these is a stretch of one class that
cannot be made longer (`Text.Stretch`), so inside it no word starts or ends. The step back sees the
same on the text reversed.
-/

namespace ModalEdit.Text

variable {t : Text} {big : Bool} {cls : CharClass} {i j k : Nat}

/-! ## Boundaries -/

/-- At an index there is a character that is not white space, and it is the first one of the text or
follows one of another class. -/
def StartsWord (t : Text) (big : Bool) (j : Nat) : Prop :=
  ∃ cls, t.classAt big j = some cls ∧ cls ≠ .space ∧
    (j = 0 ∨ t.classAt big (j - 1) ≠ some cls)

/-- At an index there is a character that is not white space, and it is the last one of the text or
is followed by one of another class. -/
def EndsWord (t : Text) (big : Bool) (j : Nat) : Prop :=
  ∃ cls, t.classAt big j = some cls ∧ cls ≠ .space ∧
    (j + 1 = t.length ∨ t.classAt big (j + 1) ≠ some cls)

theorem lt_length_of_classAt (h : t.classAt big i = some cls) : i < t.length := by
  obtain ⟨c, hc, -⟩ := Option.map_eq_some_iff.1 h
  exact (List.getElem?_eq_some_iff.1 hc).1

theorem exists_startsWord (h : t.classAt big k = some cls) (hne : cls ≠ .space) :
    ∃ j ≤ k, t.StartsWord big j ∧ ∀ n, j ≤ n → n ≤ k → t.classAt big n = some cls := by
  induction k with
  | zero =>
    refine ⟨0, Nat.le_refl 0, ⟨cls, h, hne, Or.inl rfl⟩, fun n _ hn => ?_⟩
    rwa [Nat.le_zero.1 hn]
  | succ k ih =>
    by_cases hbefore : t.classAt big k = some cls
    · obtain ⟨j, hj, hstarts, hsame⟩ := ih hbefore
      refine ⟨j, Nat.le_succ_of_le hj, hstarts, fun n hjn hn => ?_⟩
      rcases Nat.le_succ_iff.1 hn with hn | rfl
      · exact hsame n hjn hn
      · exact h
    · refine ⟨k + 1, Nat.le_refl _, ⟨cls, h, hne, Or.inr hbefore⟩, fun n hjn hn => ?_⟩
      rwa [Nat.le_antisymm hn hjn]

theorem exists_classAt (big : Bool) (h : i < t.length) : ∃ cls, t.classAt big i = some cls :=
  ⟨_, congrArg (Option.map _) (List.getElem?_eq_getElem h)⟩

/-! ## Stretches -/

/-- The characters from `i` up to `j` are of one class, and there is none of it at `j`. -/
structure Stretch (t : Text) (big : Bool) (cls : CharClass) (i j : Nat) : Prop where
  le : i ≤ j
  same : ∀ k, i ≤ k → k < j → t.classAt big k = some cls
  stop : t.classAt big j ≠ some cls

theorem stretch_takeWhile (t : Text) (big : Bool) (cls : CharClass) (i : Nat) :
    t.Stretch big cls i (i + ((t.drop i).takeWhile (CharClass.of big · == cls)).length) := by
  refine ⟨Nat.le_add_right _ _, fun k hik hk => ?_, fun hstop => ?_⟩
  · obtain ⟨n, rfl⟩ := Nat.exists_eq_add_of_le hik
    have hn := Nat.lt_of_add_lt_add_left hk
    have hget := (List.takeWhile_prefix (CharClass.of big · == cls) (l := t.drop i)).getElem hn
    have hmem := List.all_eq_true.1 (List.all_takeWhile (p := (CharClass.of big · == cls)))
      _ (List.getElem_mem hn)
    rw [hget, List.getElem_drop] at hmem
    have hlt : i + n < t.length := by
      have hle := (List.takeWhile_prefix (CharClass.of big · == cls) (l := t.drop i)).length_le
      rw [List.length_drop] at hle
      omega
    rw [classAt, List.getElem?_eq_getElem hlt, Option.map_some, beq_iff_eq.1 hmem]
  · obtain ⟨d, hd, hcls⟩ := Option.map_eq_some_iff.1 hstop
    rw [← List.getElem?_drop] at hd
    have hother := eq_false_of_getElem?_length_takeWhile hd
    rw [hcls, beq_self_eq_true] at hother
    cases hother

theorem stretch_space (t : Text) (big : Bool) (i : Nat) :
    t.Stretch big .space i (i + spaceLength (t.drop i)) := by
  have hstretch := t.stretch_takeWhile big .space i
  rwa [CharClass.of_beq_space] at hstretch

theorem stretch_run (big : Bool) (hi : i < t.length) :
    ∃ cls, t.classAt big i = some cls ∧ i < i + runLength big (t.drop i) ∧
      t.Stretch big cls i (i + runLength big (t.drop i)) := by
  have hstretch := t.stretch_takeWhile big (CharClass.of big t[i]) i
  rw [List.drop_eq_getElem_cons hi] at hstretch ⊢
  rw [← runLength_cons] at hstretch
  refine ⟨_, congrArg (Option.map _) (List.getElem?_eq_getElem hi), ?_, hstretch⟩
  rw [runLength]
  omega

namespace Stretch

theorem stop_le (h : t.Stretch big cls i j) (hi : i ≤ t.length) : j ≤ t.length := by
  rcases Nat.lt_or_eq_of_le h.le with hlt | rfl
  · have hlast := lt_length_of_classAt (h.same (j - 1) (by omega) (by omega))
    omega
  · exact hi

theorem not_startsWord (h : t.Stretch big cls i j) (hik : i < k) (hkj : k < j) :
    ¬t.StartsWord big k := by
  rintro ⟨cls', hk, -, hfirst | hbefore⟩
  · omega
  · rw [h.same k (by omega) hkj] at hk
    exact hbefore (hk ▸ h.same (k - 1) (by omega) (by omega))

theorem not_endsWord (h : t.Stretch big cls i j) (hik : i ≤ k) (hkj : k + 1 < j) :
    ¬t.EndsWord big k := by
  have hnext := h.same (k + 1) (by omega) hkj
  rintro ⟨cls', hk, -, hlast | hafter⟩
  · have hlt := lt_length_of_classAt hnext
    omega
  · rw [h.same k hik (by omega)] at hk
    exact hafter (hk ▸ hnext)

theorem not_word (h : t.Stretch big .space i j) (hik : i ≤ k) (hkj : k < j) :
    ¬t.StartsWord big k ∧ ¬t.EndsWord big k := by
  have hspace := h.same k hik hkj
  constructor
  · rintro ⟨cls, hk, hne, -⟩
    exact hne (Option.some.inj (hk.symm.trans hspace))
  · rintro ⟨cls, hk, hne, -⟩
    exact hne (Option.some.inj (hk.symm.trans hspace))

end Stretch

/-! ## The steps -/

theorem startsWord_after (hrun : t.Stretch big cls i j) (hij : i < j)
    (hspace : t.Stretch big .space j k) :
    (k < t.length → t.StartsWord big k) ∧ ∀ n, i < n → t.StartsWord big n → k ≤ n := by
  refine ⟨fun hlt => ?_, fun n hin hn => Nat.le_of_not_lt fun hnk => ?_⟩
  · obtain ⟨cls', hcls'⟩ := exists_classAt big hlt
    refine ⟨cls', hcls', fun hsp => hspace.stop (hsp ▸ hcls'), Or.inr fun hbefore => ?_⟩
    rcases Nat.lt_or_eq_of_le hspace.le with hjk | rfl
    · have hsp := hspace.same (k - 1) (by omega) (by omega)
      exact hspace.stop (hcls'.trans (hbefore.symm.trans hsp))
    · have hcls := hrun.same (j - 1) (by omega) (by omega)
      exact hrun.stop (hcls'.trans (hbefore.symm.trans hcls))
  · by_cases hnj : n < j
    · exact hrun.not_startsWord hin hnj hn
    · exact (hspace.not_word (Nat.le_of_not_lt hnj) hnk).1 hn

theorem endsWord_after (hspace : t.Stretch big .space i j) (hcls : t.classAt big j = some cls)
    (hrun : t.Stretch big cls j k) (hjk : j < k) :
    IsLeast {n | i ≤ n ∧ t.EndsWord big n} (k - 1) := by
  have hij := hspace.le
  have hlast := hrun.same (k - 1) (by omega) (by omega)
  refine ⟨⟨by omega, cls, hlast, fun hsp => hspace.stop (hsp ▸ hcls), Or.inr ?_⟩, fun n hn => ?_⟩
  · rw [Nat.sub_add_cancel (by omega)]
    exact hrun.stop
  · refine Nat.le_of_not_lt fun hnk => ?_
    by_cases hnj : n < j
    · exact (hspace.not_word hn.1 hnj).2 hn.2
    · exact hrun.not_endsWord (Nat.le_of_not_lt hnj) (by omega) hn.2

/-- The step to the start of a word passes a run and the white space after it. If the text ends
there it only passes the run. -/
theorem nextWordStart_of_lt (big : Bool) (hi : i < t.length) :
    ∃ cls stop next, t.classAt big i = some cls ∧ i < stop ∧ t.Stretch big cls i stop ∧
      t.Stretch big .space stop next ∧
      t.nextWordStart big i = some (if t.length ≤ next then stop else next) := by
  obtain ⟨cls, hcls, hlt, hrun⟩ := stretch_run big hi
  refine ⟨cls, _, _, hcls, hlt, hrun, t.stretch_space big _, ?_⟩
  rw [nextWordStart, toNextStart_of_lt hi, Option.map_some]
  split <;> simp only [Nat.add_assoc]

/-- **The step ahead to a start.** -/
theorem nextWordStart_spec (big : Bool) (hi : i < t.length) :
    ∃ j, t.nextWordStart big i = some j ∧
      ((∃ k, i < k ∧ t.StartsWord big k) → IsLeast {k | i < k ∧ t.StartsWord big k} j) ∧
      ((∀ k, i < k → ¬t.StartsWord big k) → ∀ cls, t.classAt big i = some cls →
        if cls = .space then j = t.length else t.Stretch big cls i j) := by
  obtain ⟨cls, stop, next, hcls, hlt, hrun, hspace, hstep⟩ := nextWordStart_of_lt big hi
  obtain ⟨hstarts, hleast⟩ := startsWord_after hrun hlt hspace
  have hle := hspace.stop_le (hrun.stop_le (Nat.le_of_lt hi))
  have hstop := hspace.le
  refine ⟨_, hstep, ?_, ?_⟩
  · rintro ⟨k, hik, hk⟩
    obtain ⟨cls', hk', -⟩ := id hk
    have hklt := lt_length_of_classAt hk'
    have hnext := hleast k hik hk
    rw [if_neg (by omega)]
    exact ⟨⟨by omega, hstarts (by omega)⟩, fun n hn => hleast n hn.1 hn.2⟩
  · intro hnone cls' hcls'
    obtain rfl : cls' = cls := Option.some.inj (hcls'.symm.trans hcls)
    have hend : t.length ≤ next :=
      Nat.le_of_not_lt fun hnext => hnone next (by omega) (hstarts hnext)
    rw [if_pos hend]
    split
    · -- no white space follows white space, so the run ends where the text does
      rename_i hsp
      subst hsp
      rcases Nat.lt_or_eq_of_le hstop with hgap | rfl
      · exact absurd (hspace.same stop (Nat.le_refl _) hgap) hrun.stop
      · omega
    · exact hrun

theorem nextWordEnd_eq (t : Text) (big : Bool) (i : Nat) :
    ∃ next, t.Stretch big .space (i + 1) next ∧
      (t.length ≤ next ∧ t.nextWordEnd big i = none ∨
        ∃ cls stop, t.classAt big next = some cls ∧ next < stop ∧ t.Stretch big cls next stop ∧
          t.nextWordEnd big i = some (stop - 1)) := by
  refine ⟨_, t.stretch_space big (i + 1), ?_⟩
  simp only [nextWordEnd, toNextEnd, List.drop_drop, ← Nat.add_assoc]
  generalize spaceLength (t.drop (i + 1)) = space
  by_cases hend : t.length ≤ i + 1 + space
  · refine Or.inl ⟨hend, ?_⟩
    rw [List.drop_eq_nil_of_le hend]
    rfl
  · have hlt : i + 1 + space < t.length := Nat.lt_of_not_le hend
    obtain ⟨cls, hcls, hstop, hrun⟩ := stretch_run big hlt
    have hne : (t.drop (i + 1 + space)).isEmpty = false := by simp; omega
    refine Or.inr ⟨cls, _, hcls, hstop, hrun, ?_⟩
    rw [hne]
    simp only [Bool.false_eq_true, if_false, Option.map_some, Option.some.injEq]
    omega

/-- **The step ahead to an end.** -/
theorem nextWordEnd_spec (t : Text) (big : Bool) (i : Nat) :
    (∀ j, t.nextWordEnd big i = some j ↔ IsLeast {k | i < k ∧ t.EndsWord big k} j) ∧
      (t.nextWordEnd big i = none ↔ ∀ k, i < k → ¬t.EndsWord big k) := by
  obtain ⟨next, hspace, ⟨hend, hstep⟩ | ⟨cls, stop, hcls, hlt, hrun, hstep⟩⟩ :=
    nextWordEnd_eq t big i
  · -- there is only white space after the cursor
    have hnone : ∀ k, i < k → ¬t.EndsWord big k := by
      intro k hik hk
      obtain ⟨cls, hcls, -⟩ := id hk
      have hklt := lt_length_of_classAt hcls
      exact (hspace.not_word hik (by omega)).2 hk
    rw [hstep]
    exact ⟨fun j => ⟨nofun, fun h => absurd h.1.2 (hnone j h.1.1)⟩, fun _ => hnone, fun _ => rfl⟩
  · have hleast := endsWord_after hspace hcls hrun hlt
    rw [hstep]
    refine ⟨fun j => ⟨fun h => ?_, fun h => ?_⟩, nofun, fun hnone => ?_⟩
    · cases h
      exact hleast
    · exact congrArg some (hleast.unique h)
    · exact absurd hleast.1.2 (hnone _ hleast.1.1)

/-! ## The step back -/

theorem classAt_backward (hi : i ≤ t.length) (hk : k < i) :
    (t.backward i).classAt big k = t.classAt big (i - 1 - k) := by
  rw [classAt, getElem?_backward hi hk, classAt]

theorem startsWord_iff_endsWord_backward (hi : i ≤ t.length) (hk : k < i) :
    t.StartsWord big k ↔ (t.backward i).EndsWord big (i - 1 - k) := by
  have hcls : (t.backward i).classAt big (i - 1 - k) = t.classAt big k := by
    rw [classAt_backward hi (by omega), Nat.sub_sub_self (by omega)]
  simp only [StartsWord, EndsWord, hcls, length_backward, Nat.min_eq_left hi]
  rcases Nat.eq_zero_or_pos k with rfl | hpos
  · have hlast : i - 1 - 0 + 1 = i := by omega
    simp only [hlast, true_or]
  · have hbefore : (t.backward i).classAt big (i - 1 - k + 1) = t.classAt big (k - 1) := by
      rw [classAt_backward hi (by omega)]
      congr 1
      omega
    have hfirst : ¬k = 0 := by omega
    have hlast : ¬i - 1 - k + 1 = i := by omega
    rw [hbefore]
    simp only [hfirst, hlast]

/-- **The step back to a start.** -/
theorem prevWordStart_spec (big : Bool) (hpos : 0 < i) (hi : i ≤ t.length) :
    ∃ j, t.prevWordStart big i = some j ∧
      ((∃ k < i, t.StartsWord big k) → IsGreatest {k | k < i ∧ t.StartsWord big k} j) ∧
      ((∀ k < i, t.classAt big k = some .space) → j = 0) := by
  have hlength : (t.backward i).length = i := by rw [length_backward, Nat.min_eq_left hi]
  have hne : (t.backward i).isEmpty = false := by
    rw [List.isEmpty_eq_false_iff, ← List.length_pos_iff, hlength]
    exact hpos
  have hspace := (t.backward i).stretch_space big 0
  rw [List.drop_zero, Nat.zero_add] at hspace
  have hstep : t.prevWordStart big i = some (i - (spaceLength (t.backward i) +
      runLength big ((t.backward i).drop (spaceLength (t.backward i))))) := by
    rw [prevWordStart, toPrevStart, hne, Nat.min_eq_left hi]
    rfl
  generalize spaceLength (t.backward i) = space at hspace hstep
  refine ⟨_, hstep, ?_, ?_⟩
  · rintro ⟨n, hn, hstarts⟩
    -- the word that starts before the cursor ends the white space
    have hlt : space < (t.backward i).length := by
      refine Nat.lt_of_not_le fun hle => ?_
      exact (hspace.not_word (Nat.zero_le _) (by omega)).2
        ((startsWord_iff_endsWord_backward hi hn).1 hstarts)
    obtain ⟨cls, hcls, hrun, hstretch⟩ := stretch_run big hlt
    have hle := hstretch.stop_le (Nat.le_of_lt hlt)
    obtain ⟨⟨-, hends⟩, hleast⟩ := endsWord_after hspace hcls hstretch hrun
    generalize space + runLength big ((t.backward i).drop space) = stop at hrun hle hends hleast
    rw [hlength] at hle
    refine ⟨⟨by omega, (startsWord_iff_endsWord_backward hi (by omega)).2 ?_⟩, fun k hk => ?_⟩
    · rwa [show i - 1 - (i - stop) = stop - 1 by omega]
    · have hmirror := hleast
        ⟨Nat.zero_le _, (startsWord_iff_endsWord_backward hi hk.1).1 hk.2⟩
      have hki := hk.1
      omega
  · intro hall
    have hend : i ≤ space := by
      refine Nat.le_of_not_lt fun hlt => hspace.stop ?_
      rw [classAt_backward hi hlt]
      exact hall _ (by omega)
    omega

/-- **Word steps lead to the nearest word boundaries.** Ahead to a start: the least one after the
cursor; where there is none, the end of the text from white space and the end of the run otherwise.
Ahead to an end: the least one after the cursor, and nothing where there is none. Back to a start:
the greatest one before the cursor, and the start of the text when only white space comes before. -/
theorem wordSteps_nearest (t : Text) (big : Bool) :
    (∀ i < t.length, ∃ j, t.nextWordStart big i = some j ∧
      ((∃ k, i < k ∧ t.StartsWord big k) → IsLeast {k | i < k ∧ t.StartsWord big k} j) ∧
      ((∀ k, i < k → ¬t.StartsWord big k) → ∀ cls, t.classAt big i = some cls →
        if cls = .space then j = t.length else t.Stretch big cls i j)) ∧
    (∀ i, (∀ j, t.nextWordEnd big i = some j ↔ IsLeast {k | i < k ∧ t.EndsWord big k} j) ∧
      (t.nextWordEnd big i = none ↔ ∀ k, i < k → ¬t.EndsWord big k)) ∧
    ∀ i, 0 < i → i ≤ t.length → ∃ j, t.prevWordStart big i = some j ∧
      ((∃ k < i, t.StartsWord big k) → IsGreatest {k | k < i ∧ t.StartsWord big k} j) ∧
      ((∀ k < i, t.classAt big k = some .space) → j = 0) :=
  ⟨fun _ hi => nextWordStart_spec big hi, fun i => nextWordEnd_spec t big i,
    fun _ hpos hi => prevWordStart_spec big hpos hi⟩

/-- In `"a b "` the step from the `a` leads to the `b`, as the step back from behind the `b` does.
The step from the `b` keeps the end of its run, although white space follows. -/
theorem wordSteps_nearest_two_words :
    let t : Text := ['a', ' ', 'b', ' ']
    (∃ j, t.nextWordStart false 0 = some j ∧ IsLeast {k | 0 < k ∧ t.StartsWord false k} j) ∧
    (∃ j, t.nextWordStart false 2 = some j ∧ t.Stretch false .text 2 j) ∧
    ∃ j, t.prevWordStart false 3 = some j ∧ IsGreatest {k | k < 3 ∧ t.StartsWord false k} j := by
  intro t
  obtain ⟨hnext, -, hprev⟩ := wordSteps_nearest t false
  have hstarts : t.StartsWord false 2 := ⟨.text, by decide, by decide, Or.inr (by decide)⟩
  have hlast : ∀ k, 2 < k → ¬t.StartsWord false k := by
    rintro k hk ⟨cls, hcls, hne, -⟩
    have hlt : k < 4 := lt_length_of_classAt hcls
    obtain rfl : k = 3 := by omega
    exact hne (Option.some.inj (hcls.symm.trans (by decide)))
  obtain ⟨j, hj, hleast, -⟩ := hnext 0 (by decide)
  obtain ⟨n, hn, -, hrun⟩ := hnext 2 (by decide)
  obtain ⟨m, hm, hgreatest, -⟩ := hprev 3 (by decide) (by decide)
  exact ⟨⟨j, hj, hleast ⟨2, by decide, hstarts⟩⟩, ⟨n, hn, hrun hlast .text (by decide)⟩,
    m, hm, hgreatest ⟨2, by decide, hstarts⟩⟩

end ModalEdit.Text
