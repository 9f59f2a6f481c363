import ModalEdit.Proofs.AroundWords
import ModalEdit.Proofs.CheckedMotion
import ModalEdit.Proofs.MotionRange
import ModalEdit.Proofs.QuoteObjects
import ModalEdit.TextObject.Checked
import Mathlib.Data.List.Sort

/-!
# Words and text objects stay within machine indices

Every search for a run, a word step or a text object can be made from any index below the largest
one, also far past the end of the text, and its computation on machine indices succeeds, with one
exception: the step back to the start of a word looks at the character before the index, pulled back
to the end of the text, and the empty text has none (`words_and_objects_checked`). What the searches
answer lies in the text.

An index past the end is on the last line and holds no character. So a sweep that comes from there
only passes over indices without a character until it is back in the text
(`unmatchedAmong_skip`), and a sweep towards the end finds nothing.
-/

namespace ModalEdit

variable {t : Text} {big : Bool} {quote opening close : Char} {i j l left right : Nat}

namespace Text

@[simp] theorem existingLine_eq_ok (h : l ≤ t.lastLine) : t.existingLine l = .ok l :=
  if_pos h

@[simp] theorem existingLine_lineOf (t : Text) (i : Nat) :
    t.existingLine (t.lineOf i) = .ok (t.lineOf i) :=
  existingLine_eq_ok (t.lineOf_le_lastLine i)

/-! ## Words -/

/-- **The run of a line scanned to both sides is the run.** -/
theorem scanRunInLine_eq_ok (ht : t.length < Index.bound) (big : Bool) (i : Nat) :
    t.scanRunInLine big i = .ok (t.runInLine big i) := by
  have hend : t.lineEnd (t.lineOf i) < Index.bound :=
    Nat.lt_of_le_of_lt (t.lineEnd_le_length _) ht
  rw [scanRunInLine, existingLine_lineOf, Index.ok_bind, lineEndChecked_eq_ok ht, Index.ok_bind,
    scanRun_eq_ok t big _ i hend]
  rfl

theorem runInLine_stop {run : Run} (hl : l ≤ t.lastLine) (h : run ∈ t.lineRuns big l) :
    t.slice run.stop (t.lineEnd l) = [] ∧ t.runInLine big run.stop = none ∨
      ∃ c cs, t.slice run.stop (t.lineEnd l) = c :: cs ∧
        t.runInLine big run.stop =
          some ⟨run.stop, run.stop + runLength big (c :: cs), CharClass.of big c⟩ := by
  have hrun := mem_lineRuns.1 h
  have hend := t.lineEnd_le_length l
  have hlo := hrun.lo_le
  have hlt := hrun.lt
  have hline : t.lineOf run.stop = l := (lineOf_eq_iff hl (Nat.le_trans hrun.le_hi hend)).2
    ⟨by omega, hrun.le_hi⟩
  rcases Nat.eq_or_lt_of_le hrun.le_hi with hstop | hstop
  · refine Or.inl ⟨List.drop_eq_nil_of_le (by rw [List.length_take]; omega), ?_⟩
    rw [runInLine, hline]
    exact if_neg fun hwithin => Nat.lt_irrefl _ (hstop ▸ hwithin.2)
  · obtain ⟨next, hnext, hstart, heq⟩ := t.runsBetween_eq_cons big hstop hend
    right
    cases hrest : t.slice run.stop (t.lineEnd l) with
    | nil =>
      rw [runsBetween, hrest] at heq
      cases heq
    | cons c cs =>
      refine ⟨c, cs, rfl, ?_⟩
      rw [runsBetween, hrest, runsFrom_cons] at heq
      have hmem : next ∈ t.lineRuns big (t.lineOf run.stop) := by
        rw [hline, mem_lineRuns]
        exact hrun.widen hnext
      rw [(List.cons.inj heq).1]
      exact runInLine_eq_some_iff.2 ⟨hmem, hstart ▸ hnext.holds_start⟩

/-- **Runs scanned one after the other are the runs ahead.** -/
theorem scanRunsAhead_eq_ok (ht : t.length < Index.bound) (hl : l ≤ t.lastLine) (n : Nat) {run : Run}
    (h : run ∈ t.lineRuns big l) :
    t.scanRunsAhead big n run = .ok (run.ahead big n (t.slice run.stop (t.lineEnd l))) := by
  induction n generalizing run with
  | zero => rfl
  | succ n ih =>
    rw [scanRunsAhead, scanRunInLine_eq_ok ht, Index.ok_bind]
    rcases runInLine_stop hl h with ⟨hrest, hnone⟩ | ⟨c, cs, hrest, hnext⟩
    · rw [hrest, hnone]
      rfl
    · have hmem := (runInLine_eq_some_iff.1 hnext).1
      have hend := (mem_lineRuns.1 h).le_hi
      have hlo := (mem_lineRuns.1 h).lo_le
      have hlt := (mem_lineRuns.1 h).lt
      have hline : t.lineOf run.stop = l :=
        (lineOf_eq_iff hl (Nat.le_trans hend (t.lineEnd_le_length l))).2 ⟨by omega, hend⟩
      rw [hline] at hmem
      -- the characters behind the next run
      have hdrop : t.slice (run.stop + runLength big (c :: cs)) (t.lineEnd l) =
          cs.drop (runLength big (c :: cs) - 1) := by
        have hpos : runLength big (c :: cs) = runLength big (c :: cs) - 1 + 1 := by
          rw [runLength]
          rfl
        rw [slice, ← List.drop_drop, ← slice, hrest, hpos, List.drop_succ_cons]
        rfl
      rw [hrest, hnext, Run.ahead]
      dsimp only
      rw [ih hmem, hdrop]

theorem spaceBeforeChecked_eq_ok (ht : t.length < Index.bound) (big : Bool) (i : Nat) :
    t.spaceBeforeChecked big i = .ok (t.spaceBefore big i) := by
  rw [spaceBeforeChecked, existingLine_lineOf, Index.ok_bind, spaceBefore]
  split
  · rw [Index.sub_eq_ok (by omega), Index.ok_bind, scanRunInLine_eq_ok ht, Index.ok_bind]
    cases t.runInLine big (i - 1) with
    | none => rfl
    | some run => rfl
  · rfl

/-- **A word object scanned run by run is the object.** -/
theorem wordObjectChecked_eq_ok (ht : t.length < Index.bound) (big : Bool) (scope : Scope)
    (count i : Nat) :
    t.wordObjectChecked big scope count i = .ok (t.wordObject big scope count i) := by
  rw [wordObjectChecked, scanRunInLine_eq_ok ht, Index.ok_bind, wordObject]
  cases hfirst : t.runInLine big i with
  | none => rfl
  | some first =>
    have hmem := (runInLine_eq_some_iff.1 hfirst).1
    have hahead (n : Nat) := scanRunsAhead_eq_ok ht (t.lineOf_le_lastLine i) n hmem
    cases scope with
    | inner =>
      dsimp only
      rw [hahead, Index.ok_bind]
      rfl
    | around =>
      dsimp only
      rw [hahead, Index.ok_bind, spaceBeforeChecked_eq_ok ht]
      dsimp only [Option.map_some]
      split
      · rfl
      · rfl

/-! ## Quotes -/

/-- There is a quote at an index, with no backslash directly before it. -/
def quoteAt (t : Text) (quote : Char) (i : Nat) : Bool :=
  t[i]? = some quote ∧ (i = 0 ∨ t[i - 1]? ≠ some '\\')

theorem quoteAtChecked_eq (t : Text) (quote : Char) :
    t.quoteAtChecked quote = fun i => .ok (t.quoteAt quote i) := by
  funext i
  unfold quoteAtChecked quoteAt
  by_cases hquote : t[i]? = some quote
  · rw [if_neg (not_not_intro hquote)]
    by_cases hi : i = 0
    · rw [if_pos hi, decide_eq_true ⟨hquote, Or.inl hi⟩]
      rfl
    · rw [if_neg hi, Index.sub_eq_ok (by omega)]
      simp [hquote, hi]
  · simp [hquote]

theorem isQuote_iff_quoteAt :
    t.IsQuote quote l i ↔ (t.lineStart l ≤ i ∧ i < t.lineEnd l) ∧ t.quoteAt quote i = true := by
  rw [quoteAt, decide_eq_true_eq]
  exact ⟨fun ⟨h₁, h₂, h₃, h₄⟩ => ⟨⟨h₁, h₂⟩, h₃, h₄⟩, fun ⟨⟨h₁, h₂⟩, h₃, h₄⟩ => ⟨h₁, h₂, h₃, h₄⟩⟩

theorem lt_length_of_quoteAt (h : t.quoteAt quote i = true) : i < t.length := by
  rw [quoteAt, decide_eq_true_eq] at h
  exact (List.getElem?_eq_some_iff.1 h.1).1

end Text

theorem mem_indices {start stop : Nat} : i ∈ indices start stop ↔ start ≤ i ∧ i < stop := by
  rw [indices, List.mem_range'_1]
  omega

theorem pairwise_indices (start stop : Nat) : (indices start stop).Pairwise (· < ·) :=
  List.pairwise_lt_range'

theorem filterM_ok (p : Nat → Bool) (is : List Nat) :
    is.filterM (fun i => (.ok (p i) : Except Index.Fault Bool)) = .ok (is.filter p) := by
  have haux (picked : List Nat) :
      List.filterAuxM (fun i => (.ok (p i) : Except Index.Fault Bool)) is picked =
        .ok ((is.filter p).reverse ++ picked) := by
    induction is generalizing picked with
    | nil => rfl
    | cons i is ih =>
      rw [List.filterAuxM, Index.ok_bind, ih]
      cases hp : p i <;> simp [hp]
  rw [List.filterM, haux, Index.ok_bind, List.append_nil, List.reverse_reverse]
  rfl

theorem findM?_ok (p : Nat → Bool) (is : List Nat) :
    is.findM? (fun i => (.ok (p i) : Except Index.Fault Bool)) = .ok (is.find? p) :=
  List.findM?_pure p is

namespace Text

/-- An index in the text lies between the bounds of its line; one past the end is past its line. -/
theorem filter_quotes_before (t : Text) (quote : Char) (i : Nat) :
    (indices (t.lineStart (t.lineOf i)) i).filter (t.quoteAt quote) =
      (t.quotesOfLine quote (t.lineOf i)).filter (· < i) := by
  refine List.Pairwise.eq_of_mem_iff ((pairwise_indices _ _).filter _)
    ((t.pairwise_quotesOfLine quote _).filter _) fun j => ?_
  simp only [List.mem_filter, mem_indices, mem_quotesOfLine, isQuote_iff_quoteAt,
    decide_eq_true_eq]
  have hend : j < i → t.quoteAt quote j = true → j < t.lineEnd (t.lineOf i) := by
    intro hlt hquote
    have hlength := lt_length_of_quoteAt hquote
    have hline := le_lineEnd_lineOf (t := t) (Nat.min_le_right i t.length)
    rw [lineOf_min_length] at hline
    omega
  constructor
  · rintro ⟨⟨hlo, hlt⟩, hquote⟩
    exact ⟨⟨⟨hlo, hend hlt hquote⟩, hquote⟩, hlt⟩
  · rintro ⟨⟨⟨hlo, -⟩, hquote⟩, hlt⟩
    exact ⟨⟨hlo, hlt⟩, hquote⟩

theorem filter_quotes_after (t : Text) (quote : Char) (i : Nat) :
    (indices (i + 1) (t.lineEnd (t.lineOf i))).filter (t.quoteAt quote) =
      (t.quotesOfLine quote (t.lineOf i)).filter (i < ·) := by
  refine List.Pairwise.eq_of_mem_iff ((pairwise_indices _ _).filter _)
    ((t.pairwise_quotesOfLine quote _).filter _) fun j => ?_
  simp only [List.mem_filter, mem_indices, mem_quotesOfLine, isQuote_iff_quoteAt,
    decide_eq_true_eq]
  have hend := t.lineEnd_le_length (t.lineOf i)
  have hstart : i ≤ t.length → t.lineStart (t.lineOf i) ≤ i := t.lineStart_lineOf_le i
  constructor
  · rintro ⟨⟨hlt, hhi⟩, hquote⟩
    have hlo := hstart (by omega)
    exact ⟨⟨⟨by omega, hhi⟩, hquote⟩, hlt⟩
  · rintro ⟨⟨⟨-, hhi⟩, hquote⟩, hlt⟩
    exact ⟨⟨hlt, hhi⟩, hquote⟩

theorem mem_quotesOfLine_lineOf (hne : quote ≠ '\n') :
    i ∈ t.quotesOfLine quote (t.lineOf i) ↔ t.quoteAt quote i = true := by
  rw [mem_quotesOfLine, isQuote_iff_quoteAt, and_iff_right_iff_imp]
  intro hquote
  have hlength := lt_length_of_quoteAt hquote
  rw [quoteAt, decide_eq_true_eq] at hquote
  exact ⟨t.lineStart_lineOf_le i (Nat.le_of_lt hlength), lt_lineEnd_lineOf_iff.2 ⟨_, hquote.1, hne⟩⟩

theorem quotesOfLine_lineBreak (t : Text) (l : Nat) : t.quotesOfLine '\n' l = [] := by
  rw [List.eq_nil_iff_forall_not_mem]
  intro j hj
  have hquote := mem_quotesOfLine.1 hj
  have hline := hquote.lineOf_eq hquote (Nat.le_refl j) (Nat.le_refl j)
  have hend := hquote.lt_end
  rw [← hline] at hend
  obtain ⟨c, hc, hne⟩ := lt_lineEnd_lineOf_iff.1 hend
  exact hne (Option.some.inj (hc.symm.trans hquote.quote))

/-- **A pair of quotes sought index by index is the pair.** -/
theorem quotePairChecked_eq_ok (ht : t.length < Index.bound) (quote : Char)
    (hi : i + 1 < Index.bound) :
    t.quotePairChecked quote i = .ok (t.quotePair quote i) := by
  simp only [quotePairChecked, existingLine_lineOf, lineEndChecked_eq_ok ht, Index.ok_bind,
    quoteAtChecked_eq, filterM_ok, findM?_ok, Index.add_eq_ok hi, Index.pure_eq_ok,
    ← List.head?_filter, filter_quotes_after, List.filter_reverse, filter_quotes_before,
    List.head?_reverse, quotePair]
  by_cases hne : quote = '\n'
  · subst hne
    simp [quotesOfLine_lineBreak]
  · have hmem : (t.quotesOfLine quote (t.lineOf i)).contains i = t.quoteAt quote i := by
      rw [Bool.eq_iff_iff, List.contains_iff_mem, mem_quotesOfLine_lineOf hne]
    rw [hmem]
    split
    · split <;> rfl
    · cases ((t.quotesOfLine quote (t.lineOf i)).filter (· < i)).getLast? with
      | none => rfl
      | some left => cases ((t.quotesOfLine quote (t.lineOf i)).filter (i < ·)).head? <;> rfl

/-! ## Brackets -/

theorem unmatchedAmong_skip {is : List Nat} (h : ∀ j ∈ is, t.length ≤ j) (depth : Nat)
    (js : List Nat) :
    t.unmatchedAmong opening close depth (is ++ js) = t.unmatchedAmong opening close depth js := by
  induction is with
  | nil => rfl
  | cons j is ih =>
    have hnone : t[j]? = none := List.getElem?_eq_none_iff.2 (h j List.mem_cons_self)
    rw [List.cons_append, unmatchedAmong, hnone]
    exact ih fun k hk => h k (List.mem_cons_of_mem _ hk)

theorem unmatchedOpen_min_length (t : Text) (i : Nat) :
    t.unmatchedOpen (min i t.length) opening close = t.unmatchedOpen i opening close := by
  rw [unmatchedOpen, unmatchedOpen, backward_min, Nat.min_assoc, Nat.min_self]

/-- An opening bracket sought back from any index, also past the end. -/
theorem unmatchedAmong_back (ht : t.length < Index.bound) (opening close : Char) (i : Nat) :
    t.unmatchedAmong close opening 0 (indices 0 i).reverse =
      .ok (t.unmatchedOpen i opening close) := by
  rcases Nat.le_total i t.length with hi | hi
  · exact unmatchedAmong_before ht opening close hi
  · have hsplit : indices 0 i = indices 0 t.length ++ indices t.length i := by
      have happend := List.range'_append_1 (s := 0) (m := t.length) (n := i - t.length)
      rw [Nat.zero_add, Nat.add_sub_cancel' hi] at happend
      exact happend.symm
    have hpast : ∀ j ∈ (indices t.length i).reverse, t.length ≤ j := fun j hj =>
      (mem_indices.1 (List.mem_reverse.1 hj)).1
    rw [hsplit, List.reverse_append, unmatchedAmong_skip hpast,
      unmatchedAmong_before ht opening close (Nat.le_refl _), ← unmatchedOpen_min_length t i,
      Nat.min_eq_right hi]

end Text

theorem le_of_unmatchedAfter {k depth : Nat} {cs : List Char}
    (h : unmatchedAfter opening close k depth cs = some i) : k ≤ i := by
  induction cs generalizing k depth with
  | nil => cases h
  | cons c cs ih =>
    rw [unmatchedAfter.eq_def] at h
    dsimp only at h
    split at h
    · exact Nat.le_of_succ_le (ih h)
    · split at h
      · cases depth with
        | zero =>
          cases h
          exact Nat.le_refl i
        | succ depth => exact Nat.le_of_succ_le (ih h)
      · exact Nat.le_of_succ_le (ih h)

namespace Text

theorem unmatchedClose_bounds (h : t.unmatchedClose i opening close = some right) :
    i ≤ right ∧ right < t.length := by
  have hle := le_of_unmatchedAfter h
  have hlt := unmatchedAfter_lt h
  rw [List.length_drop] at hlt
  omega

theorem unmatchedOpen_bounds (h : t.unmatchedOpen i opening close = some left) :
    left < i ∧ left < t.length := by
  obtain ⟨k, hk, rfl⟩ := Option.map_eq_some_iff.1 h
  have hlt := unmatchedAfter_lt hk
  rw [length_backward] at hlt
  omega

/-- The two brackets of a pair stand in the text, the opening one first. -/
theorem bracketPairAt_bounds (h : t.bracketPairAt opening close i = some (left, right)) :
    left < right ∧ right < t.length := by
  unfold bracketPairAt at h
  split at h
  · obtain ⟨j, hj, heq⟩ := Option.map_eq_some_iff.1 h
    cases heq
    have hbounds := unmatchedClose_bounds hj
    omega
  · split at h
    · rename_i hclose
      obtain ⟨j, hj, heq⟩ := Option.map_eq_some_iff.1 h
      cases heq
      exact ⟨(unmatchedOpen_bounds hj).1, (List.getElem?_eq_some_iff.1 hclose).1⟩
    · obtain ⟨j, -, h⟩ := Option.bind_eq_some_iff.1 h
      obtain ⟨k, hk, heq⟩ := Option.bind_eq_some_iff.1 h
      cases heq
      have hbounds := unmatchedClose_bounds hk
      omega

/-- **A pair of brackets sought index by index is the pair.** -/
theorem bracketPairAtChecked_eq_ok (ht : t.length < Index.bound) (opening close : Char) (i : Nat) :
    t.bracketPairAtChecked opening close i = .ok (t.bracketPairAt opening close i) := by
  unfold bracketPairAtChecked bracketPairAt
  split
  · rename_i hopen
    have hlt := (List.getElem?_eq_some_iff.1 hopen).1
    rw [Index.add_eq_ok (by omega), Index.ok_bind, unmatchedAmong_after ht]
    rfl
  · split
    · rw [unmatchedAmong_back ht]
      rfl
    · rw [unmatchedAmong_back ht, Index.ok_bind]
      cases hleft : t.unmatchedOpen i opening close with
      | none => rfl
      | some left =>
        have hbounds := unmatchedOpen_bounds hleft
        dsimp only
        rw [Index.add_eq_ok (by omega), Index.ok_bind, unmatchedAmong_after ht]
        cases hright : t.unmatchedClose (left + 1) opening close <;> simp [hright]

theorem lineOf_le (t : Text) (i : Nat) : t.lineOf i ≤ i :=
  Nat.le_trans List.count_le_length (List.length_take_le i t)

theorem linesBetweenChecked_eq_ok (ht : t.length < Index.bound) (hleft : left < t.length) :
    t.linesBetweenChecked left right = .ok (t.linesBetween left right) := by
  have hline := t.lineOf_le left
  have hlast := t.lineOf_le_lastLine right
  unfold linesBetweenChecked linesBetween
  rw [Index.add_eq_ok (by omega), Index.ok_bind, Index.add_eq_ok (by omega)]
  simp only [existingLine_lineOf, Index.ok_bind, firstNonBlankChecked_eq_ok ht]
  by_cases hends : t[left + 1]? = some '\n'
  · by_cases hlater : t.lineOf left + 1 < t.lineOf right
    · by_cases hstarts : t.firstNonBlank (t.lineOf right) = right
      · have hfirst : t.existingLine (t.lineOf left + 1) = .ok (t.lineOf left + 1) :=
          existingLine_eq_ok (by omega)
        have hfinal : t.existingLine (t.lineOf right - 1) = .ok (t.lineOf right - 1) :=
          existingLine_eq_ok (by omega)
        rw [if_neg (not_not_intro hends), if_neg (by omega), if_neg (not_not_intro hstarts),
          Index.sub_eq_ok (by omega), Index.ok_bind, hfinal, Index.ok_bind, hfirst, Index.ok_bind,
          if_pos ⟨hends, hlater, hstarts⟩]
        rfl
      · simp [hends, hstarts]
    · rw [if_neg (not_not_intro hends), if_pos (by omega), if_neg fun h => hlater h.2.1]
      rfl
  · simp [hends]

end Text

/-! ## Objects -/

theorem Scope.betweenChecked_eq_ok (scope : Scope) (hleft : left + 1 < Index.bound)
    (hright : right + 1 < Index.bound) :
    scope.betweenChecked left right = .ok (scope.between left right) := by
  cases scope with
  | inner =>
    rw [betweenChecked, Index.add_eq_ok hleft]
    rfl
  | around =>
    rw [betweenChecked, Index.add_eq_ok hright]
    rfl

namespace TextObject

/-- **An object computed on machine indices is the object**, from any index below the largest. -/
theorem rangeChecked_eq_ok (o : TextObject) (ht : t.length < Index.bound) (scope : Scope)
    (count : Nat) (hi : i + 1 < Index.bound) :
    o.rangeChecked t scope count i = .ok (o.range t scope count i) := by
  cases o with
  | word big => exact Text.wordObjectChecked_eq_ok ht big scope _ i
  | quote q =>
    rw [rangeChecked, range, Text.quotePairChecked_eq_ok ht q hi, Index.ok_bind]
    cases hpair : t.quotePair q i with
    | none => rfl
    | some pair =>
      obtain ⟨left, right⟩ := pair
      obtain ⟨hleft, hright, -⟩ := (Text.quotePair_eq_some_iff.1 hpair).neighbours
      have hlt := hleft.lt_end
      have hlt' := hright.lt_end
      have hend := t.lineEnd_le_length (t.lineOf i)
      dsimp only
      rw [Scope.betweenChecked_eq_ok scope (by omega) (by omega)]
      rfl
  | bracket opening close =>
    rw [rangeChecked, range, Text.bracketPairAtChecked_eq_ok ht, Index.ok_bind]
    cases hpair : t.bracketPairAt opening close i with
    | none => rfl
    | some pair =>
      obtain ⟨left, right⟩ := pair
      obtain ⟨hlt, hlength⟩ := Text.bracketPairAt_bounds hpair
      have hbetween : scope.betweenChecked left right = .ok (scope.between left right) :=
        Scope.betweenChecked_eq_ok scope (by omega) (by omega)
      cases scope with
      | around =>
        dsimp only
        rw [hbetween]
        rfl
      | inner =>
        dsimp only
        rw [Text.linesBetweenChecked_eq_ok ht (by omega), Index.ok_bind, hbetween]
        cases hlines : t.linesBetween left right <;> simp [hlines]

end TextObject

/-! ## What the searches answer -/

namespace Text

theorem runAt_bounds {run : Run} (h : t.runAt big i = some run) :
    run.start < run.stop ∧ run.stop ≤ t.length := by
  have hbounds := runWithin_bounds h
  omega

theorem runInLine_bounds {run : Run} (h : t.runInLine big i = some run) :
    run.start < run.stop ∧ run.stop ≤ t.length := by
  have hbounds := runWithin_bounds h
  omega

theorem nextWordStart_le (h : t.nextWordStart big i = some j) : j ≤ t.length := by
  obtain ⟨k, hk, rfl⟩ := Option.map_eq_some_iff.1 h
  have hpos := toNextStart_pos hk
  have hle := toNextStart_le hk
  rw [List.length_drop] at hle
  omega

theorem nextWordEnd_lt (h : t.nextWordEnd big i = some j) : j < t.length := by
  obtain ⟨k, hk, rfl⟩ := Option.map_eq_some_iff.1 h
  have hlt := toNextEnd_lt hk
  rw [List.length_drop] at hlt
  omega

theorem prevWordStart_le (h : t.prevWordStart big i = some j) : j ≤ t.length := by
  obtain ⟨k, -, rfl⟩ := Option.map_eq_some_iff.1 h
  omega

theorem spaceBefore_le (t : Text) (big : Bool) (i : Nat) : t.spaceBefore big i ≤ i := by
  unfold spaceBefore
  split
  · cases hrun : t.runInLine big (i - 1) with
    | none => exact Nat.le_refl i
    | some run =>
      have hbounds := runWithin_bounds hrun
      dsimp only
      split <;> omega
  · exact Nat.le_refl i

theorem stop_le_ahead {run : Run} (h : run ∈ t.lineRuns big l) (n : Nat) :
    run.stop ≤ (run.ahead big n (t.slice run.stop (t.lineEnd l))).stop ∧
      (run.ahead big n (t.slice run.stop (t.lineEnd l))).stop ≤ t.lineEnd l := by
  have hrun := mem_lineRuns.1 h
  have hlast := List.mem_of_getLast? (getLast?_take_runs big n run (t.slice run.stop (t.lineEnd l)))
  rcases List.mem_cons.1 (List.mem_of_mem_take hlast) with heq | hmem
  · rw [heq]
    exact ⟨Nat.le_refl _, hrun.le_hi⟩
  · have hlater := (mem_runsBetween hrun.le_hi (t.lineEnd_le_length l)).1 hmem
    exact ⟨Nat.le_trans hlater.lo_le (Nat.le_of_lt hlater.lt), hlater.le_hi⟩

theorem wordObject_bounds {scope : Scope} {count : Nat} {r : Range}
    (h : t.wordObject big scope count i = some r) : r.start ≤ r.stop ∧ r.stop ≤ t.length := by
  obtain ⟨first, hfirst, rfl⟩ := Option.map_eq_some_iff.1 h
  have hmem := (runInLine_eq_some_iff.1 hfirst).1
  have hlt := (mem_lineRuns.1 hmem).lt
  have hahead := stop_le_ahead hmem
  have hend := t.lineEnd_le_length (t.lineOf i)
  cases scope with
  | inner =>
    have hbounds := hahead (count - 1)
    simp only [Range.exclusive]
    omega
  | around =>
    have hbounds := hahead (Count.times count 2 - 1)
    have hspace := t.spaceBefore_le big first.start
    simp only [Range.exclusive]
    split <;> omega

theorem linesBetween_bounds {r : Range} (h : t.linesBetween left right = some r) :
    r.start ≤ r.stop ∧ r.stop ≤ t.length := by
  have hlast := t.lineOf_le_lastLine right
  simp only [linesBetween, Option.ite_none_right_eq_some, Option.some.injEq] at h
  obtain ⟨⟨-, hlater, -⟩, rfl⟩ := h
  exact ⟨lineStart_mono (by omega) (by omega), t.lineStart_le_length _⟩

end Text

theorem Scope.between_bounds (scope : Scope) (hlt : left < right) (hright : right < t.length) :
    (scope.between left right).start ≤ (scope.between left right).stop ∧
      (scope.between left right).stop ≤ t.length := by
  cases scope with
  | inner => exact ⟨hlt, Nat.le_of_lt hright⟩
  | around => exact ⟨Nat.le_succ_of_le (Nat.le_of_lt hlt), hright⟩

/-- **A text object lies in the text, its ends in order.** -/
theorem TextObject.range_bounds {o : TextObject} {scope : Scope} {count : Nat} {r : Range}
    (h : o.range t scope count i = some r) : r.start ≤ r.stop ∧ r.stop ≤ t.length := by
  cases o with
  | word big => exact Text.wordObject_bounds h
  | quote q =>
    obtain ⟨⟨left, right⟩, hpair, rfl⟩ := Option.map_eq_some_iff.1 h
    obtain ⟨-, hright, hlt, -⟩ := (Text.quotePair_eq_some_iff.1 hpair).neighbours
    exact scope.between_bounds hlt
      (Nat.lt_of_lt_of_le hright.lt_end (t.lineEnd_le_length _))
  | bracket opening close =>
    obtain ⟨⟨left, right⟩, hpair, rfl⟩ := Option.map_eq_some_iff.1 h
    obtain ⟨hlt, hright⟩ := Text.bracketPairAt_bounds hpair
    cases scope with
    | around => exact Scope.around.between_bounds hlt hright
    | inner =>
      dsimp only
      cases hlines : t.linesBetween left right with
      | none =>
        rw [Option.getD_none]
        exact Scope.inner.between_bounds hlt hright
      | some lines =>
        rw [Option.getD_some]
        exact Text.linesBetween_bounds hlines

/-! ## Totality -/

namespace Text

/-- The step back to the start of a word looks at a character even in the empty text. -/
theorem scanPrevStart_nil (big : Bool) (hi : 0 < i) :
    scanPrevStart [] big i = .error .underflow := by
  rw [scanPrevStart, if_neg (Nat.pos_iff_ne_zero.1 hi), List.length_nil, Nat.min_zero]
  rfl

/-- **Words and text objects can be sought from any index** below the largest one, in any text that
machine indices can count. Every computation on machine indices succeeds and gives what the search
stands for, but for one: the step back to the start of a word subtracts one from the length of the
empty text, exactly if it is asked for an index past the start there. The two steps that compute
with a neighbouring index leave the range where their scans do. Every index in an answer is at most
the length of the text, and a run or an object starts no later than it stops. -/
theorem words_and_objects_checked (ht : t.length < Index.bound) (hi : i + 1 < Index.bound)
    (big : Bool) :
    t.scanRun big 0 t.length i = .ok (t.runAt big i) ∧
      t.scanRunInLine big i = .ok (t.runInLine big i) ∧
      t.scanNextStart big i = .ok (t.nextWordStart big i) ∧
      t.scanNextEnd big i = .ok (t.nextWordEnd big i) ∧
      t.nextWordEndChecked big i = t.scanNextEnd big i ∧
      (t.scanPrevStart big i =
        if t = [] ∧ 0 < i then .error .underflow else .ok (t.prevWordStart big i)) ∧
      t.prevWordStartChecked big i = t.scanPrevStart big i ∧
      (∀ (o : TextObject) scope count,
        o.rangeChecked t scope count i = .ok (o.range t scope count i)) ∧
      (∀ run, t.runAt big i = some run ∨ t.runInLine big i = some run →
        run.start ≤ run.stop ∧ run.stop ≤ t.length) ∧
      (∀ j, t.nextWordStart big i = some j ∨ t.nextWordEnd big i = some j ∨
        t.prevWordStart big i = some j → j ≤ t.length) ∧
      ∀ (o : TextObject) scope count r, o.range t scope count i = some r →
        r.start ≤ r.stop ∧ r.stop ≤ t.length := by
  refine ⟨scanRun_eq_ok t big 0 i ht, scanRunInLine_eq_ok ht big i, scanNextStart_eq_ok ht big i,
    scanNextEnd_eq_ok ht big hi, nextWordEndChecked_eq ht big i, ?_,
    prevWordStartChecked_eq ht big i, fun o scope count => o.rangeChecked_eq_ok ht scope count hi,
    fun run hrun => ?_, fun j hj => ?_, fun _ _ _ _ => TextObject.range_bounds⟩
  · split
    · rename_i hempty
      rw [hempty.1, scanPrevStart_nil big hempty.2]
    · rename_i hnonempty
      refine scanPrevStart_eq_ok ht big ?_
      rw [← Nat.le_zero, ← Nat.not_lt, ← imp_iff_or_not]
      exact fun hpos hnil => hnonempty ⟨hnil, hpos⟩
  · have hbounds := hrun.elim runAt_bounds runInLine_bounds
    exact ⟨Nat.le_of_lt hbounds.1, hbounds.2⟩
  · rcases hj with hj | hj | hj
    · exact nextWordStart_le hj
    · exact Nat.le_of_lt (nextWordEnd_lt hj)
    · exact prevWordStart_le hj

/-- Far past the end of a text there is neither a run nor an object, and the step back finds the
last word. -/
theorem words_and_objects_checked_far :
    scanRunInLine ['a', ' '] false 18446744073709551614 = .ok none ∧
      (∀ (o : TextObject) scope count, ∃ r,
        o.rangeChecked ['a', ' '] scope count 18446744073709551614 = .ok r) ∧
      prevWordStartChecked ['a', ' '] false 18446744073709551614 = .ok (some 0) := by
  have hlength : ['a', ' '].length < Index.bound := by decide
  have hindex : 18446744073709551614 + 1 < Index.bound := by decide
  obtain ⟨-, hrun, -, -, -, hprev, hscan, hrange, -⟩ :=
    words_and_objects_checked hlength hindex false
  refine ⟨?_, fun o scope count => ⟨_, hrange o scope count⟩, ?_⟩
  · have hpast : ∀ c, ['a', ' '][18446744073709551614]? = some c → c = '\n' := by simp
    rw [hrun, runInLine_eq_none false hpast]
  · rw [hscan, hprev]
    decide

/-- In the empty text the step back from index 1 leaves the range of machine indices. -/
theorem scanPrevStart_empty_text :
    1 + 1 < Index.bound ∧ scanPrevStart [] false 1 = .error .underflow :=
  ⟨by decide, scanPrevStart_nil false Nat.one_pos⟩

end Text

end ModalEdit
