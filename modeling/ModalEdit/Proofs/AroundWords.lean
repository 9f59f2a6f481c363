import ModalEdit.Proofs.LineRuns

/-!
# Around words, runs are taken in pairs

Around a word, runs are counted in pairs: a word and its white space. Where a word is followed by
one of another class, as in `a.b`, a pair is two words (`aroundWord_takes_touching`). Where of two
neighbours one is white space, the pairs are words with their white space, and so are they where no
more words are left than pairs are asked for (`takesRuns_pairs_iff`). Elsewhere they are not
(`pairs_of_madeOf`), as then there are more words than pairs.

What an object takes is stated as a property of runs, once as it is computed (`Text.TakesRuns`) and
once by words (`Text.TakesWords`). The object is the indices of the runs that have it (`MadeOf`).
-/

namespace ModalEdit

variable {t : Text} {big : Bool} {cls : CharClass} {i k n : Nat} {run : Run}

/-! ## Words among runs -/

section

variable {l m : Nat} {other first last word space : Run} {runs rest before after : List Run}

/-- Of two runs one is white space. -/
def Run.Spaced (run next : Run) : Prop :=
  run.cls = .space ∨ next.cls = .space

/-- The runs that are not white space. -/
def wordsOf (runs : List Run) : List Run :=
  runs.filter (·.cls ≠ .space)

/-- The indices `start..stop` are those of the runs that satisfy `P`. -/
def MadeOf (start stop : Nat) (P : Run → Prop) : Prop :=
  ∀ k, start ≤ k ∧ k < stop ↔ ∃ run, P run ∧ run.Holds k

theorem mem_wordsOf : run ∈ wordsOf runs ↔ run ∈ runs ∧ run.cls ≠ .space := by
  rw [wordsOf, List.mem_filter, decide_eq_true_iff]

theorem wordsOf_cons_of_word (h : run.cls ≠ .space) :
    wordsOf (run :: runs) = run :: wordsOf runs :=
  List.filter_cons_of_pos (decide_eq_true h)

theorem wordsOf_cons_of_space (h : run.cls = .space) : wordsOf (run :: runs) = wordsOf runs :=
  List.filter_cons_of_neg (by simp [h])

theorem getLast?_wordsOf (hlast : runs.getLast? = some last) (h : last.cls ≠ .space) :
    (wordsOf runs).getLast? = some last := by
  obtain ⟨front, rfl⟩ := List.getLast?_eq_some_iff.1 hlast
  rw [wordsOf, List.filter_append, ← wordsOf, ← wordsOf, wordsOf_cons_of_word h]
  exact List.getLast?_concat

theorem wordsOf_append_space (h : space.cls = .space) :
    wordsOf (runs ++ [space]) = wordsOf runs := by
  rw [wordsOf, List.filter_append, ← wordsOf, ← wordsOf, wordsOf_cons_of_space h]
  exact List.append_nil _

theorem exists_word_before (hchain : (run :: runs).IsChain Run.Meets) (hword : run.cls ≠ .space)
    (hmem : space ∈ run :: runs) (hspace : space.cls = .space) :
    ∃ word ∈ wordsOf (run :: runs), space.start = word.stop := by
  rcases head?_or_exists_previous hchain hmem with hfirst | ⟨word, hprevious, hstop, hne⟩
  · obtain rfl := Option.some.inj hfirst
    exact absurd hspace hword
  · exact ⟨word, mem_wordsOf.2 ⟨hprevious, hspace ▸ hne⟩, hstop.symm⟩

theorem getLast?_or_space (hchain : runs.IsChain Run.Meets)
    (hspaced : runs.IsChain Run.Spaced) (hmem : word ∈ wordsOf runs) :
    runs.getLast? = some word ∨ ∃ space ∈ runs, space.cls = .space ∧ space.start = word.stop := by
  obtain ⟨hin, hword⟩ := mem_wordsOf.1 hmem
  have hboth : runs.IsChain fun run next => run.Meets next ∧ run.Spaced next :=
    List.isChain_iff_forall_rel_of_append_cons_cons.2 fun _ _ _ _ h =>
      ⟨List.isChain_iff_forall_rel_of_append_cons_cons.1 hchain h,
        List.isChain_iff_forall_rel_of_append_cons_cons.1 hspaced h⟩
  refine (getLast?_or_exists_next hboth hin).imp_right ?_
  rintro ⟨space, hspace, ⟨hstop, -⟩, hcls⟩
  exact ⟨space, hspace, hcls.resolve_left hword, hstop.symm⟩

/-- Where of two neighbours one is white space, the words among `n` pairs of runs are the first `n`
words; and if the pairs end with a word, they are all the runs. -/
theorem wordsOf_take (hchain : runs.IsChain Run.Meets)
    (hhead : ∀ first, runs.head? = some first → first.cls ≠ .space)
    (hspaced : (runs.take (2 * n)).IsChain Run.Spaced) :
    wordsOf (runs.take (2 * n)) = (wordsOf runs).take n ∧
      ∀ last, (runs.take (2 * n)).getLast? = some last → last.cls ≠ .space →
        runs.take (2 * n) = runs := by
  induction n generalizing runs with
  | zero => exact ⟨by simp [wordsOf], fun last hlast => by simp at hlast⟩
  | succ n ih =>
    rw [Nat.mul_succ] at hspaced ⊢
    match runs with
    | [] => exact ⟨by simp [wordsOf], fun _ _ _ => rfl⟩
    | [word] =>
      have hword := hhead word rfl
      exact ⟨by simp [wordsOf, hword], fun _ _ _ => rfl⟩
    | word :: space :: rest =>
      have hword := hhead word rfl
      rw [List.take_succ_cons, List.take_succ_cons] at hspaced ⊢
      obtain ⟨hpair, hspaced⟩ := List.isChain_cons_cons.1 hspaced
      have hspace : space.cls = .space := hpair.resolve_left hword
      obtain ⟨hnext, hchain⟩ := List.isChain_cons.1 (List.isChain_cons_cons.1 hchain).2
      obtain ⟨hwords, hend⟩ := ih hchain
        (fun first hfirst => hspace ▸ (hnext first hfirst).2.symm) hspaced.tail
      rw [wordsOf_cons_of_word hword, wordsOf_cons_of_space hspace, wordsOf_cons_of_word hword,
        wordsOf_cons_of_space hspace, List.take_succ_cons, hwords]
      refine ⟨rfl, fun last hlast hne => ?_⟩
      cases hmore : rest.take (2 * n) with
      | nil =>
        rw [hmore] at hlast
        cases hlast
        exact absurd hspace hne
      | cons first more =>
        rw [hmore, List.getLast?_cons_cons, List.getLast?_cons_cons, ← hmore] at hlast
        rw [← hmore, hend last hlast hne]

theorem getLast?_or_space_of_last (hchain : runs.IsChain Run.Meets)
    (hmem : (wordsOf runs).getLast? = some word) :
    runs.getLast? = some word ∨ ∃ space ∈ runs, space.cls = .space ∧ space.start = word.stop := by
  rcases List.eq_nil_or_concat' runs with rfl | ⟨front, last, rfl⟩
  · cases hmem
  by_cases hcls : last.cls = .space
  · -- the run before white space is a word, and so the last one
    rw [wordsOf_append_space hcls] at hmem
    rcases List.eq_nil_or_concat' front with rfl | ⟨front, previous, rfl⟩
    · cases hmem
    have hmeets : previous.Meets last := by
      rw [List.append_assoc] at hchain
      exact List.isChain_iff_forall_rel_of_append_cons_cons.1 hchain rfl
    rw [getLast?_wordsOf List.getLast?_concat (hcls ▸ hmeets.2)] at hmem
    cases hmem
    exact Or.inr ⟨last, by simp, hcls, hmeets.1.symm⟩
  · rw [getLast?_wordsOf List.getLast?_concat hcls] at hmem
    exact Or.inl (hmem ▸ List.getLast?_concat)

theorem length_le_words (hchain : runs.IsChain Run.Meets) :
    runs.length ≤ 2 * (wordsOf runs).length + 1 ∧
      ((∀ first, runs.head? = some first → first.cls ≠ .space) →
        runs.length ≤ 2 * (wordsOf runs).length) := by
  induction runs with
  | nil => simp
  | cons run runs ih =>
    obtain ⟨hnext, hrest⟩ := List.isChain_cons.1 hchain
    obtain ⟨hodd, heven⟩ := ih hrest
    by_cases hcls : run.cls = .space
    · have hshort := heven fun first hfirst => hcls ▸ (hnext first hfirst).2.symm
      rw [wordsOf_cons_of_space hcls, List.length_cons]
      exact ⟨by omega, fun hhead => absurd hcls (hhead run rfl)⟩
    · rw [wordsOf_cons_of_word hcls, List.length_cons, List.length_cons]
      exact ⟨by omega, fun _ => by omega⟩

theorem isChain_spaced_of_length (hchain : runs.IsChain Run.Meets)
    (hlength : 2 * (wordsOf runs).length ≤ runs.length)
    (hhead : ∀ first, runs.head? = some first → first.cls = .space →
      2 * (wordsOf runs).length < runs.length) : runs.IsChain Run.Spaced := by
  induction runs with
  | nil => exact .nil
  | cons run runs ih =>
    obtain ⟨hnext, hrest⟩ := List.isChain_cons.1 hchain
    by_cases hcls : run.cls = .space
    · have hmany := hhead run rfl hcls
      rw [wordsOf_cons_of_space hcls, List.length_cons] at hmany
      refine List.isChain_cons.2 ⟨fun _ _ => Or.inl hcls, ih hrest (by omega) ?_⟩
      intro first hfirst hspace
      exact absurd (hcls.trans hspace.symm) (hnext first hfirst).2
    · rw [wordsOf_cons_of_word hcls, List.length_cons, List.length_cons] at hlength
      -- a word after the word would leave too few runs for white space
      have hspace : ∀ first, runs.head? = some first → first.cls = .space := by
        intro first hfirst
        by_contra hword
        have hfew := (length_le_words hrest).2 fun other hother =>
          Option.some.inj (hfirst.symm.trans hother) ▸ hword
        omega
      exact List.isChain_cons.2 ⟨fun first hfirst => Or.inr (hspace first hfirst),
        ih hrest (by omega) fun _ _ _ => by omega⟩

theorem CharClass.of_big_ne_symbol (c : Char) : CharClass.of true c ≠ .symbol := by
  unfold CharClass.of
  split <;> simp

namespace Text

/-- The runs of a line that an object takes with a list of its runs: these and, unless the last of
them is white space, the white space directly before the first. -/
inductive TakesRuns (t : Text) (big : Bool) (l : Nat) (runs : List Run) : Run → Prop
  | run {run : Run} (h : run ∈ runs) : TakesRuns t big l runs run
  | before {space first last : Run} (hrun : space ∈ t.lineRuns big l) (hspace : space.cls = .space)
      (hlast : runs.getLast? = some last) (hword : last.cls ≠ .space)
      (hfirst : runs.head? = some first) (h : space.stop = first.start) :
      TakesRuns t big l runs space

/-- The runs of a line that an object takes with some of its words: these, the white space after
each of them and, if there is none after the last, the white space directly before the first. -/
inductive TakesWords (t : Text) (big : Bool) (l : Nat) (words : List Run) : Run → Prop
  | word {word : Run} (h : word ∈ words) : TakesWords t big l words word
  | after {space word : Run} (hrun : space ∈ t.lineRuns big l) (hspace : space.cls = .space)
      (hword : word ∈ words) (h : space.start = word.stop) : TakesWords t big l words space
  | before {space first last : Run} (hrun : space ∈ t.lineRuns big l) (hspace : space.cls = .space)
      (hlast : words.getLast? = some last)
      (hnone : ∀ run ∈ t.lineRuns big l, run.cls = .space → run.start ≠ last.stop)
      (hfirst : words.head? = some first) (h : space.stop = first.start) :
      TakesWords t big l words space

theorem spaceBefore_cases (hl : l ≤ t.lastLine) (h : run ∈ t.lineRuns big l) :
    (∃ space ∈ t.lineRuns big l, space.cls = .space ∧ space.stop = run.start ∧
      t.spaceBefore big run.start = space.start) ∨
    (∀ space ∈ t.lineRuns big l, space.cls = .space → space.stop ≠ run.start) ∧
      t.spaceBefore big run.start = run.start := by
  have hrun := mem_lineRuns.1 h
  have hlt := hrun.lt
  have hend := hrun.le_hi
  have hle := t.lineEnd_le_length l
  have hline {k : Nat} (hlo : t.lineStart l ≤ k) (hk : k < t.lineEnd l) : t.lineOf k = l :=
    (lineOf_eq_iff hl (by omega)).2 ⟨hlo, by omega⟩
  rw [spaceBefore, hline hrun.lo_le (by omega)]
  split
  case isFalse hfirst =>
    refine Or.inr ⟨fun space hspace _ hstop => ?_, rfl⟩
    have hstart := (mem_lineRuns.1 hspace).lo_le
    have hlts := (mem_lineRuns.1 hspace).lt
    omega
  case isTrue hlate =>
    have hbefore := hline (k := run.start - 1) (by omega) (by omega)
    obtain ⟨found, hfound⟩ := t.exists_runInLine big (i := run.start - 1)
      (hbefore ▸ by omega) (hbefore ▸ by omega)
    obtain ⟨hmem, hholds⟩ := runInLine_eq_some_iff.1 hfound
    rw [hbefore] at hmem
    -- the run found does not reach into the given one
    have hstop : found.stop = run.start := by
      have hlo := hholds.1
      have hhi := hholds.2
      rcases (mem_lineRuns.1 hmem).eq_or_apart hrun with rfl | hleft | hright <;> omega
    rw [hfound]
    dsimp only
    split
    case isTrue hcls => exact Or.inl ⟨found, hmem, hcls, hstop, rfl⟩
    case isFalse hcls =>
      refine Or.inr ⟨fun space hspace hspaceCls hspaceStop => hcls ?_, rfl⟩
      rwa [(mem_lineRuns.1 hmem).eq_of_stop_eq (mem_lineRuns.1 hspace)
        (hstop.trans hspaceStop.symm)]

theorem spaceBefore_le_iff (hl : l ≤ t.lastLine) (h : run ∈ t.lineRuns big l) :
    t.spaceBefore big run.start ≤ run.start ∧
      ∀ k, t.spaceBefore big run.start ≤ k ∧ k < run.start ↔
        ∃ space ∈ t.lineRuns big l, space.cls = .space ∧ space.stop = run.start ∧
          space.Holds k := by
  rcases spaceBefore_cases hl h with ⟨space, hspace, hcls, hstop, heq⟩ | ⟨hnone, heq⟩
  · have hlt := (mem_lineRuns.1 hspace).lt
    rw [heq, ← hstop]
    refine ⟨Nat.le_of_lt hlt, fun k => ⟨fun hk => ⟨space, hspace, hcls, rfl, hk⟩, ?_⟩⟩
    rintro ⟨other, hother, -, hstop', hk⟩
    rwa [(mem_lineRuns.1 hother).eq_of_stop_eq (mem_lineRuns.1 hspace) hstop'] at hk
  · rw [heq]
    refine ⟨Nat.le_refl _, fun k => ⟨fun hk => by omega, ?_⟩⟩
    rintro ⟨space, hspace, hcls, hstop, -⟩
    exact absurd hstop (hnone space hspace hcls)

section

variable (hline : t.lineRuns big l = before ++ run :: after)
include hline

theorem isChain_after : (run :: after).IsChain Run.Meets :=
  (hline ▸ t.isChain_lineRuns big l).right_of_append

theorem mem_after_iff :
    other ∈ run :: after ↔ other ∈ t.lineRuns big l ∧ run.start ≤ other.start := by
  have hmem : run ∈ t.lineRuns big l := hline ▸ List.mem_append_right _ List.mem_cons_self
  have hlt := (mem_lineRuns.1 hmem).lt
  have hpairwise := t.pairwise_lineRuns big l
  rw [hline, List.pairwise_append, List.pairwise_cons] at hpairwise
  obtain ⟨-, ⟨hafter, -⟩, hbefore⟩ := hpairwise
  rw [hline, List.mem_append]
  constructor
  · intro h
    refine ⟨Or.inr h, ?_⟩
    rcases List.mem_cons.1 h with rfl | h
    · exact Nat.le_refl _
    · have := hafter other h
      omega
  · rintro ⟨h | h, hstart⟩
    · have hstop := hbefore other h run List.mem_cons_self
      have hother := (mem_lineRuns.1 (hline ▸ List.mem_append_left _ h)).lt
      omega
    · exact h

/-- **What is taken with runs.** -/
theorem madeOf_takesRuns (hl : l ≤ t.lastLine)
    (hlast : ((run :: after).take (m + 1)).getLast? = some last) :
    MadeOf (if last.cls = .space then run.start else t.spaceBefore big run.start) last.stop
      (t.TakesRuns big l ((run :: after).take (m + 1))) := by
  have hmem {r : Run} (h : r ∈ run :: after) : t.IsRun big (t.lineStart l) (t.lineEnd l) r :=
    mem_lineRuns.1 ((mem_after_iff hline).1 h).1
  obtain ⟨hbefore, hspaces⟩ := spaceBefore_le_iff hl
    ((mem_after_iff hline).1 List.mem_cons_self).1
  have hchain := (isChain_after hline).take (m + 1)
  have hlt : ∀ r ∈ (run :: after).take (m + 1), r.start < r.stop := fun r h =>
    (hmem (List.mem_of_mem_take h)).lt
  rw [List.take_succ_cons] at hlast hchain hlt ⊢
  have hruns {k : Nat} := exists_holds_iff (k := k) hchain hlt hlast
  have hstop := (hruns.1 ⟨run, List.mem_cons_self, (hmem List.mem_cons_self).holds_start⟩).2
  intro k
  constructor
  · intro hk
    by_cases hstart : run.start ≤ k
    · obtain ⟨r, hr, hrk⟩ := hruns.2 ⟨hstart, hk.2⟩
      exact ⟨r, .run hr, hrk⟩
    · split at hk
      case isTrue => omega
      case isFalse hword =>
        obtain ⟨space, hspace, hcls, hspaceStop, hholds⟩ := (hspaces k).1 ⟨hk.1, by omega⟩
        exact ⟨space, .before hspace hcls hlast hword rfl hspaceStop, hholds⟩
  · rintro ⟨r, hr | ⟨hr, hcls, hlast', hword, hfirst, hrstop⟩, hrk⟩
    · have hin := hruns.1 ⟨r, hr, hrk⟩
      split <;> omega
    · obtain rfl := Option.some.inj (hlast.symm.trans hlast')
      obtain rfl := Option.some.inj hfirst
      have hin := (hspaces k).2 ⟨r, hr, hcls, hrstop, hrk⟩
      rw [if_neg hword]
      omega

theorem isChain_spaced (hbig : big = true) : (run :: after).IsChain Run.Spaced := by
  refine (isChain_after hline).imp_of_mem_imp fun r next hr hnext hmeets => ?_
  have htext {r : Run} (h : r ∈ run :: after) : r.cls ≠ .symbol := by
    have hrun := mem_lineRuns.1 ((mem_after_iff hline).1 h).1
    obtain ⟨c, -, hc⟩ := Option.map_eq_some_iff.1 (hrun.same r.start hrun.holds_start)
    subst hbig
    exact hc ▸ CharClass.of_big_ne_symbol c
  have h := htext hr
  have h' := htext hnext
  have hne := hmeets.2
  unfold Run.Spaced
  revert h h' hne
  cases r.cls <;> cases next.cls <;> decide

/-- **Runs that are words with their white space.** If the white space after each word is among some
runs from a word on, then what is taken with these runs is what is taken with their words. -/
theorem takesRuns_iff_takesWords (hfront : (run :: after).take m = run :: rest)
    (hword : run.cls ≠ .space) (hclosed : ∀ word ∈ wordsOf (run :: rest),
      ∀ space ∈ t.lineRuns big l, space.cls = .space → space.start = word.stop →
        space ∈ run :: rest) :
    t.TakesRuns big l (run :: rest) other ↔
      t.TakesWords big l (wordsOf (run :: rest)) other := by
  have hchain := hfront ▸ (isChain_after hline).take m
  have hmem {r : Run} (h : r ∈ run :: rest) : r ∈ t.lineRuns big l :=
    ((mem_after_iff hline).1 (List.mem_of_mem_take (hfront.symm ▸ h))).1
  have hhead : (wordsOf (run :: rest)).head? = some run := by
    rw [wordsOf_cons_of_word hword]
    rfl
  constructor
  · rintro (h | ⟨hspace, hcls, hlast, hne, hfirst, hstop⟩)
    · by_cases hcls : other.cls = .space
      · obtain ⟨word, hmemWord, hstart⟩ := exists_word_before hchain hword h hcls
        exact .after (hmem h) hcls hmemWord hstart
      · exact .word (mem_wordsOf.2 ⟨h, hcls⟩)
    · obtain rfl := Option.some.inj hfirst
      have hlastWord := getLast?_wordsOf hlast hne
      refine .before hspace hcls hlastWord (fun space h hspaceCls hstart => ?_) hhead hstop
      -- white space after the last run would be among the runs
      have hin := hclosed _ (List.mem_of_getLast? hlastWord) space h hspaceCls hstart
      have hlate := (exists_holds_iff hchain (fun r h => (mem_lineRuns.1 (hmem h)).lt) hlast).1
        ⟨space, hin, (mem_lineRuns.1 h).holds_start⟩
      omega
  · rintro (h | ⟨hspace, hcls, hmemWord, hstart⟩ | ⟨hspace, hcls, hlast, hnone, hfirst, hstop⟩)
    · exact .run (mem_wordsOf.1 h).1
    · exact .run (hclosed _ hmemWord _ hspace hcls hstart)
    · obtain rfl := Option.some.inj (hhead.symm.trans hfirst)
      rcases getLast?_or_space_of_last hchain hlast with hend | ⟨found, hfound, hfoundCls, heq⟩
      · have hne := (mem_wordsOf.1 (List.mem_of_getLast? hlast)).2
        exact .before hspace hcls hend hne rfl hstop
      · exact absurd heq (hnone found (hmem hfound) hfoundCls)

/-- **Pairs of runs are words with their white space** where of two neighbours one is white space,
and where no more words are left. -/
theorem takesRuns_pairs_iff (hn : 1 ≤ n) (hword : run.cls ≠ .space)
    (hpairs : ((run :: after).take (2 * n)).IsChain Run.Spaced ∨
      (wordsOf (run :: after)).length ≤ n) :
    t.TakesRuns big l ((run :: after).take (2 * n)) other ↔
      t.TakesWords big l ((wordsOf (run :: after)).take n) other := by
  have hchain := isChain_after hline
  have hhead : ∀ first, (run :: after).head? = some first → first.cls ≠ .space :=
    fun first hfirst => Option.some.inj hfirst ▸ hword
  have hmem {word space : Run} (hmemWord : word ∈ wordsOf (run :: after))
      (hspace : space ∈ t.lineRuns big l) (hstart : space.start = word.stop) :
      space ∈ run :: after := by
    obtain ⟨hline', hle⟩ := (mem_after_iff hline).1 (mem_wordsOf.1 hmemWord).1
    have hlt := (mem_lineRuns.1 hline').lt
    exact (mem_after_iff hline).2 ⟨hspace, by omega⟩
  rcases hpairs with hspaced | hfew
  · obtain ⟨hwords, hend⟩ := wordsOf_take hchain hhead hspaced
    obtain ⟨m, hm⟩ : ∃ m, 2 * n = m + 1 := Nat.exists_eq_add_of_le' (by omega)
    have hchainTake := hchain.take (2 * n)
    have hfront {r : Run} := List.mem_of_mem_take (a := r) (l := run :: after) (i := 2 * n)
    -- the words of the pairs are the words taken
    rw [← hwords]
    rw [hm, List.take_succ_cons] at hspaced hend hfront hchainTake ⊢
    refine takesRuns_iff_takesWords hline List.take_succ_cons hword
      fun word hmemWord space hspace hcls hstart => ?_
    obtain ⟨hin, hne⟩ := mem_wordsOf.1 hmemWord
    rcases getLast?_or_space hchainTake hspaced hmemWord with hlast | ⟨found, hfound, -, heq⟩
    · rw [hend word hlast hne]
      exact hmem (mem_wordsOf.2 ⟨hfront hin, hne⟩) hspace hstart
    · have hfoundLine := (mem_after_iff hline).1 (hfront hfound)
      rwa [← (mem_lineRuns.1 hfoundLine.1).eq_of_start_eq (mem_lineRuns.1 hspace)
        (heq.trans hstart.symm)]
  · -- so few words have all the runs among the pairs
    have hlength := (length_le_words hchain).2 hhead
    rw [List.take_of_length_le (by omega), List.take_of_length_le hfew]
    exact takesRuns_iff_takesWords hline (List.take_of_length_le (Nat.le_refl _)) hword
      fun word hmemWord space hspace _ hstart => hmem hmemWord hspace hstart

theorem pairs_of_madeOf {start stop : Nat} (hword : run.cls ≠ .space)
    (hruns : MadeOf start stop (t.TakesRuns big l ((run :: after).take (2 * n))))
    (hwords : MadeOf start stop (t.TakesWords big l ((wordsOf (run :: after)).take n))) :
    ((run :: after).take (2 * n)).IsChain Run.Spaced ∨ (wordsOf (run :: after)).length ≤ n := by
  have hmem {r : Run} (h : r ∈ run :: after) : r ∈ t.lineRuns big l :=
    ((mem_after_iff hline).1 h).1
  have hsubset : wordsOf ((run :: after).take (2 * n)) ⊆ (wordsOf (run :: after)).take n := by
    intro word hmemWord
    obtain ⟨hin, hne⟩ := mem_wordsOf.1 hmemWord
    have hrunWord := mem_lineRuns.1 (hmem (List.mem_of_mem_take hin))
    obtain ⟨r, hr, hholds⟩ :=
      (hwords word.start).1 ((hruns word.start).2 ⟨word, .run hin, hrunWord.holds_start⟩)
    have hsame {r : Run} (h : r ∈ t.lineRuns big l) (hholds : r.Holds word.start) : r = word :=
      (mem_lineRuns.1 h).eq_of_holds hrunWord hholds hrunWord.holds_start
    rcases hr with h | ⟨h, hcls, -, -⟩ | ⟨h, hcls, -, -, -, -⟩
    · rwa [← hsame (hmem (mem_wordsOf.1 (List.mem_of_mem_take h)).1) hholds]
    · exact absurd (hsame h hholds ▸ hcls) hne
    · exact absurd (hsame h hholds ▸ hcls) hne
  have hnodup : (wordsOf ((run :: after).take (2 * n))).Nodup := by
    have hafter : (run :: after).Sublist (t.lineRuns big l) :=
      hline ▸ List.sublist_append_right _ _
    exact ((List.filter_sublist.trans (List.take_sublist _ _)).trans hafter).nodup
      (t.nodup_lineRuns big l)
  -- among the pairs there are no more words than pairs
  have hcount := hnodup.length_le_of_subset hsubset
  rw [List.length_take] at hcount
  rcases Nat.le_total (2 * n) (run :: after).length with hlong | hshort
  · have hlength := List.length_take_of_le hlong
    refine Or.inl (isChain_spaced_of_length ((isChain_after hline).take _) (by omega) ?_)
    intro first hfirst hcls
    rw [List.head?_take] at hfirst
    split at hfirst
    · cases hfirst
    · exact absurd (Option.some.inj hfirst ▸ hcls) hword
  · rw [List.take_of_length_le hshort] at hcount
    exact Or.inr (by omega)

/-- A pair of runs, with white space before it where it ends with a word, is a word with the white
space on one of its sides, or without any. -/
theorem pair_sides (hl : l ≤ t.lastLine) (hword : run.cls ≠ .space)
    (hspaced : ((run :: after).take 2).IsChain Run.Spaced)
    (hlast : ((run :: after).take 2).getLast? = some last) :
    let start := if last.cls = .space then run.start else t.spaceBefore big run.start
    start = run.start ∧ last.stop = run.stop ∨
      ∃ space ∈ t.lineRuns big l, space.cls = .space ∧
        (space.start = run.stop ∧ start = run.start ∧ last.stop = space.stop ∨
          space.stop = run.start ∧ start = space.start ∧ last.stop = run.stop) := by
  dsimp only
  -- the second run is the white space after the word, or there is no second run
  cases after with
  | nil =>
    obtain rfl : run = last := Option.some.inj hlast
    rw [if_neg hword]
    rcases spaceBefore_cases hl ((mem_after_iff hline).1 List.mem_cons_self).1 with
      ⟨space, hspace, hcls, hstop, heq⟩ | ⟨-, heq⟩
    · exact Or.inr ⟨space, hspace, hcls, Or.inr ⟨hstop, heq, rfl⟩⟩
    · exact Or.inl ⟨heq, rfl⟩
  | cons next after =>
    obtain rfl : next = last := Option.some.inj hlast
    obtain ⟨⟨hstop, -⟩, -⟩ := List.isChain_cons_cons.1 (isChain_after hline)
    have hspace := (List.isChain_cons_cons.1 hspaced).1.resolve_left hword
    rw [if_pos hspace]
    exact Or.inr ⟨next, ((mem_after_iff hline).1 (by simp)).1, hspace,
      Or.inl ⟨hstop.symm, rfl, rfl⟩⟩

theorem take_times (h : 2 * n ≤ Count.limit ∨ t.lineLength l ≤ Count.limit) :
    (run :: after).take (Count.times n 2) = (run :: after).take (2 * n) := by
  have hlength := length_runsBetween_le big (t.lineStart_le_lineEnd l) (t.lineEnd_le_length l)
  rw [← lineRuns, hline, List.length_append] at hlength
  rw [Count.times, Nat.mul_comm n 2]
  by_cases hle : 2 * n ≤ Count.limit
  · rw [Nat.min_eq_left hle]
  · have hlong := h.resolve_left hle
    have hend := t.lineEnd_eq l
    have hall : (run :: after).length ≤ Count.limit := by omega
    rw [Nat.min_eq_right (Nat.le_of_not_le hle), List.take_of_length_le hall,
      List.take_of_length_le (Nat.le_trans hall (Nat.le_of_not_le hle))]

end

end Text

end

namespace TextObject

theorem range_aroundWord (hn : 1 ≤ n) (h : t.runInLine big i = some run)
    (hword : run.cls ≠ .space) :
    ∃ m last, Count.times n 2 = m + 1 ∧
      ((run :: t.runsBetween big run.stop (t.lineEnd (t.lineOf i))).take (m + 1)).getLast? =
        some last ∧
      (word big).range t .around n i = some (.exclusive
        (if last.cls = .space then run.start else t.spaceBefore big run.start) last.stop) := by
  obtain ⟨m, hm⟩ : ∃ m, Count.times n 2 = m + 1 :=
    Nat.exists_eq_add_of_le' (by simp only [Count.times, Count.limit]; omega)
  refine ⟨m, _, hm, Text.getLast?_take_runs big m run _, ?_⟩
  rw [range, Text.wordObject, h, Nat.max_eq_left hn, hm]
  simp only [Option.map_some, Nat.add_sub_cancel, ne_eq, hword, not_false_eq_true, true_and,
    ite_not]

/-- **Around words an object takes runs.** The white space is taken as runs are: with a count `n` on
a word, an object takes `2 * n` runs of the line from there on, of whatever classes, or as many as
there are, and if the last of them is not white space it takes the white space directly before the
first one. These are `n` words or as many as there are, each with the white space after it, and if
there is none after the last word, the white space directly before the first one, exactly if of two
neighbours among the runs one is white space, as with big words it always is, or no more than `n`
words are left. Then for a count of one it is the word at the cursor with the white space on one of
its sides, or without any. -/
theorem aroundWord_words (t : Text) (big : Bool) (hcls : t.classAt big i = some cls)
    (hword : cls ≠ .space) :
    ∃ before run after, t.lineRuns big (t.lineOf i) = before ++ run :: after ∧ run.Holds i ∧
      (big = true → (run :: after).IsChain Run.Spaced) ∧
      (∀ n, 1 ≤ n → ∃ start stop,
        (word big).range t .around n i = some (.exclusive start stop) ∧
        MadeOf start stop
          (t.TakesRuns big (t.lineOf i) ((run :: after).take (Count.times n 2))) ∧
        (2 * n ≤ Count.limit ∨ t.lineLength (t.lineOf i) ≤ Count.limit →
          (MadeOf start stop
              (t.TakesWords big (t.lineOf i) ((wordsOf (run :: after)).take n)) ↔
            ((run :: after).take (2 * n)).IsChain Run.Spaced ∨
              (wordsOf (run :: after)).length ≤ n))) ∧
      (((run :: after).take 2).IsChain Run.Spaced → ∃ start stop,
        (word big).range t .around 1 i = some (.exclusive start stop) ∧
        (start = run.start ∧ stop = run.stop ∨
          ∃ space ∈ t.lineRuns big (t.lineOf i), space.cls = .space ∧
            (space.start = run.stop ∧ start = run.start ∧ stop = space.stop ∨
              space.stop = run.start ∧ start = space.start ∧ stop = run.stop))) := by
  obtain ⟨c, hget, rfl⟩ := Option.map_eq_some_iff.1 hcls
  have hbreak : c ≠ '\n' := by
    rintro rfl
    exact hword ((CharClass.of_eq_space_iff big _).2 Unicode.isWhiteSpace_newline)
  obtain ⟨before, run, hline, hfound⟩ := Text.exists_lineRuns_eq_append big hget hbreak
  obtain ⟨hmem, hholds⟩ := Text.runInLine_eq_some_iff.1 hfound
  have hne : run.cls ≠ .space := by
    have hsame := (Text.mem_lineRuns.1 hmem).same i hholds
    rw [hcls] at hsame
    exact Option.some.inj hsame ▸ hword
  have hrange (n : Nat) (hn : 1 ≤ n) := range_aroundWord hn hfound hne
  have hl := t.lineOf_le_lastLine i
  generalize t.runsBetween big run.stop (t.lineEnd (t.lineOf i)) = after at hline hrange
  refine ⟨before, run, after, hline, hholds, Text.isChain_spaced hline, fun n hn => ?_,
    fun hspaced => ?_⟩
  · obtain ⟨m, last, hm, hlast, hrange⟩ := hrange n hn
    have hruns := Text.madeOf_takesRuns hline hl hlast
    rw [← hm] at hruns
    refine ⟨_, _, hrange, hruns, fun hlimit => ?_⟩
    rw [Text.take_times hline hlimit] at hruns
    refine ⟨Text.pairs_of_madeOf hline hne hruns, fun hpairs k => ?_⟩
    simp only [hruns k, Text.takesRuns_pairs_iff hline hn hne hpairs]
  · obtain ⟨m, last, hm, hlast, hrange⟩ := hrange 1 (Nat.le_refl 1)
    obtain rfl : m = 1 := by
      simp only [Count.times, Count.limit] at hm
      omega
    exact ⟨_, _, hrange, Text.pair_sides hline hl hne hspaced hlast⟩

/-- In `" a b"` two words from the `a` are taken with the white space before them, as none comes
after the second one. -/
theorem aroundWord_words_leading_space :
    let t : Text := [' ', 'a', ' ', 'b']
    (word false).range t .around 2 1 = some (.exclusive 0 4) ∧
      MadeOf 0 4 (t.TakesWords false 0 [⟨1, 2, .text⟩, ⟨3, 4, .text⟩]) := by
  intro t
  have hrange : (word false).range t .around 2 1 = some (.exclusive 0 4) := by decide
  have hruns : t.lineRuns false (t.lineOf 1) =
      [⟨0, 1, .space⟩, ⟨1, 2, .text⟩, ⟨2, 3, .space⟩, ⟨3, 4, .text⟩] := by decide
  obtain ⟨before, run, after, hline, hholds, -, hwords, -⟩ :=
    aroundWord_words t false (show t.classAt false 1 = some .text by decide) (by decide)
  rw [hruns] at hline
  rcases before with _ | ⟨space, _ | ⟨other, before⟩⟩
  · cases hline
    exact absurd hholds.2 (by decide)
  · cases hline
    obtain ⟨start, stop, hrange', -, hmade⟩ := hwords 2 (by decide)
    cases hrange.symm.trans hrange'
    exact ⟨hrange, (hmade (Or.inl (by decide))).2 (Or.inr (by decide))⟩
  · -- the two runs after these start behind the cursor
    have hlate : ∀ run ∈ [(⟨2, 3, .space⟩ : Run), ⟨3, 4, .text⟩], ¬run.start ≤ 1 := by decide
    have htail := (List.cons.inj (List.cons.inj hline).2).2
    refine absurd hholds.1 (hlate run ?_)
    rw [htail]
    exact List.mem_append_right _ List.mem_cons_self

/-- In `"a.b"` the symbol that touches the `a` is taken as its white space would be. -/
theorem aroundWord_takes_touching :
    let t : Text := ['a', '.', 'b']
    (word false).range t .around 1 0 = some (.exclusive 0 2) ∧
      wordsOf (t.lineRuns false 0) = [⟨0, 1, .text⟩, ⟨1, 2, .symbol⟩, ⟨2, 3, .text⟩] ∧
      ¬MadeOf 0 2 (t.TakesWords false 0 [⟨0, 1, .text⟩]) := by
  intro t
  have hruns : t.lineRuns false 0 = [⟨0, 1, .text⟩, ⟨1, 2, .symbol⟩, ⟨2, 3, .text⟩] := by decide
  refine ⟨by decide, by decide, fun hmade => ?_⟩
  have hspaces : ∀ run ∈ t.lineRuns false 0, run.cls ≠ .space := by
    rw [hruns]
    decide
  -- the symbol would have to be the word or white space
  obtain ⟨run, hrun, hholds⟩ := (hmade 1).1 (by decide)
  rcases hrun with h | ⟨hrun, hspace, -, -⟩ | ⟨hrun, hspace, -, -, -, -⟩
  · rw [List.mem_singleton.1 h] at hholds
    exact absurd hholds.2 (by decide)
  · exact hspaces run hrun hspace
  · exact hspaces run hrun hspace

end TextObject

end ModalEdit
