import Mathlib.Data.List.Chain
import ModalEdit.Proofs.CheckedMotion
import ModalEdit.Proofs.RestingCursor
import ModalEdit.Proofs.WordBoundaries
import ModalEdit.TextObject.Range

/-!
# The runs of a line

A line falls into runs: stretches of one class that cannot be made longer within the line
(`Text.IsRun`). They are listed in order (`Text.lineRuns`), each starts where the one before it
stops, and two neighbours are of different classes.

The two searches of a word object are read off this list. The run sought at an index is the member
that holds it (`runInLine_eq_some_iff`), because two runs that share an index are the same
(`IsRun.eq_of_holds`). The runs ahead of it are the members after it (`getLast?_take_runs`).

The list is built from its end, one character at a time. Seen from its start it is the first run,
as far as the class lasts, and the list of what comes after it (`runsBetween_eq_cons`), and every
law is an induction on that (`runsBetween_induction`).
-/

namespace ModalEdit

variable {t : Text} {big : Bool} {cls : CharClass} {lo hi i j k : Nat} {run other : Run}
  {runs : List Run}

/-! ## Runs -/

/-- An index is in a run. -/
def Run.Holds (run : Run) (k : Nat) : Prop :=
  run.start ≤ k ∧ k < run.stop

/-- A run starts where another one stops, and is of another class. -/
def Run.Meets (run next : Run) : Prop :=
  run.stop = next.start ∧ run.cls ≠ next.cls

/-- The runs of a list of characters that begins at index `i`. -/
def runsFrom (big : Bool) : Nat → List Char → List Run
  | _, [] => []
  | i, c :: cs =>
    let single : Run := ⟨i, i + 1, CharClass.of big c⟩
    match runsFrom big (i + 1) cs with
    | [] => [single]
    | run :: runs =>
      if run.cls = single.cls then { run with start := i } :: runs else single :: run :: runs

theorem runsFrom_cons (big : Bool) (i : Nat) (c : Char) (cs : List Char) :
    runsFrom big i (c :: cs) =
      ⟨i, i + runLength big (c :: cs), CharClass.of big c⟩ ::
        runsFrom big (i + runLength big (c :: cs)) ((c :: cs).drop (runLength big (c :: cs))) := by
  induction cs generalizing i c with
  | nil => simp [runsFrom, runLength]
  | cons d ds ih =>
    rw [runsFrom, ih]
    dsimp only
    by_cases hsame : CharClass.of big d = CharClass.of big c
    · have hlength : runLength big (c :: d :: ds) = runLength big (d :: ds) + 1 := by
        simp [runLength, hsame]
      rw [if_pos hsame, hlength, List.drop_succ_cons, hsame, Nat.add_right_comm, Nat.add_assoc]
    · have hlength : runLength big (c :: d :: ds) = 1 := by simp [runLength, hsame]
      rw [if_neg hsame, hlength, List.drop_one, List.tail_cons, ih]

theorem getLast?_or_exists_next {R : Run → Run → Prop} (h : runs.IsChain R) (hmem : run ∈ runs) :
    runs.getLast? = some run ∨ ∃ next ∈ runs, R run next := by
  obtain ⟨before, after, rfl⟩ := List.append_of_mem hmem
  cases after with
  | nil => exact Or.inl List.getLast?_concat
  | cons next after =>
    refine Or.inr ⟨next, by simp, ?_⟩
    exact List.isChain_iff_forall_rel_of_append_cons_cons.1 h rfl

theorem head?_or_exists_previous {R : Run → Run → Prop} (h : runs.IsChain R) (hmem : run ∈ runs) :
    runs.head? = some run ∨ ∃ previous ∈ runs, R previous run := by
  have hnext := getLast?_or_exists_next (List.isChain_reverse.2 h) (List.mem_reverse.2 hmem)
  simpa only [List.getLast?_reverse, List.mem_reverse] using hnext

theorem exists_holds_iff {first last : Run} (hchain : (first :: runs).IsChain Run.Meets)
    (hlt : ∀ run ∈ first :: runs, run.start < run.stop)
    (hlast : (first :: runs).getLast? = some last) :
    (∃ run ∈ first :: runs, run.Holds k) ↔ first.start ≤ k ∧ k < last.stop := by
  induction runs generalizing first k with
  | nil =>
    cases hlast
    simp [Run.Holds]
  | cons next runs ih =>
    obtain ⟨⟨hnext, -⟩, hrest⟩ := List.isChain_cons_cons.1 hchain
    have hltRest := (List.forall_mem_cons.1 hlt).2
    have hlater {k : Nat} := ih (k := k) hrest hltRest hlast
    have hfirst := hlt first List.mem_cons_self
    -- the rest holds its own start, so it ends after that
    have hstop := (hlater.1 ⟨next, List.mem_cons_self, Nat.le_refl _,
      hltRest next List.mem_cons_self⟩).2
    simp only [List.mem_cons, exists_eq_or_imp] at hlater ⊢
    rw [hlater, Run.Holds]
    omega

namespace Text

/-- The characters of a run are of one class, and the run cannot be made longer on either side
within `lo..hi`. -/
structure IsRun (t : Text) (big : Bool) (lo hi : Nat) (run : Run) : Prop where
  lo_le : lo ≤ run.start
  lt : run.start < run.stop
  le_hi : run.stop ≤ hi
  same : ∀ k, run.Holds k → t.classAt big k = some run.cls
  before : run.start = lo ∨ t.classAt big (run.start - 1) ≠ some run.cls
  after : run.stop = hi ∨ t.classAt big run.stop ≠ some run.cls

/-- The runs between two indices, in order. -/
def runsBetween (t : Text) (big : Bool) (lo hi : Nat) : List Run :=
  runsFrom big lo (t.slice lo hi)

/-- The runs of a line, in order. -/
def lineRuns (t : Text) (big : Bool) (l : Nat) : List Run :=
  t.runsBetween big (t.lineStart l) (t.lineEnd l)

namespace IsRun

theorem holds_start (h : t.IsRun big lo hi run) : run.Holds run.start :=
  ⟨Nat.le_refl _, h.lt⟩

/-- A run that starts later than another one of its class does not share an index with it. -/
theorem start_le (h : t.IsRun big lo hi run) (h' : t.IsRun big lo hi other) (hk : run.Holds k)
    (hk' : other.Holds k) : run.start ≤ other.start := by
  refine Nat.le_of_not_lt fun hlt => ?_
  have hcls := (h.same k hk).symm.trans (h'.same k hk')
  have hbefore := h'.same (run.start - 1) ⟨by omega, by have := hk.1; have := hk'.2; omega⟩
  rw [← hcls] at hbefore
  have hlo := h'.lo_le
  rcases h.before with hstart | hother
  · omega
  · exact hother hbefore

theorem stop_le (h : t.IsRun big lo hi run) (h' : t.IsRun big lo hi other) (hk : run.Holds k)
    (hk' : other.Holds k) : run.stop ≤ other.stop := by
  refine Nat.le_of_not_lt fun hlt => ?_
  have hcls := (h.same k hk).symm.trans (h'.same k hk')
  have hafter := h.same other.stop ⟨by have := hk.1; have := hk'.2; omega, hlt⟩
  rw [hcls] at hafter
  have hhi := h.le_hi
  rcases h'.after with hstop | hother
  · omega
  · exact hother hafter

/-- **Two runs that share an index are the same.** -/
theorem eq_of_holds (h : t.IsRun big lo hi run) (h' : t.IsRun big lo hi other) (hk : run.Holds k)
    (hk' : other.Holds k) : run = other := by
  have hstart := Nat.le_antisymm (h.start_le h' hk hk') (h'.start_le h hk' hk)
  have hstop := Nat.le_antisymm (h.stop_le h' hk hk') (h'.stop_le h hk' hk)
  have hcls := Option.some.inj ((h.same k hk).symm.trans (h'.same k hk'))
  cases run
  cases other
  simp_all

theorem eq_of_start_eq (h : t.IsRun big lo hi run) (h' : t.IsRun big lo hi other)
    (hstart : run.start = other.start) : run = other :=
  h.eq_of_holds h' h.holds_start (hstart ▸ h'.holds_start)

theorem eq_of_stop_eq (h : t.IsRun big lo hi run) (h' : t.IsRun big lo hi other)
    (hstop : run.stop = other.stop) : run = other := by
  have hlt := h.lt
  have hlt' := h'.lt
  exact h.eq_of_holds (k := run.stop - 1) h' ⟨by omega, by omega⟩ ⟨by omega, by omega⟩

/-- **Two runs are the same or apart.** -/
theorem eq_or_apart (h : t.IsRun big lo hi run) (h' : t.IsRun big lo hi other) :
    run = other ∨ run.stop ≤ other.start ∨ other.stop ≤ run.start := by
  by_cases hapart : run.stop ≤ other.start ∨ other.stop ≤ run.start
  · exact Or.inr hapart
  · have hlt := h.lt
    have hlt' := h'.lt
    refine Or.inl (h.eq_of_holds (k := max run.start other.start) h' ?_ ?_)
    · exact ⟨by omega, by omega⟩
    · exact ⟨by omega, by omega⟩

theorem narrow (h : t.IsRun big lo hi run) (hle : lo ≤ j) (hj : j ≤ run.start) :
    t.IsRun big j hi run := by
  refine ⟨hj, h.lt, h.le_hi, h.same, h.before.imp_left fun hstart => ?_, h.after⟩
  omega

theorem cls_ne (h : t.IsRun big lo hi run) (h' : t.IsRun big run.stop hi other)
    (hstart : other.start = run.stop) : other.cls ≠ run.cls := by
  intro heq
  have hfirst := h'.same other.start h'.holds_start
  have hlt := h'.lt
  have hhi := h'.le_hi
  rcases h.after with hstop | hother
  · omega
  · exact hother (by rw [← hstart, hfirst, heq])

theorem widen (h : t.IsRun big lo hi run) (h' : t.IsRun big run.stop hi other) :
    t.IsRun big lo hi other := by
  have hlo := h.lo_le
  have hlt := h.lt
  have hle := h'.lo_le
  refine ⟨by omega, h'.lt, h'.le_hi, h'.same, Or.inr ?_, h'.after⟩
  rcases h'.before with hstart | hbefore
  · have hlast := h.same (other.start - 1) ⟨by omega, by omega⟩
    rw [hlast]
    exact fun heq => h.cls_ne h' hstart (Option.some.inj heq).symm
  · exact hbefore

end IsRun

/-! ## The list of runs -/

theorem classAt_take (hk : k < hi) : classAt (t.take hi) big k = t.classAt big k := by
  rw [classAt, classAt, List.getElem?_take_of_lt hk]

theorem Stretch.isRun (h : Stretch (t.take hi) big cls lo j) (hlt : lo < j) (hlo : lo ≤ hi)
    (hhi : hi ≤ t.length) : t.IsRun big lo hi ⟨lo, j, cls⟩ := by
  have hlength : (t.take hi).length = hi := by rw [List.length_take, Nat.min_eq_left hhi]
  have hstop : j ≤ hi := hlength ▸ h.stop_le (hlength.symm ▸ hlo)
  refine ⟨Nat.le_refl lo, hlt, hstop, fun k hk => ?_, Or.inl rfl, ?_⟩
  · rw [← classAt_take (Nat.lt_of_lt_of_le hk.2 hstop)]
    exact h.same k hk.1 hk.2
  · refine (Nat.eq_or_lt_of_le hstop).imp_right fun hlt => ?_
    dsimp only
    rw [← classAt_take hlt]
    exact h.stop

theorem runsBetween_self (t : Text) (big : Bool) (i : Nat) : t.runsBetween big i i = [] := by
  rw [runsBetween, slice, List.drop_eq_nil_of_le (by simp)]
  rfl

/-- **The runs between two indices** are the one that begins at the first index, and the runs after
it. -/
theorem runsBetween_eq_cons (big : Bool) (hlt : lo < hi) (hhi : hi ≤ t.length) :
    ∃ run, t.IsRun big lo hi run ∧ run.start = lo ∧
      t.runsBetween big lo hi = run :: t.runsBetween big run.stop hi := by
  have hlength : (t.take hi).length = hi := by rw [List.length_take, Nat.min_eq_left hhi]
  have hlo : lo < (t.take hi).length := hlength.symm ▸ hlt
  obtain ⟨cls, hcls, hrun, hstretch⟩ := stretch_run big hlo
  refine ⟨_, hstretch.isRun hrun (Nat.le_of_lt hlt) hhi, rfl, ?_⟩
  have hdrop := List.drop_eq_getElem_cons hlo
  rw [classAt, List.getElem?_eq_getElem hlo] at hcls
  rw [runsBetween, slice, hdrop, runsFrom_cons, ← hdrop, List.drop_drop, Option.some.inj hcls]
  rfl

/-- What holds of no runs, and of a run and those after it if it holds of those, holds of the runs
between two indices. -/
theorem runsBetween_induction {P : Nat → List Run → Prop} (hhi : hi ≤ t.length) (hnil : P hi [])
    (hcons : ∀ run, t.IsRun big run.start hi run →
      P run.stop (t.runsBetween big run.stop hi) →
      P run.start (run :: t.runsBetween big run.stop hi)) (hlo : lo ≤ hi) :
    P lo (t.runsBetween big lo hi) := by
  induction hn : hi - lo using Nat.strongRecOn generalizing lo with
  | ind n ih =>
    rcases Nat.eq_or_lt_of_le hlo with rfl | hlt
    · rwa [runsBetween_self]
    · obtain ⟨run, hrun, rfl, heq⟩ := t.runsBetween_eq_cons big hlt hhi
      have hstop := hrun.le_hi
      have hnext := hrun.lt
      rw [heq]
      exact hcons run hrun (ih (hi - run.stop) (by omega) hstop rfl)

theorem IsRun.runsBetween_eq_append (h : t.IsRun big lo hi run) (hhi : hi ≤ t.length) :
    ∃ before, t.runsBetween big lo hi = before ++ run :: t.runsBetween big run.stop hi := by
  have hlo := h.lo_le
  have hlt := h.lt
  have hstop := h.le_hi
  refine runsBetween_induction (P := fun lo runs => ∀ run, t.IsRun big lo hi run →
    ∃ before, runs = before ++ run :: t.runsBetween big run.stop hi) hhi (fun run h => ?_)
    (fun first hfirst ih run h => ?_) (by omega) run h
  · have := h.lo_le
    have := h.lt
    have := h.le_hi
    omega
  · by_cases hinside : run.start < first.stop
    · obtain rfl := h.eq_of_holds hfirst h.holds_start ⟨h.lo_le, hinside⟩
      exact ⟨[], rfl⟩
    · obtain ⟨before, heq⟩ := ih run (h.narrow (Nat.le_of_lt hfirst.lt) (Nat.le_of_not_lt hinside))
      exact ⟨first :: before, congrArg (first :: ·) heq⟩

/-- **The list holds the runs**, and nothing else. -/
theorem mem_runsBetween (hlo : lo ≤ hi) (hhi : hi ≤ t.length) :
    run ∈ t.runsBetween big lo hi ↔ t.IsRun big lo hi run := by
  constructor
  · refine runsBetween_induction (P := fun lo runs => run ∈ runs → t.IsRun big lo hi run) hhi
      (fun h => absurd h List.not_mem_nil) (fun first hfirst ih h => ?_) hlo
    rcases List.mem_cons.1 h with rfl | h
    · exact hfirst
    · exact hfirst.widen (ih h)
  · intro h
    obtain ⟨before, heq⟩ := h.runsBetween_eq_append hhi
    rw [heq]
    exact List.mem_append_right _ List.mem_cons_self

/-- **The list of a line's runs holds its runs**, and nothing else. -/
theorem mem_lineRuns {l : Nat} :
    run ∈ t.lineRuns big l ↔ t.IsRun big (t.lineStart l) (t.lineEnd l) run :=
  mem_runsBetween (t.lineStart_le_lineEnd l) (t.lineEnd_le_length l)

theorem isChain_runsBetween (big : Bool) (hlo : lo ≤ hi) (hhi : hi ≤ t.length) :
    (t.runsBetween big lo hi).IsChain Run.Meets := by
  refine runsBetween_induction (P := fun _ runs => runs.IsChain _) hhi .nil
    (fun run hrun ih => List.isChain_cons.2 ⟨fun next hnext => ?_, ih⟩) hlo
  rcases Nat.eq_or_lt_of_le hrun.le_hi with hend | hlt
  · rw [hend, runsBetween_self] at hnext
    cases hnext
  · obtain ⟨next', hrun', hstart, heq⟩ := t.runsBetween_eq_cons big hlt hhi
    rw [heq] at hnext
    cases hnext
    exact ⟨hstart.symm, (hrun.cls_ne hrun' hstart).symm⟩

theorem pairwise_runsBetween (big : Bool) (hlo : lo ≤ hi) (hhi : hi ≤ t.length) :
    (t.runsBetween big lo hi).Pairwise fun run next => run.stop ≤ next.start :=
  runsBetween_induction (P := fun _ runs => runs.Pairwise _) hhi .nil
    (fun _ hrun ih => List.pairwise_cons.2
      ⟨fun _ hnext => ((mem_runsBetween hrun.le_hi hhi).1 hnext).lo_le, ih⟩) hlo

theorem isChain_lineRuns (t : Text) (big : Bool) (l : Nat) : (t.lineRuns big l).IsChain Run.Meets :=
  isChain_runsBetween big (t.lineStart_le_lineEnd l) (t.lineEnd_le_length l)

theorem pairwise_lineRuns (t : Text) (big : Bool) (l : Nat) :
    (t.lineRuns big l).Pairwise fun run next => run.stop ≤ next.start :=
  pairwise_runsBetween big (t.lineStart_le_lineEnd l) (t.lineEnd_le_length l)

theorem nodup_lineRuns (t : Text) (big : Bool) (l : Nat) : (t.lineRuns big l).Nodup := by
  refine (t.pairwise_lineRuns big l).imp_of_mem fun hrun _ hstop heq => ?_
  have hlt := (mem_lineRuns.1 hrun).lt
  rw [← heq] at hstop
  omega

theorem length_runsBetween_le (big : Bool) (hlo : lo ≤ hi) (hhi : hi ≤ t.length) :
    (t.runsBetween big lo hi).length ≤ hi - lo := by
  refine runsBetween_induction (P := fun lo runs => runs.length ≤ hi - lo) hhi (Nat.zero_le _)
    (fun run hrun ih => ?_) hlo
  have hlt := hrun.lt
  have hle := hrun.le_hi
  rw [List.length_cons]
  omega

/-! ## The searches -/

theorem isRun_of_runWithin (hhi : hi ≤ t.length) (h : t.runWithin big lo hi i = some run) :
    t.IsRun big lo hi run ∧ run.Holds i := by
  obtain ⟨hstart, hle, hlt, hstop, -⟩ := runWithin_bounds h
  refine ⟨?_, hle, hlt⟩
  unfold runWithin at h
  split at h
  case isFalse => cases h
  case isTrue hwithin =>
    obtain ⟨cls, hcls, rfl⟩ := Option.map_eq_some_iff.1 h
    have hahead := stretch_takeWhile (t.take hi) big cls i
    have hbehind := stretch_takeWhile (t.slice lo i).reverse big cls 0
    have hlength := (List.takeWhile_sublist (CharClass.of big · == cls)
      (l := (t.slice lo i).reverse)).length_le
    rw [List.drop_zero, Nat.zero_add] at hbehind
    rw [List.length_reverse, length_slice, Nat.min_eq_left (by omega)] at hlength
    dsimp only at hstart hle hlt hstop ⊢
    rw [← slice] at hstart hle ⊢
    generalize ((t.slice lo i).reverse.takeWhile (CharClass.of big · == cls)).length = back at *
    generalize (((t.take hi).drop i).takeWhile (CharClass.of big · == cls)).length = ahead at *
    -- the characters behind the index, the nearest first
    have hreverse {n : Nat} (hn : n < i - lo) :
        classAt (t.slice lo i).reverse big n = t.classAt big (i - 1 - n) := by
      rw [classAt, classAt, getElem?_reverse_slice (by omega) hn]
    refine ⟨hstart, Nat.lt_of_le_of_lt hle hlt, hstop, fun k hk => ?_, ?_, ?_⟩
    · dsimp only [Run.Holds] at hk
      rcases Nat.lt_or_ge k i with hki | hki
      · have hsame := hbehind.same (i - 1 - k) (Nat.zero_le _) (by omega)
        rwa [hreverse (by omega), show i - 1 - (i - 1 - k) = k by omega] at hsame
      · rw [← classAt_take (Nat.lt_of_lt_of_le hk.2 hstop)]
        exact hahead.same k hki hk.2
    · refine (Nat.eq_or_lt_of_le hstart).imp Eq.symm fun hlate => ?_
      have hother := hbehind.stop
      rwa [hreverse (by omega), show i - 1 - back = i - back - 1 by omega] at hother
    · refine (Nat.eq_or_lt_of_le hstop).imp_right fun hearly => ?_
      dsimp only
      rw [← classAt_take hearly]
      exact hahead.stop

theorem exists_runInLine (big : Bool) (hlo : t.lineStart (t.lineOf i) ≤ i)
    (hhi : i < t.lineEnd (t.lineOf i)) : ∃ run, t.runInLine big i = some run := by
  have hend := t.lineEnd_le_length (t.lineOf i)
  obtain ⟨cls, hcls⟩ := exists_classAt big (Nat.lt_of_lt_of_le hhi hend)
  simp only [runInLine, runWithin, if_pos (And.intro hlo hhi), hcls]
  exact ⟨_, rfl⟩

/-- **The run of a line sought at an index is the run that holds it.** -/
theorem runInLine_eq_some_iff :
    t.runInLine big i = some run ↔ run ∈ t.lineRuns big (t.lineOf i) ∧ run.Holds i := by
  have hend := t.lineEnd_le_length (t.lineOf i)
  rw [mem_lineRuns]
  constructor
  · exact isRun_of_runWithin hend
  · rintro ⟨hrun, hholds⟩
    have hlo := Nat.le_trans hrun.lo_le hholds.1
    have hhi := Nat.lt_of_lt_of_le hholds.2 hrun.le_hi
    obtain ⟨found, hfound⟩ := exists_runInLine big hlo hhi
    obtain ⟨hrun', hholds'⟩ := isRun_of_runWithin hend hfound
    rw [hfound, hrun'.eq_of_holds hrun hholds' hholds]

theorem runInLine_eq_none (big : Bool) (h : ∀ c, t[i]? = some c → c = '\n') :
    t.runInLine big i = none := by
  refine if_neg fun hwithin => ?_
  obtain ⟨c, hget, hc⟩ := lt_lineEnd_lineOf_iff.1 hwithin.2
  exact hc (h c hget)

/-- Every character other than a line break is in a run, which stands in the list of its line's runs
before those that come after it. -/
theorem exists_lineRuns_eq_append (big : Bool) {c : Char} (hget : t[i]? = some c) (hc : c ≠ '\n') :
    ∃ before run, t.lineRuns big (t.lineOf i) =
        before ++ run :: t.runsBetween big run.stop (t.lineEnd (t.lineOf i)) ∧
      t.runInLine big i = some run := by
  have hend := lt_lineEnd_lineOf_iff.2 ⟨c, hget, hc⟩
  have hle := t.lineEnd_le_length (t.lineOf i)
  obtain ⟨run, hrun⟩ := exists_runInLine big (t.lineStart_lineOf_le i (by omega)) hend
  obtain ⟨before, heq⟩ := (isRun_of_runWithin hle hrun).1.runsBetween_eq_append hle
  exact ⟨before, run, heq, hrun⟩

/-- **The `n`-th run ahead of a run is the `n`-th of the list after it**, or the last one. -/
theorem getLast?_take_runs (big : Bool) (n : Nat) (run : Run) (cs : List Char) :
    ((run :: runsFrom big run.stop cs).take (n + 1)).getLast? = some (run.ahead big n cs) := by
  induction n generalizing run cs with
  | zero => rfl
  | succ n ih =>
    cases cs with
    | nil => rfl
    | cons c cs =>
      rw [runsFrom_cons, List.take_succ_cons, List.take_succ_cons, List.getLast?_cons_cons,
        ← List.take_succ_cons]
      exact ih ⟨run.stop, run.stop + runLength big (c :: cs), CharClass.of big c⟩ _

end Text

end ModalEdit
