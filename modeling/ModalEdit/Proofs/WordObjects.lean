import ModalEdit.Proofs.LineRuns

/-!
# The insides of words are the runs of a line

The inside of a word object is the run that holds the cursor and the runs after it, as many as the
count says or as the line has (`innerWord_runs`). So for a count of one the objects of a line are
its runs, which fall apart and leave nothing out.
-/

namespace ModalEdit

variable {t : Text} {big : Bool} {cls : CharClass} {i k n : Nat} {run : Run}

namespace TextObject

/-! ## Inside -/

theorem range_innerWord (n : Nat) (h : t.runInLine big i = some run) :
    ∃ last, ((run :: t.runsBetween big run.stop (t.lineEnd (t.lineOf i))).take (max n 1)).getLast? =
        some last ∧
      (word big).range t .inner n i = some (.exclusive run.start last.stop) := by
  obtain ⟨m, hm⟩ := Nat.exists_eq_add_of_le' (Nat.le_max_right n 1)
  refine ⟨_, hm ▸ Text.getLast?_take_runs big m run _, ?_⟩
  rw [range, Text.wordObject, h, hm]
  rfl

theorem range_innerWord_eq_none (h : t.runInLine big i = none) (n : Nat) :
    (word big).range t .inner n i = none := by
  rw [range, Text.wordObject, h]
  rfl

theorem range_innerWord_one_iff {start stop : Nat} :
    (word big).range t .inner 1 i = some (.exclusive start stop) ↔
      ∃ run, t.runInLine big i = some run ∧ run.start = start ∧ run.stop = stop := by
  cases h : t.runInLine big i with
  | none =>
    rw [range_innerWord_eq_none h]
    exact ⟨nofun, fun ⟨_, hrun, _⟩ => absurd hrun nofun⟩
  | some run =>
    have hone : (word big).range t .inner 1 i = some (.exclusive run.start run.stop) := by
      rw [range, Text.wordObject, h]
      rfl
    rw [hone]
    simp [Range.exclusive]

/-- **The insides of words are the runs of each line.** The runs of a line are listed in order, each
one starting where the one before it stops. On a character other than a line break, the inside of a
word object goes from the start of the run there to the end of the last of `n` runs, or of the
line's last one if there are fewer; off these characters there is none. So for a count of one the
objects of two cursors of a line are equal or apart, together they are the whole line, and no object
leaves its line. -/
theorem innerWord_runs (t : Text) (big : Bool) :
    (∀ l run, run ∈ t.lineRuns big l ↔ t.IsRun big (t.lineStart l) (t.lineEnd l) run) ∧
    (∀ l, (t.lineRuns big l).IsChain Run.Meets) ∧
    (∀ i c, t[i]? = some c → c ≠ '\n' → ∃ before run after,
      t.lineRuns big (t.lineOf i) = before ++ run :: after ∧ run.Holds i ∧
      ∀ n, 1 ≤ n → ∃ last, ((run :: after).take n).getLast? = some last ∧
        (word big).range t .inner n i = some (.exclusive run.start last.stop)) ∧
    (∀ i, (∀ c, t[i]? = some c → c = '\n') → ∀ n, (word big).range t .inner n i = none) ∧
    (∀ i j, t.lineOf i = t.lineOf j → ∀ a b c d,
      (word big).range t .inner 1 i = some (.exclusive a b) →
      (word big).range t .inner 1 j = some (.exclusive c d) → a = c ∧ b = d ∨ b ≤ c ∨ d ≤ a) ∧
    (∀ l ≤ t.lastLine, ∀ k, (∃ i a b, t.lineOf i = l ∧
      (word big).range t .inner 1 i = some (.exclusive a b) ∧ a ≤ k ∧ k < b) ↔
        t.lineStart l ≤ k ∧ k < t.lineEnd l) ∧
    ∀ i n a b, (word big).range t .inner n i = some (.exclusive a b) →
      t.lineStart (t.lineOf i) ≤ a ∧ b ≤ t.lineEnd (t.lineOf i) := by
  have hrun {i : Nat} {run : Run} (h : t.runInLine big i = some run) :
      t.IsRun big (t.lineStart (t.lineOf i)) (t.lineEnd (t.lineOf i)) run ∧ run.Holds i := by
    obtain ⟨hmem, hholds⟩ := Text.runInLine_eq_some_iff.1 h
    exact ⟨Text.mem_lineRuns.1 hmem, hholds⟩
  refine ⟨fun l run => Text.mem_lineRuns, t.isChain_lineRuns big, fun i c hget hc => ?_,
    fun i hoff n => ?_, fun i j hline a b c d hi hj => ?_, fun l hl k => ⟨?_, ?_⟩,
    fun i n a b h => ?_⟩
  · obtain ⟨before, run, heq, hfound⟩ := Text.exists_lineRuns_eq_append big hget hc
    refine ⟨before, run, _, heq, (hrun hfound).2, fun n hn => ?_⟩
    obtain ⟨last, hlast, hrange⟩ := range_innerWord n hfound
    rw [Nat.max_eq_left hn] at hlast
    exact ⟨last, hlast, hrange⟩
  · exact range_innerWord_eq_none (Text.runInLine_eq_none big hoff) n
  · obtain ⟨run, hfound, rfl, rfl⟩ := range_innerWord_one_iff.1 hi
    obtain ⟨other, hfound', rfl, rfl⟩ := range_innerWord_one_iff.1 hj
    refine ((hrun hfound).1.eq_or_apart (hline ▸ (hrun hfound').1)).imp_left ?_
    rintro rfl
    exact ⟨rfl, rfl⟩
  · rintro ⟨i, a, b, rfl, hi, hak, hkb⟩
    obtain ⟨run, hfound, rfl, rfl⟩ := range_innerWord_one_iff.1 hi
    have hlo := (hrun hfound).1.lo_le
    have hhi := (hrun hfound).1.le_hi
    omega
  · rintro ⟨hstart, hend⟩
    have hle := t.lineEnd_le_length l
    obtain rfl : t.lineOf k = l := (Text.lineOf_eq_iff hl (by omega)).2 ⟨hstart, by omega⟩
    obtain ⟨run, hfound⟩ := Text.exists_runInLine big hstart hend
    exact ⟨k, _, _, rfl, range_innerWord_one_iff.2 ⟨run, hfound, rfl, rfl⟩, (hrun hfound).2⟩
  · cases hfound : t.runInLine big i with
    | none =>
      rw [range_innerWord_eq_none hfound] at h
      cases h
    | some run =>
      obtain ⟨last, hlast, hrange⟩ := range_innerWord n hfound
      rw [hrange] at h
      cases h
      refine ⟨(hrun hfound).1.lo_le, ?_⟩
      -- the last run is the first one or comes after it
      rcases List.mem_cons.1 (List.mem_of_mem_take (List.mem_of_getLast? hlast)) with rfl | hafter
      · exact (hrun hfound).1.le_hi
      · exact ((Text.mem_runsBetween (hrun hfound).1.le_hi (t.lineEnd_le_length _)).1 hafter).le_hi

/-- A line of a word, a symbol and white space, and a line after it. -/
theorem innerWord_runs_two_lines :
    let t : Text := ['a', '.', ' ', '\n', 'b']
    t.IsRun false 0 3 ⟨1, 2, .symbol⟩ ∧
    (∃ before run after, t.lineRuns false 0 = before ++ run :: after ∧ run.Holds 1 ∧
      ∃ last, ((run :: after).take 5).getLast? = some last ∧
        (word false).range t .inner 5 1 = some (.exclusive run.start last.stop)) ∧
    (word false).range t .inner 1 3 = none ∧
    ∃ i a b, t.lineOf i = 0 ∧ (word false).range t .inner 1 i = some (.exclusive a b) ∧
      a ≤ 2 ∧ 2 < b := by
  intro t
  obtain ⟨hruns, -, hobject, hnone, -, hcover, -⟩ := innerWord_runs t false
  obtain ⟨before, run, after, hline, hholds, hcount⟩ := hobject 1 '.' rfl (by decide)
  exact ⟨(hruns 0 _).1 (by decide), ⟨before, run, after, hline, hholds, hcount 5 (by decide)⟩,
    hnone 3 (fun c hc => (Option.some.inj hc).symm) 1, (hcover 0 (by decide) 2).2 (by decide)⟩

end TextObject

end ModalEdit
