import ModalEdit.Proofs.ChangingWords

/-!
# Deleting a word and the line break after it

Deleting to the start of the next word takes what is before that word, whatever lines it is on. Only
where the word begins in column 0 of a later line is the line break right before it left in place
(`Region.exclusiveStop_eq`).

So on the last word of a line, the line break is kept if the next line begins with a word, or if no
word follows at all. If the next word is indented, its indentation and the line break before it are
deleted and the two lines are joined; and where empty lines or lines of white space come between,
all their line breaks but at most one are deleted with them (`deleted_word_lines`).
-/

namespace ModalEdit

variable {t : Text} {big : Bool} {cls : CharClass} {c : Char} {i j next stop : Nat}

namespace Text

theorem lineCount_splice_nil (hij : i ≤ j) :
    (t.splice i j []).lineCount + t.lineOf j = t.lineCount + t.lineOf i := by
  have hcount := congrArg (List.count '\n') (List.take_append_drop j t)
  rw [List.count_append] at hcount
  simp only [lineCount, lineOf, splice, Nat.max_eq_right hij, List.nil_append, List.count_append]
  omega

theorem le_lineEnd_lineOf_iff (hij : i ≤ j) (hj : j ≤ t.length) :
    j ≤ t.lineEnd (t.lineOf i) ↔ t.lineOf j = t.lineOf i := by
  have hstart := t.lineStart_lineOf_le i (Nat.le_trans hij hj)
  rw [lineOf_eq_iff (t.lineOf_le_lastLine i) hj]
  exact (and_iff_right (Nat.le_trans hstart hij)).symm

theorem ne_newline_of_not_space (hchar : t[i]? = some c) (hword : Unicode.isWhiteSpace c = false) :
    t[i]? ≠ some '\n' := by
  rw [hchar]
  rintro ⟨⟩
  rw [Unicode.isWhiteSpace_newline] at hword
  cases hword

theorem Stretch.lineOf_eq (h : t.Stretch big cls i j) (hne : cls ≠ .space) (hi : i ≤ t.length) :
    t.lineOf j = t.lineOf i := by
  have hj := h.stop_le hi
  refine (le_lineEnd_lineOf_iff h.le hj).1 (Nat.le_of_not_lt fun hend => ?_)
  have hlast : t.lineOf i < t.lastLine := by
    refine Nat.lt_of_le_of_ne (t.lineOf_le_lastLine i) fun hlast => ?_
    rw [hlast, lineEnd_lastLine] at hend
    omega
  have hbreak := getElem?_lineEnd hlast
  have hword := h.not_space hne (le_lineEnd_lineOf hi) hend hbreak
  exact ne_newline_of_not_space hbreak hword hbreak

theorem nextWordStart_of_word (hcls : t.classAt big i = some cls) (hne : cls ≠ .space) :
    ∃ next, t.nextWordStart big i = some next ∧ i < next ∧ next ≤ t.length ∧
      (IsLeast {k | i < k ∧ t.StartsWord big k} next ∨
        (∀ k, i < k → ¬t.StartsWord big k) ∧ t.Stretch big cls i next) := by
  have hi := lt_length_of_classAt hcls
  obtain ⟨next, hnext, hleast, hlast⟩ := nextWordStart_spec big hi
  refine ⟨next, hnext, ?_⟩
  by_cases hfollows : ∃ k, i < k ∧ t.StartsWord big k
  · have hleast := hleast hfollows
    obtain ⟨⟨hlt, cls', hstarts, -⟩, -⟩ := id hleast
    exact ⟨hlt, Nat.le_of_lt (lt_length_of_classAt hstarts), .inl hleast⟩
  · have hnone : ∀ k, i < k → ¬t.StartsWord big k := fun k hk hstarts => hfollows ⟨k, hk, hstarts⟩
    have hrun := hlast hnone cls hcls
    rw [if_neg hne] at hrun
    have hstops : i ≠ next := fun heq => hrun.stop (heq ▸ hcls)
    exact ⟨Nat.lt_of_le_of_ne hrun.le hstops, hrun.stop_le (Nat.le_of_lt hi), .inr ⟨hnone, hrun⟩⟩

theorem lineCount_eq_iff {after : Text} (hij : i ≤ j) (hj : j ≤ t.length)
    (hafter : after = t.splice i j []) :
    after.lineCount = t.lineCount ∧ j ≤ t.lineEnd (t.lineOf i) ↔ t.lineOf j = t.lineOf i := by
  have hcount := lineCount_splice_nil (t := t) hij
  rw [le_lineEnd_lineOf_iff hij hj, hafter]
  exact ⟨fun h => h.2, fun h => ⟨by omega, h⟩⟩

theorem lineEnd_before (hstart : t.lineStart (t.lineOf j) = j) (hline : i < t.lineOf j) :
    t.lineEnd (t.lineOf j - 1) + 1 = j := by
  have hlast := t.lineOf_le_lastLine j
  have hbreak := lineStart_succ (t := t) (l := t.lineOf j - 1) (by omega)
  rw [Nat.sub_add_cancel (by omega), hstart] at hbreak
  exact hbreak.symm

end Text

namespace Region

/-- **The rule for line breaks.** An exclusive range stops before the line break if it ends where a
later line starts, and nowhere else. -/
theorem exclusiveStop_eq (hlt : i < j) (hj : j ≤ t.length) :
    exclusiveStop t i j =
      if t.lineOf i < t.lineOf j ∧ t.lineStart (t.lineOf j) = j then j - 1 else j := by
  have hstart := t.lineStart_lineOf_le j hj
  have hcol : j - t.lineStart (t.lineOf j) = 0 ↔ t.lineStart (t.lineOf j) = j := by omega
  simp only [exclusiveStop, Position.ofIndex_eq, Nat.min_eq_left hj, hcol, hlt, true_and]
  by_cases hlater : t.lineOf i < t.lineOf j ∧ t.lineStart (t.lineOf j) = j
  · have hbreak := Text.lineEnd_before hlater.2 hlater.1
    rw [if_pos hlater, if_pos hlater.symm]
    omega
  · rw [if_neg hlater, if_neg fun h => hlater h.symm]

theorem lt_exclusiveStop (hlt : i < j) (hj : j ≤ t.length) (hi : t[i]? ≠ some '\n') :
    i < exclusiveStop t i j := by
  rw [exclusiveStop_eq hlt hj]
  split
  · rename_i hlater
    have hlast := t.lineOf_le_lastLine j
    have hbreak := Text.lineEnd_before hlater.2 hlater.1
    refine Nat.lt_of_le_of_ne (by omega) fun heq => hi ?_
    rw [heq, ← hbreak, Nat.add_sub_cancel]
    exact Text.getElem?_lineEnd (by omega)
  · exact hlt

theorem lineOf_exclusiveStop_iff (hlt : i < j) (hj : j ≤ t.length) :
    t.lineOf (exclusiveStop t i j) = t.lineOf i ↔
      t.lineOf j = t.lineOf i ∨ j = t.lineStart (t.lineOf i + 1) := by
  have hlast := t.lineOf_le_lastLine j
  have hmono := t.lineOf_mono (Nat.le_of_lt hlt)
  have hnextLine (hline : t.lineOf i < t.lastLine) (hstart : j = t.lineStart (t.lineOf i + 1)) :
      t.lineOf j = t.lineOf i + 1 := by
    rw [hstart, Text.lineOf_lineStart hline]
  rw [exclusiveStop_eq hlt hj]
  by_cases hlater : t.lineOf i < t.lineOf j ∧ t.lineStart (t.lineOf j) = j
  · obtain ⟨hline, hstart⟩ := hlater
    have hbreak := Text.lineEnd_before hstart hline
    have hbefore : t.lineOf (j - 1) = t.lineOf j - 1 := by
      rw [show j - 1 = t.lineEnd (t.lineOf j - 1) by omega, Text.lineOf_lineEnd (by omega)]
    rw [if_pos ⟨hline, hstart⟩, hbefore]
    constructor
    · intro h
      right
      rw [← hstart, show t.lineOf j = t.lineOf i + 1 by omega]
    · rintro (h | h)
      · omega
      · have hnext := hnextLine (by omega) h
        omega
  · rw [if_neg hlater]
    refine ⟨Or.inl, fun h => h.elim id fun hstart => ?_⟩
    by_contra hne
    have hnext := hnextLine (by omega) hstart
    exact hlater ⟨by omega, by rw [hnext, ← hstart]⟩

theorem ofRange_exclusive (hlt : i < j) (hj : j ≤ t.length) :
    ofRange t (.exclusive i j) = ⟨i, exclusiveStop t i j, false, false⟩ := by
  have hstart : min (min i j) t.length = i := by omega
  have hstop : min (max i j) t.length = j := by omega
  simp only [ofRange, Range.exclusive, hstart, hstop]

end Region

namespace Editor

variable {ed : Editor} {w : InputEvent}

theorem givesRange_deleteWord (hchar : ed.host.text[ed.host.selection.active]? = some c)
    (hnext : ed.host.text.nextWordStart big ed.host.selection.active = some next) :
    ed.GivesRange .delete (.nextWord big) 1 (some (.exclusive ed.host.selection.active next)) := by
  intro s hs
  obtain ⟨-, pending, hpending, hop⟩ := Session.waiting_eq_some.1 hs
  have hchanging : s.input.operator.any (·.op == .change) = false := by simp [hpending, hop]
  obtain ⟨k, hk, rfl⟩ := Option.map_eq_some_iff.1 hnext
  simp only [Session.motionRange, hchanging, Bool.false_eq_true, false_and, if_false, Motion.range,
    Position.ofIndex_index, min_active hchar, Nat.max_self, stepRepeat_one, hk, Option.map_some]

/-- **A deleted word goes up to the next one**, or up to the line break before that if it begins in
column 0 of a later line. Where no word follows, the rest of the run goes. The lines are kept, and
all that goes is on the cursor's line, exactly if the next word is on that line or where the line
after it starts, or if there is none. -/
theorem deleted_word_lines (ed : Editor) (big : Bool) {c : Char}
    (hchar : ed.host.text[ed.host.selection.active]? = some c)
    (hword : Unicode.isWhiteSpace c = false) (hg : ed.host.Grants) (w : InputEvent)
    (hw : w.stroke? = some (.char (nextWordKey big))) (register : Option Char)
    (before : List InputEvent) (hbefore : ed.TypesOperator before .delete 1 register) :
    ∃ stop, CharsTaken .delete ed.host.selection.active stop (register.getD Registers.unnamed) ed
        (ed.pressAll (before ++ [w])).2 ∧
      (∀ next, IsLeast {k | ed.host.selection.active < k ∧ ed.host.text.StartsWord big k} next →
        stop =
          if ed.host.text.lineOf ed.host.selection.active < ed.host.text.lineOf next ∧
              ed.host.text.lineStart (ed.host.text.lineOf next) = next then next - 1
          else next) ∧
      ((∀ k, ed.host.selection.active < k → ¬ed.host.text.StartsWord big k) →
        ed.host.text.Stretch big (CharClass.of big c) ed.host.selection.active stop) ∧
      ((ed.pressAll (before ++ [w])).2.host.text.lineCount = ed.host.text.lineCount ∧
          stop ≤ ed.host.text.lineEnd (ed.host.text.lineOf ed.host.selection.active) ↔
        ∀ next, IsLeast {k | ed.host.selection.active < k ∧ ed.host.text.StartsWord big k} next →
          ed.host.text.lineOf next = ed.host.text.lineOf ed.host.selection.active ∨
            next = ed.host.text.lineStart
              (ed.host.text.lineOf ed.host.selection.active + 1)) := by
  have hactive := Nat.le_of_lt (active_lt hchar)
  obtain ⟨hcls, hne⟩ := Text.classAt_of_not_space big hchar hword
  -- the motion leads to the next word, or past the rest of the run
  obtain ⟨next, hnext, hlt, hle, hcases⟩ := Text.nextWordStart_of_word hcls hne
  have hstop := Region.lt_exclusiveStop hlt hle (Text.ne_newline_of_not_space hchar hword)
  have hoperated := operated_of_range hg hbefore (pressesMotion_nextWord hw)
    (givesRange_deleteWord hchar hnext)
  have htaken := hoperated.charsTaken (by decide) (Region.ofRange_exclusive hlt hle) hstop
  have hlength := (Region.exclusiveStop_le _ (Nat.le_of_lt hlt) hle).2
  have hlines := (Text.lineCount_eq_iff (Nat.le_of_lt hstop) hlength htaken.text).trans
    (Region.lineOf_exclusiveStop_iff hlt hle)
  refine ⟨_, htaken, fun next' hnext' => ?upToNext, fun hnone => ?restOfRun,
    hlines.trans ?keepsLines⟩
  case upToNext =>
    rcases hcases with hleast | ⟨hnone, -⟩
    · rw [hnext'.unique hleast, Region.exclusiveStop_eq hlt hle]
    · exact absurd hnext'.1.2 (hnone _ hnext'.1.1)
  case restOfRun =>
    rcases hcases with hleast | ⟨-, hrun⟩
    · exact absurd hleast.1.2 (hnone _ hleast.1.1)
    · have hline := hrun.lineOf_eq hne hactive
      rw [Region.exclusiveStop_eq hlt hle, hline, if_neg fun h => absurd h.1 (Nat.lt_irrefl _)]
      exact hrun
  case keepsLines =>
    rcases hcases with hleast | ⟨hnone, hrun⟩
    · exact ⟨fun h next' hnext' => hnext'.unique hleast ▸ h, fun h => h next hleast⟩
    · exact ⟨fun _ next' hnext' => absurd hnext'.1.2 (hnone _ hnext'.1.1),
        fun _ => Or.inl (hrun.lineOf_eq hne hactive)⟩

/-- The next line begins with a word, so deleting the only word before it keeps the line break. -/
theorem deleted_word_lines_kept :
    let ed : Editor := ⟨Session.new .normal {} none, .ofText ['a', '\n', 'b'] 0⟩
    ed.TypesOperator [.text 'd'] .delete 1 none ∧
      (ed.pressAll [.text 'd', .text 'w']).2.host.text.lineCount = ed.host.text.lineCount ∧
      ∃ stop ≤ 1, (ed.pressAll [.text 'd', .text 'w']).2.host.text =
        ed.host.text.splice 0 stop [] := by
  intro ed
  have hbefore : ed.TypesOperator [.text 'd'] .delete 1 none :=
    typesOperator_keys rfl .nil .nil .delete rfl
  have hstarts : ed.host.text.StartsWord false 2 :=
    ⟨.text, by decide, by decide, Or.inr (by decide)⟩
  have hnext : ∀ next, IsLeast {k | 0 < k ∧ ed.host.text.StartsWord false k} next → next = 2 := by
    rintro next ⟨⟨hlt, cls, hcls, hne, -⟩, hleast⟩
    have hle : next ≤ 2 := hleast ⟨by decide, hstarts⟩
    have hspace : next ≠ 1 := by
      rintro rfl
      exact hne (Option.some.inj (hcls.symm.trans (by decide)))
    omega
  have hdeleted := deleted_word_lines ed false (c := 'a') rfl (by decide) ⟨rfl, rfl, rfl⟩
    (.text 'w') rfl none [.text 'd'] hbefore
  rw [List.singleton_append] at hdeleted
  obtain ⟨stop, htaken, -, -, hlines⟩ := hdeleted
  obtain ⟨hcount, hstop⟩ := hlines.2 fun next h => Or.inr ((hnext next h).trans (by decide))
  exact ⟨hbefore, hcount, stop, hstop.trans (by decide), htaken.text⟩

/-- The next line is indented, and is joined to what is left of the line of the deleted word. -/
theorem deleted_word_joins_lines :
    let ed : Editor := ⟨Session.new .normal {} none, .ofText ['a', '\n', ' ', 'b'] 0⟩
    let after := (ed.pressAll [.text 'd', .text 'w']).2
    ed.Ready ∧ ed.host.text[ed.host.selection.active]? = some 'a' ∧ after.host.text = ['b'] ∧
      after.host.text.lineCount ≠ ed.host.text.lineCount :=
  ⟨⟨rfl, rfl, ⟨rfl, rfl, rfl⟩⟩, by decide, by decide, by decide⟩

end Editor

end ModalEdit
