import ModalEdit.Proofs.OperatorMotions
import ModalEdit.Proofs.WordBoundaries

/-!
# Changing a word is changing to its end

From a character that is not white space, changing to the start of a word stops at the end of one.
It goes to the end of the run at the cursor first (`Text.runEndThenMore`), while the motion to the
end of a word steps from the cursor (`stepRepeat`). All steps after the first are the same.

**Inside a run** the first step leads to the end of that run as well, so the two stop at the same
character for every count (`runEndThenMore_of_not_endsWord`).

**At the end of a run** the run ends at the cursor, while the first step leads to the end of another
one. So changing a word is one word behind (`runEndThenMore_of_endsWord`).

Main result: `changes_word_to_end`.
-/

namespace ModalEdit

variable {t : Text} {big : Bool} {cls : CharClass} {c : Char} {n i j : Nat}

namespace Text

theorem Stretch.endsWord (h : t.Stretch big cls i j) (hij : i < j) (hne : cls ≠ .space) :
    t.EndsWord big (j - 1) := by
  refine ⟨cls, h.same (j - 1) (by omega) (by omega), hne, Or.inr ?_⟩
  rw [Nat.sub_add_cancel (by omega)]
  exact h.stop

theorem runLength_of_endsWord (h : t.EndsWord big i) : runLength big (t.drop i) = 1 := by
  obtain ⟨cls, hcls, -⟩ := id h
  obtain ⟨_, -, hlt, hrun⟩ := stretch_run big (lt_length_of_classAt hcls)
  by_contra hlong
  exact hrun.not_endsWord (Nat.le_refl i) (by omega) h

/-- From inside a run, the step to the end of a word leads to the end of that run. -/
theorem toNextEnd_of_not_endsWord (hcls : t.classAt big i = some cls) (hne : cls ≠ .space)
    (hinside : ¬t.EndsWord big i) :
    toNextEnd big (t.drop i) = some (runLength big (t.drop i) - 1) := by
  obtain ⟨cls', hcls', hlt, hrun⟩ := stretch_run big (lt_length_of_classAt hcls)
  obtain rfl : cls = cls' := Option.some.inj (hcls.symm.trans hcls')
  generalize runLength big (t.drop i) = length at hlt hrun
  have hends := hrun.endsWord hlt hne
  have hlong : length ≠ 1 := by
    rintro rfl
    exact hinside hends
  have hleast : IsLeast {k | i < k ∧ t.EndsWord big k} (i + length - 1) := by
    refine ⟨⟨by omega, hends⟩, fun k hk => Nat.le_of_not_lt fun hlt => ?_⟩
    exact hrun.not_endsWord (Nat.le_of_lt hk.1) (by omega) hk.2
  obtain ⟨k, hk, hkeq⟩ := Option.map_eq_some_iff.1 (((nextWordEnd_spec t big i).1 _).2 hleast)
  rw [hk]
  exact congrArg some (by omega)

theorem exists_toNextEnd (h : ∃ j, i < j ∧ t.EndsWord big j) :
    ∃ k, toNextEnd big (t.drop i) = some k := by
  obtain ⟨j, hij, hj⟩ := h
  cases hstep : toNextEnd big (t.drop i) with
  | some k => exact ⟨k, rfl⟩
  | none =>
    have hnone : t.nextWordEnd big i = none := by rw [nextWordEnd, hstep]; rfl
    exact absurd hj ((nextWordEnd_spec t big i).2.1 hnone j hij)

theorem runEndThenMore_of_lt (hi : i < t.length) (n : Nat) :
    t.runEndThenMore big n i =
      some (i + stepMore (toNextEnd big) (n - 1) (runLength big (t.drop i) - 1)
        ((t.drop i).drop (runLength big (t.drop i) - 1))) := by
  have hne : (t.drop i).isEmpty = false := by simp; omega
  simp only [runEndThenMore, hne, Bool.false_eq_true, if_false]

/-- **Inside a run** the two go on from the end of that run. -/
theorem runEndThenMore_of_not_endsWord (hcls : t.classAt big i = some cls) (hne : cls ≠ .space)
    (hinside : ¬t.EndsWord big i) (n : Nat) :
    t.runEndThenMore big n i =
      (stepRepeat (toNextEnd big) (max n 1) (t.drop i)).map (i + ·) := by
  have hcount : max n 1 - 1 = n - 1 := by omega
  rw [runEndThenMore_of_lt (lt_length_of_classAt hcls), stepRepeat,
    toNextEnd_of_not_endsWord hcls hne hinside, hcount]
  rfl

/-- **At the end of a run** one is a word behind the other. -/
theorem runEndThenMore_of_endsWord (hends : t.EndsWord big i)
    (hlater : ∃ j, i < j ∧ t.EndsWord big j) (hn : 1 ≤ n) :
    t.runEndThenMore big (n + 1) i =
      (stepRepeat (toNextEnd big) (max n 1) (t.drop i)).map (i + ·) := by
  obtain ⟨cls, hcls, -⟩ := id hends
  obtain ⟨k, hk⟩ := exists_toNextEnd hlater
  rw [runEndThenMore_of_lt (lt_length_of_classAt hcls), runLength_of_endsWord hends,
    Nat.sub_self, List.drop_zero, Nat.add_sub_cancel,
    stepMore_eq_getD (fun _ _ => toNextEnd_pos) hn, Nat.max_eq_left hn, stepRepeat, hk]
  rfl

theorem classAt_of_not_space (big : Bool) (hchar : t[i]? = some c)
    (hword : Unicode.isWhiteSpace c = false) :
    t.classAt big i = some (CharClass.of big c) ∧ CharClass.of big c ≠ .space := by
  refine ⟨by rw [classAt, hchar]; rfl, fun hspace => ?_⟩
  rw [CharClass.of_eq_space_iff, hword] at hspace
  cases hspace

theorem Stretch.not_space {k : Nat} {d : Char} (h : t.Stretch big cls i j) (hne : cls ≠ .space)
    (hik : i ≤ k) (hkj : k < j) (hd : t[k]? = some d) : Unicode.isWhiteSpace d = false := by
  refine Bool.eq_false_iff.2 fun hspace => hne ?_
  have hcls := h.same k hik hkj
  rw [classAt, hd, Option.map_some, (CharClass.of_eq_space_iff big d).2 hspace] at hcls
  exact (Option.some.inj hcls).symm

end Text

/-- The key of the motion to the start of a word. -/
def nextWordKey (big : Bool) : Char := if big then 'W' else 'w'

/-- The key of the motion to the end of a word. -/
def wordEndKey (big : Bool) : Char := if big then 'E' else 'e'

namespace Editor

variable {ed after : Editor} {w e : InputEvent}

theorem pressesMotion_nextWord (h : w.stroke? = some (.char (nextWordKey big))) :
    PressesMotion w (.nextWord big) :=
  ⟨⟨_, h, by cases big <;> rfl, by cases big <;> decide⟩, rfl⟩

theorem pressesMotion_wordEnd (h : e.stroke? = some (.char (wordEndKey big))) :
    PressesMotion e (.wordEnd big) :=
  ⟨⟨_, h, by cases big <;> rfl, by cases big <;> decide⟩, rfl⟩

section

variable (hchar : ed.host.text[ed.host.selection.active]? = some c)

include hchar

theorem active_lt : ed.host.selection.active < ed.host.text.length :=
  (List.getElem?_eq_some_iff.1 hchar).1

theorem min_active : min ed.host.selection.active ed.host.text.length = ed.host.selection.active :=
  Nat.min_eq_left (Nat.le_of_lt (active_lt hchar))

theorem givesRange_changeWord (hword : Unicode.isWhiteSpace c = false) (big : Bool) (n : Nat) :
    ed.GivesRange .change (.nextWord big) n
      ((ed.host.text.runEndThenMore big n ed.host.selection.active).map
        (.inclusive ed.host.selection.active)) := by
  intro s hs
  obtain ⟨-, pending, hpending, hop⟩ := Session.waiting_eq_some.1 hs
  have hchanging : s.input.operator.any (·.op == .change) = true := by simp [hpending, hop]
  have hcursor : ed.host.text[ed.host.selection.active]?.any (!Unicode.isWhiteSpace ·) = true := by
    simp [hchar, hword]
  rw [min_active hchar]
  simp only [Session.motionRange, hchanging, hcursor, and_self, if_true]

theorem givesRange_changeToEnd (big : Bool) (n : Nat) :
    ed.GivesRange .change (.wordEnd big) n
      (((stepRepeat (toNextEnd big) (max n 1)
        (ed.host.text.drop ed.host.selection.active)).map (ed.host.selection.active + ·)).map
        (.inclusive ed.host.selection.active)) := by
  intro s _
  rw [min_active hchar, Option.map_map]
  simp only [Session.motionRange, Motion.range, Position.ofIndex_index, min_active hchar]
  rfl

end

/-- The characters from the cursor up to `stop` were changed, and none of them is white space. -/
structure WordChanged (stop : Nat) (name : Char) (ed after : Editor) : Prop where
  lt_stop : ed.host.selection.active < stop
  not_space : ∀ k d, ed.host.selection.active ≤ k → k < stop → ed.host.text[k]? = some d →
    Unicode.isWhiteSpace d = false
  text : after.host.text = ed.host.text.splice ed.host.selection.active stop []
  registers : after.session.registers =
    ed.session.registers.write name ⟨false, ed.host.text.slice ed.host.selection.active stop⟩
  selection : after.host.selection = .cursor ed.host.selection.active
  mode : after.session.mode = .insert

theorem wordChanged_of_operated {name : Char} {cursor : Nat}
    (hchar : ed.host.text[ed.host.selection.active]? = some c)
    (hword : Unicode.isWhiteSpace c = false)
    (h : Operated .change (.inclusive ed.host.selection.active (ed.host.selection.active +
      (runLength big (ed.host.text.drop ed.host.selection.active) - 1))) name cursor ed after) :
    WordChanged (ed.host.selection.active +
      runLength big (ed.host.text.drop ed.host.selection.active)) name ed after := by
  have hactive := active_lt hchar
  obtain ⟨hcls, hne⟩ := Text.classAt_of_not_space big hchar hword
  obtain ⟨cls, hcls', hlt, hrun⟩ := Text.stretch_run big hactive
  obtain rfl : CharClass.of big c = cls := Option.some.inj (hcls.symm.trans hcls')
  have hstop := hrun.stop_le (Nat.le_of_lt hactive)
  generalize runLength big (ed.host.text.drop ed.host.selection.active) = length at *
  have hregion : Region.ofRange ed.host.text (.inclusive ed.host.selection.active
      (ed.host.selection.active + (length - 1))) =
      ⟨ed.host.selection.active, ed.host.selection.active + length, false, false⟩ := by
    simp only [Region.ofRange, Range.inclusive, Region.mk.injEq, and_true]
    omega
  have htaken := h.charsTaken (by decide) hregion hlt
  refine ⟨hlt, fun k d hk hkstop hd => hrun.not_space hne hk hkstop hd, htaken.text,
    htaken.registers, htaken.selection.trans ?_, htaken.mode⟩
  have hlength : ed.host.selection.active ≤ after.host.text.length := by
    rw [htaken.text, Text.length_splice]
    omega
  exact congrArg Selection.cursor (Nat.min_eq_left hlength)

/-- **Changing a word from a character that is not white space is changing to the end of it.**
Inside a run the two show the same for every count. At the end of a run, changing a word shows with
a count of one more what changing to the end of a word shows, if a word ends after the cursor. With
a count of one, changing a word changes the rest of the run, which is no white space, and at the end
of a run one character. -/
theorem changes_word_to_end (ed : Editor) (big : Bool) {c : Char}
    (hchar : ed.host.text[ed.host.selection.active]? = some c)
    (hword : Unicode.isWhiteSpace c = false) (w e : InputEvent)
    (hw : w.stroke? = some (.char (nextWordKey big)))
    (he : e.stroke? = some (.char (wordEndKey big))) (register : Option Char) :
    (¬ed.host.text.EndsWord big ed.host.selection.active →
      ∀ n before before', ed.TypesOperator before .change n register →
        ed.TypesOperator before' .change n register →
          SameView (ed.pressAll (before ++ [w])).2 (ed.pressAll (before' ++ [e])).2) ∧
    (ed.host.text.EndsWord big ed.host.selection.active →
      (∃ j, ed.host.selection.active < j ∧ ed.host.text.EndsWord big j) →
      ∀ n before before', 1 ≤ n → ed.TypesOperator before .change (n + 1) register →
        ed.TypesOperator before' .change n register →
          SameView (ed.pressAll (before ++ [w])).2 (ed.pressAll (before' ++ [e])).2) ∧
    (ed.host.Grants → ∀ before, ed.TypesOperator before .change 1 register →
      ∃ stop, WordChanged stop (register.getD Registers.unnamed) ed
          (ed.pressAll (before ++ [w])).2 ∧
        (ed.host.text.EndsWord big ed.host.selection.active →
          stop = ed.host.selection.active + 1)) := by
  obtain ⟨hcls, hne⟩ := Text.classAt_of_not_space big hchar hword
  have hrange := givesRange_changeWord hchar hword big
  -- changing a word is given one range, so each part compares it with another range
  refine ⟨fun hinside n before before' hbefore hbefore' => ?inside,
    fun hends hlater n before before' hn hbefore hbefore' => ?atEnd, fun hg before hbefore => ?one⟩
  case inside =>
    refine sameView_of_range hbefore hbefore' (pressesMotion_nextWord hw)
      (pressesMotion_wordEnd he) (hrange n) ?_
    rw [Text.runEndThenMore_of_not_endsWord hcls hne hinside]
    exact givesRange_changeToEnd hchar big n
  case atEnd =>
    refine sameView_of_range hbefore hbefore' (pressesMotion_nextWord hw)
      (pressesMotion_wordEnd he) (hrange (n + 1)) ?_
    rw [Text.runEndThenMore_of_endsWord hends hlater hn]
    exact givesRange_changeToEnd hchar big n
  case one =>
    have hone := hrange 1
    rw [Text.runEndThenMore_of_lt (active_lt hchar)] at hone
    refine ⟨_, wordChanged_of_operated hchar hword
      (operated_of_range hg hbefore (pressesMotion_nextWord hw) hone), fun hends => ?_⟩
    rw [Text.runLength_of_endsWord hends]

/-- In `ab cd`, two words from the `a` are changed as to the end of the second. From the `b` they
are changed as to the next end of a word, and one word is the `b` alone. -/
theorem changes_word_to_end_two_words :
    let first : Editor := ⟨Session.new .normal {} none, .ofText ['a', 'b', ' ', 'c', 'd'] 0⟩
    let last : Editor := ⟨Session.new .normal {} none, .ofText ['a', 'b', ' ', 'c', 'd'] 1⟩
    SameView (first.pressAll [.text '2', .text 'c', .text 'w']).2
        (first.pressAll [.text 'c', .text '2', .text 'e']).2 ∧
      SameView (last.pressAll [.text '2', .text 'c', .text 'w']).2
        (last.pressAll [.text 'c', .text 'e']).2 ∧
      WordChanged 2 Registers.unnamed last (last.pressAll [.text 'c', .text 'w']).2 := by
  intro first last
  have htwo : Input.Preface ['2'] (some 2) none := Input.preface_toDigits (n := 2) (by decide)
  have hinside : ¬first.host.text.EndsWord false 0 := by
    rintro ⟨cls, hcls, -, hlast | hafter⟩
    · exact absurd hlast (by decide)
    · exact hafter (hcls.symm.trans (by decide)).symm
  have hends : last.host.text.EndsWord false 1 := ⟨.text, by decide, by decide, Or.inr (by decide)⟩
  have hlater : last.host.text.EndsWord false 4 := ⟨.text, by decide, by decide, Or.inl rfl⟩
  obtain ⟨hfirst, -, -⟩ := changes_word_to_end first false (c := 'a') rfl (by decide) (.text 'w')
    (.text 'e') rfl rfl none
  obtain ⟨-, hlast, hone⟩ := changes_word_to_end last false (c := 'b') rfl (by decide) (.text 'w')
    (.text 'e') rfl rfl none
  obtain ⟨stop, hchanged, hstop⟩ := hone ⟨rfl, rfl, rfl⟩ [.text 'c']
    (typesOperator_keys rfl .nil .nil .change rfl)
  obtain rfl := hstop hends
  exact ⟨hfirst hinside 2 [.text '2', .text 'c'] [.text 'c', .text '2']
      (typesOperator_keys rfl htwo .nil .change rfl) (typesOperator_keys rfl .nil htwo .change rfl),
    hlast hends ⟨4, by decide, hlater⟩ 1 [.text '2', .text 'c'] [.text 'c'] (by decide)
      (typesOperator_keys rfl htwo .nil .change rfl) (typesOperator_keys rfl .nil .nil .change rfl),
    hchanged⟩

end Editor

end ModalEdit
