import ModalEdit.Mark
import ModalEdit.Proofs.Batches

/-!
# Marks follow a batch of changes

A batch of changes comes with the positions its changes had in the text before it, in any order, and
no two of them overlap (`Change.Batch`). What becomes of a mark is said by four laws
(`Change.Follows`): it is dropped just if a change replaced the place it stands at, it stays where
it is if it stands before every change, it keeps its line and its character if no change touches its
line, and in any case it ends up at a position of the new text.

A change adds as many lines before the mark as its edit gains line breaks (`addedBefore_eq`), so the
law for an untouched line is the law of the batch of edits (`Edit.applyAll_untouched`) counted in
lines and in characters at once.
-/

namespace ModalEdit

namespace Change

variable {c : Change} {changes : List Change} {t after : Text} {p : Position}

/-- The ends of the change are positions of the text, in their order. -/
structure IsOf (c : Change) (t : Text) : Prop where
  start : c.start.IsOf t
  stop : c.stop.IsOf t
  ends : c.start.index ≤ c.stop.index

/-- The edit that the change reports. -/
def edit (c : Change) : Edit := ⟨c.start.index, c.stop.index, c.text⟩

/-- Changes of one text that do not overlap, and the text they left. -/
structure Batch (changes : List Change) (t after : Text) : Prop where
  isOf : ∀ c ∈ changes, c.IsOf t
  disjoint : changes.Pairwise fun c d => c.edit.Disjoint d.edit
  leave : Edit.Leave (changes.map edit) t after

/-- What becomes of a position under changes. -/
structure Follows (changes : List Change) (t after : Text) (p : Position)
    (found : Option Position) : Prop where
  /-- It is dropped just if it lies in a stretch that was replaced. -/
  dropped : found = none ↔ ∃ c ∈ changes, c.start.place ≤ p.place ∧ p.place < c.stop.place
  /-- Before every change it stays. -/
  stays : (∀ c ∈ changes, p.place < c.start.place) → found = some p
  /-- On a line that no change touches it stays with its line and its character, as many characters
  further on as the changes before it gain. -/
  keepsLine : (∀ c ∈ changes, ¬ (c.start.line ≤ p.line ∧ p.line ≤ c.stop.line)) →
    ∃ q, found = some q ∧ q.col = p.col ∧ after.line q.line = t.line p.line ∧
      after[q.index]? = t[p.index]? ∧
      (q.index : Int) = p.index + Edit.gainBefore List.length t p.index (changes.map edit)
  /-- Where it ends up is a position of the new text. -/
  isOf : ∀ q, found = some q → q.IsOf after

theorem edit_change {e : Edit} (h : e.Within t.length) : (e.change t).edit = e := by
  obtain ⟨hends, hstop⟩ := h
  simp [edit, Edit.change, Nat.max_eq_right hends, Nat.min_eq_left hstop,
    Nat.min_eq_left (Nat.le_trans hends hstop)]

theorem IsOf.within (h : c.IsOf t) : c.edit.Within t.length := ⟨h.ends, h.stop.index_le⟩

/-- **Changes that do not overlap** are a batch to some text. -/
theorem exists_batch (hisOf : ∀ c ∈ changes, c.IsOf t)
    (hdisjoint : changes.Pairwise fun c d => c.edit.Disjoint d.edit) :
    ∃ after, Batch changes t after := by
  have hends : ∀ e ∈ changes.map edit, e.start ≤ e.stop :=
    List.forall_mem_map.2 fun c hc => (hisOf c hc).ends
  obtain ⟨ordered, hperm, hordered⟩ :=
    Edit.exists_ordered hends (List.pairwise_map.2 hdisjoint)
  exact ⟨_, hisOf, hdisjoint, ordered, hperm, hordered, rfl⟩

theorem Batch.exists_edits (h : Batch changes t after) :
    ∃ ordered : List Edit, ordered.Perm (changes.map edit) ∧ Edit.Ordered ordered ∧
      (∀ e ∈ ordered, e.Within t.length) ∧ after = Edit.applyAll t ordered := by
  obtain ⟨ordered, hperm, hordered, hafter⟩ := h.leave
  refine ⟨ordered, hperm, hordered, fun e he => ?_, hafter⟩
  obtain ⟨c, hc, rfl⟩ := List.mem_map.1 (hperm.mem_iff.1 he)
  exact (h.isOf c hc).within

/-! ## Lines added before a position -/

theorem count_slice {i j : Nat} (hij : i ≤ j) :
    ((t.slice i j).count '\n' : Int) = t.lineOf j - t.lineOf i := by
  have hcount := congrArg (List.count '\n') (Text.take_eq_append_of_le hij t)
  rw [List.count_append] at hcount
  simp only [Text.lineOf, Text.slice]
  omega

theorem addedLines_eq (h : c.IsOf t) : c.addedLines = c.edit.gain (List.count '\n') t := by
  rw [addedLines, Edit.gain, edit, count_slice h.ends, h.start.line_eq, h.stop.line_eq]

/-- **The lines that changes add before a position** are those their edits gain before it. -/
theorem addedBefore_eq (h : ∀ c ∈ changes, c.IsOf t) (hp : p.IsOf t) :
    addedBefore p changes =
      Edit.gainBefore (List.count '\n') t p.index (changes.map edit) := by
  induction changes with
  | nil => rfl
  | cons c changes ih =>
    have hc := h c List.mem_cons_self
    have hrest := ih fun d hd => h d (List.mem_cons_of_mem c hd)
    have hbefore := Position.before_iff hp hc.stop
    simp only [addedBefore, Edit.gainBefore, List.map_cons, List.foldr_cons] at hrest ⊢
    rw [hrest, shiftOf, addedLines_eq hc]
    congr 1
    by_cases hstop : p.index < c.stop.index
    · rw [if_pos (hbefore.2 hstop), if_neg (show ¬ c.edit.stop ≤ p.index from Nat.not_le.2 hstop)]
    · rw [if_neg (mt hbefore.1 hstop),
        if_pos (show c.edit.stop ≤ p.index from Nat.le_of_not_lt hstop)]

theorem addedBefore_perm {changes' : List Change} (h : changes'.Perm changes) :
    addedBefore p changes' = addedBefore p changes :=
  h.foldr_eq' (fun c _ d _ n => by omega) 0

theorem covers_iff : c.covers p = true ↔ c.start.place ≤ p.place ∧ p.place < c.stop.place := by
  rw [covers, Bool.and_eq_true, Bool.not_eq_true', ← Bool.not_eq_true, Position.before_iff_place,
    Position.before_iff_place, not_lt]

end Change

open Change

namespace Position

variable {changes : List Change} {t after : Text} {p : Position}

theorem afterChanges_of_not_covers (h : ∀ c ∈ changes, c.covers p = false) :
    p.afterChanges after changes =
      some (ofLineCol after (p.line + addedBefore p changes).toNat p.col) := by
  rw [afterChanges, if_neg]
  simpa using h

theorem afterChanges_before (h : Batch changes t after) (hp : p.IsOf t)
    (hbefore : ∀ c ∈ changes, p.place < c.start.place) : p.afterChanges after changes = some p := by
  have hstart : ∀ c ∈ changes, p.index < c.start.index := fun c hc =>
    (before_iff hp (h.isOf c hc).start).1 ((before_iff_place _ _).2 (hbefore c hc))
  have hcovers : ∀ c ∈ changes, c.covers p = false := by
    intro c hc
    simp [covers, (before_iff_place _ _).2 (hbefore c hc)]
  have hadded : addedBefore p changes = 0 := by
    rw [addedBefore_eq h.isOf hp]
    refine Edit.gainBefore_eq_zero (List.forall_mem_map.2 fun c hc => ?_)
    exact Nat.lt_of_lt_of_le (hstart c hc) (h.isOf c hc).ends
  obtain ⟨ordered, hperm, -, -, rfl⟩ := h.exists_edits
  have htake : (Edit.applyAll t ordered).take p.index = t.take p.index := by
    refine Edit.take_applyAll (fun e he => ?_) hp.index_le
    obtain ⟨c, hc, rfl⟩ := List.mem_map.1 (hperm.mem_iff.1 he)
    exact Nat.le_of_lt (hstart c hc)
  have hafter : p.IsOf (Edit.applyAll t ordered) := by
    rw [IsOf, ofIndex_eq_of_take_eq htake]
    exact hp
  rw [afterChanges_of_not_covers hcovers, hadded, Int.add_zero, Int.toNat_natCast,
    hafter.ofLineCol_eq]

theorem afterChanges_untouched (h : Batch changes t after) (hp : p.IsOf t)
    (havoids : ∀ c ∈ changes, ¬ (c.start.line ≤ p.line ∧ p.line ≤ c.stop.line)) :
    ∃ q, p.afterChanges after changes = some q ∧ q.col = p.col ∧
      after.line q.line = t.line p.line ∧ after[q.index]? = t[p.index]? ∧
      (q.index : Int) = p.index + Edit.gainBefore List.length t p.index (changes.map edit) := by
  have hcovers : ∀ c ∈ changes, c.covers p = false := by
    intro c hc
    refine Bool.eq_false_iff.2 fun hcovers => havoids c hc ?_
    simp only [covers, before, Bool.and_eq_true, Bool.not_eq_true', Bool.or_eq_false_iff,
      Bool.or_eq_true, Bool.and_eq_false_iff, decide_eq_true_eq, decide_eq_false_iff_not,
      beq_iff_eq] at hcovers
    omega
  obtain ⟨ordered, hperm, hordered, hwithin, rfl⟩ := h.exists_edits
  have havoidsOrdered : ∀ e ∈ ordered, e.Avoids t p.line := by
    intro e he
    obtain ⟨c, hc, rfl⟩ := List.mem_map.1 (hperm.mem_iff.1 he)
    have hline := havoids c hc
    rw [(h.isOf c hc).start.line_eq, (h.isOf c hc).stop.line_eq] at hline
    simp only [Edit.Avoids, edit]
    omega
  -- the batch leaves whole lines above and the rest from the line of the position on
  obtain ⟨above, rest, hafter, hbreaks, hgain, hrest⟩ :=
    Edit.applyAll_untouched hp.index_le hp.line_eq.symm hordered hwithin havoidsOrdered
  have hlast := hp.line_le
  have hline : rest.line 0 = t.line p.line := by
    have hlines := Text.takeWhile_eq_of_take_eq (t := rest) (u := t.drop (t.lineStart p.line)) hrest
    rwa [Text.line, Text.lineStart_zero, List.drop_zero]
  -- what the changes before the position gain, in lines and in characters
  have hlines : (p.line + addedBefore p changes).toNat = above.length := by
    have hcount := hgain (List.count '\n') fun _ _ => List.count_append
    have hstart : (t.take (t.lineStart p.line)).count '\n' = p.line := Text.lineOf_lineStart hlast
    rw [Text.count_ofLines hbreaks, hstart, Edit.gainBefore_perm hperm,
      ← addedBefore_eq h.isOf hp] at hcount
    omega
  have hlength : ((Text.ofLines above).length : Int) = t.lineStart p.line +
      Edit.gainBefore List.length t p.index (changes.map edit) := by
    have hcount := hgain List.length fun _ _ => List.length_append
    rwa [List.length_take_of_le (t.lineStart_le_length _), Edit.gainBefore_perm hperm] at hcount
  have hcol : p.col ≤ (rest.line 0).length := hline ▸ hp.col_le
  have hchar : rest[p.col]? = (t.drop (t.lineStart p.line))[p.col]? := by
    have hlt : p.col < t.lineLength p.line + 1 := Nat.lt_succ_of_le hp.col_le
    rw [← List.getElem?_take_of_lt hlt, hrest, List.getElem?_take_of_lt hlt]
  rw [afterChanges_of_not_covers hcovers, hlines, hafter, ofLineCol_ofLines_append hbreaks hcol]
  refine ⟨_, rfl, rfl, (Text.line_ofLines_append hbreaks rest).trans hline, ?_, ?_⟩
  · rw [List.getElem?_append_right (Nat.le_add_right _ _), Nat.add_sub_cancel_left, hchar,
      List.getElem?_drop, ← hp.index_eq]
  · have hindex := hp.index_eq
    dsimp only
    omega

/-- **What becomes of a position under a batch of changes.** -/
theorem follows_afterChanges (h : Batch changes t after) (hp : p.IsOf t) :
    Follows changes t after p (p.afterChanges after changes) where
  dropped := by
    rw [afterChanges]
    split
    case isTrue hany => simpa [covers_iff] using hany
    case isFalse hany => simpa [covers_iff] using hany
  stays := afterChanges_before h hp
  keepsLine := afterChanges_untouched h hp
  isOf := by
    intro q hq
    rw [afterChanges] at hq
    split at hq
    case isTrue => cases hq
    case isFalse =>
      cases hq
      exact isOf_ofLineCol _ _ _

theorem afterChanges_perm {changes' : List Change} (h : changes'.Perm changes) :
    p.afterChanges after changes' = p.afterChanges after changes := by
  rw [afterChanges, afterChanges, addedBefore_perm h, h.any_eq]

theorem forIn_covers {step : Change → Option (Option Position) × Unit →
      Except Index.Fault (ForInStep (Option (Option Position) × Unit))}
    (h : ∀ c ∈ changes, step c (none, ()) =
      .ok (if c.covers p then .done (some none, ()) else .yield (none, ()))) :
    forIn changes (none, ()) step =
      .ok (if changes.any (·.covers p) then some none else none, ()) := by
  induction changes with
  | nil => rfl
  | cons c changes ih =>
    have hrest := ih fun d hd => h d (List.mem_cons_of_mem c hd)
    rw [List.forIn_cons, h c List.mem_cons_self, List.any_cons]
    cases c.covers p
    · exact hrest
    · rfl

/-- **Counting the lines of a change faults nowhere**, because no change ends before its start. -/
theorem afterChangesChecked_eq_ok (h : ∀ c ∈ changes, c.IsOf t) :
    p.afterChangesChecked after changes = .ok (p.afterChanges after changes) := by
  rw [afterChangesChecked, forIn_covers (p := p), afterChanges]
  · cases changes.any (·.covers p) <;> rfl
  · intro c hc
    have hlines : c.start.line ≤ c.stop.line := by
      rw [(h c hc).start.line_eq, (h c hc).stop.line_eq]
      exact t.lineOf_mono (h c hc).ends
    cases c.covers p
    · cases p.before c.stop
      · simp [Index.sub_eq_ok hlines]
      · rfl
    · rfl

end Position

namespace Marks

variable {marks : Marks} {changes : List Change} {t after : Text} {p : Position} {name : Char}

theorem get?_applyChanges (hchanges : changes ≠ []) :
    (marks.applyChanges after changes).get? name =
      (marks.get? name).bind (·.afterChanges after changes) := by
  rw [applyChanges, if_neg (by simpa using hchanges)]
  exact Named.get?_filterMap (·.afterChanges after changes) marks name

theorem applyChanges_perm {changes' : List Change} (h : changes'.Perm changes) :
    marks.applyChanges after changes' = marks.applyChanges after changes := by
  rw [applyChanges, applyChanges, h.isEmpty_eq]
  simp only [Position.afterChanges_perm h]

theorem applyChangesChecked_eq_ok (h : ∀ c ∈ changes, c.IsOf t) :
    marks.applyChangesChecked after changes = .ok (marks.applyChanges after changes) := by
  have hloop : ∀ entries : List (Char × Position), (forIn entries () fun entry _ => do
      let _ ← entry.2.afterChangesChecked after changes
      pure (ForInStep.yield ())) = Except.ok () := by
    intro entries
    induction entries with
    | nil => rfl
    | cons entry entries ih =>
      rw [List.forIn_cons, Position.afterChangesChecked_eq_ok h]
      exact ih
  rw [applyChangesChecked]
  rw [hloop]
  rfl

/-- **Marks follow a batch of changes**, whatever the order of the changes. -/
theorem follow_changes (marks : Marks) (h : Batch changes t after) :
    marks.applyChangesChecked after changes = .ok (marks.applyChanges after changes) ∧
      (∀ name p, marks.get? name = some p → p.IsOf t →
        Follows changes t after p ((marks.applyChanges after changes).get? name)) ∧
      ∀ changes' : List Change, changes'.Perm changes →
        marks.applyChanges after changes' = marks.applyChanges after changes := by
  refine ⟨applyChangesChecked_eq_ok h.isOf, fun name p hname hp => ?_,
    fun changes' => applyChanges_perm⟩
  have hfollows := Position.follows_afterChanges h hp
  rcases eq_or_ne changes [] with rfl | hchanges
  · rw [Position.afterChanges_before h hp (by simp)] at hfollows
    show Follows [] t after p (marks.get? name)
    rwa [hname]
  · rw [get?_applyChanges hchanges, hname]
    exact hfollows

/-- A line opened below the first one and the second one emptied, reported from the last one on. -/
theorem follow_changes_reversed :
    let t : Text := ['a', 'b', '\n', 'c', 'd', '\n', 'e', 'f']
    let after : Text := ['a', 'b', '\n', 'x', '\n', '\n', 'e', 'f']
    let changes : List Change :=
      [⟨.ofIndex t 3, .ofIndex t 5, []⟩, ⟨.ofIndex t 2, .ofIndex t 2, ['\n', 'x']⟩]
    let marks : Marks :=
      ((Named.empty.set 'c' (.ofIndex t 7)).set 'b' (.ofIndex t 4)).set 'a' (.ofIndex t 1)
    Batch changes t after ∧
      (marks.applyChanges after changes).get? 'a' = some (.ofIndex t 1) ∧
      (marks.applyChanges after changes).get? 'b' = none ∧
      ∃ q, (marks.applyChanges after changes).get? 'c' = some q ∧ q.col = 1 ∧
        after.line q.line = ['e', 'f'] ∧ q.index = 7 := by
  intro t after changes marks
  have hbatch : Batch changes t after := by
    refine ⟨?_, ?_, ⟨[⟨2, 2, ['\n', 'x']⟩, ⟨3, 5, []⟩], ?_, ?_, rfl⟩⟩
    · refine List.forall_mem_cons.2 ⟨?_, List.forall_mem_cons.2 ⟨?_, by simp⟩⟩
      · exact ⟨rfl, rfl, by decide⟩
      · exact ⟨rfl, rfl, by decide⟩
    · exact List.pairwise_pair.2 (.inr (by decide))
    · exact .swap _ _ _
    · exact List.pairwise_pair.2 (by decide)
  have hfollow := (follow_changes marks hbatch).2.1
  obtain ⟨q, hq, hcol, hline, -, hindex⟩ :=
    (hfollow 'c' (.ofIndex t 7) rfl rfl).keepsLine (by decide)
  refine ⟨hbatch, (hfollow 'a' (.ofIndex t 1) rfl rfl).stays (by decide),
    (hfollow 'b' (.ofIndex t 4) rfl rfl).dropped.2 (by decide), q, hq, hcol, hline, ?_⟩
  have hgain : Edit.gainBefore List.length t 7 (changes.map Change.edit) = 0 := by decide
  have hmark : (Position.ofIndex t 7).index = 7 := rfl
  rw [hmark, hgain] at hindex
  omega

end Marks

end ModalEdit
