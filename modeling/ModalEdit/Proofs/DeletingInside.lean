import ModalEdit.Proofs.BracketObjects
import ModalEdit.Proofs.CountedMotions
import ModalEdit.Proofs.DeletingWords
import ModalEdit.Proofs.Splices

/-!
# Deleting inside brackets again

Deleting inside brackets leaves them with nothing between, or with a single line break. Then there
is nothing to delete, since a range that ends in column 0 stops before the line break, and the
cursor is still on the pair. So deleting again changes nothing (`types_deleteEmptied`).

Brackets around whole lines are the exception. Only the lines between them go, and what is left is
an empty block: a line break and the indentation of the second bracket. An empty block is not around
whole lines, so its inside is these characters, and deleting again joins the two brackets, unless
the second one is in column 0 (`deleted_inside_again`). After that nothing is left to delete.
-/

namespace ModalEdit

variable {opening closing : Char} {t : Text} {i j k l m left right : Nat}

/-- The two characters are brackets of one kind: they are different, and neither breaks a line or
indents one. -/
structure BracketKind (opening closing : Char) : Prop where
  ne : opening ≠ closing
  opening_breaks : opening ≠ '\n'
  closing_breaks : closing ≠ '\n'
  opening_blank : Text.isBlank opening = false
  closing_blank : Text.isBlank closing = false

theorem TextObject.bracketKind {key : Char} (h : ofKey key = some (.bracket opening closing)) :
    BracketKind opening closing := by
  unfold ofKey at h
  split at h <;> cases h <;> exact ⟨by decide, by decide, by decide, by decide, by decide⟩

namespace Text

/-! ## Line breaks and indentation -/

theorem lineOf_succ_of_break (h : t[i]? = some '\n') : t.lineOf (i + 1) = t.lineOf i + 1 := by
  simp [lineOf, List.take_add_one, h]

theorem lineOf_succ_of_ne (h : t[i]? ≠ some '\n') : t.lineOf (i + 1) = t.lineOf i := by
  cases hc : t[i]? with
  | none => simp [lineOf, List.take_add_one, hc]
  | some c =>
    have hne : c ≠ '\n' := fun hbreak => h (by rw [hc, hbreak])
    simp [lineOf, List.take_add_one, hc, hne]

theorem lineStart_of_break (h : t[i]? = some '\n') : t.lineStart (t.lineOf i + 1) = i + 1 := by
  have hi := (List.getElem?_eq_some_iff.1 h).1
  have hnext := t.lineOf_le_lastLine (i + 1)
  rw [lineOf_succ_of_break h] at hnext
  have hend : t.lineEnd (t.lineOf i) = i := by
    refine Nat.le_antisymm (Nat.le_of_not_lt fun hlt => ?_) (le_lineEnd_lineOf (Nat.le_of_lt hi))
    obtain ⟨c, hc, hne⟩ := lt_lineEnd_lineOf_iff.1 hlt
    exact hne (Option.some.inj (hc.symm.trans h))
  rw [lineStart_succ hnext, hend]

theorem firstNonBlank_eq (t : Text) (l : Nat) :
    t.firstNonBlank l =
      t.lineStart l + min ((t.line l).takeWhile isBlank).length (t.lastColumn l) := by
  have hindent : ((t.line l).takeWhile isBlank).length ≤ t.lineLength l :=
    (List.takeWhile_sublist isBlank).length_le
  simp only [firstNonBlank, lastColumn, lineEnd_eq]
  split <;> omega

theorem isBlank_of_lt_firstNonBlank (hstart : t.lineStart l ≤ k) (hk : k < t.firstNonBlank l) :
    ∃ c, t[k]? = some c ∧ isBlank c = true := by
  obtain ⟨n, rfl⟩ := Nat.exists_eq_add_of_le hstart
  have hindent : n < ((t.line l).takeWhile isBlank).length := by
    rw [firstNonBlank_eq] at hk
    omega
  have hline : n < t.lineLength l :=
    Nat.lt_of_lt_of_le hindent (List.takeWhile_sublist isBlank).length_le
  obtain ⟨rest, hrest⟩ := List.takeWhile_prefix isBlank (l := t.line l)
  have hget : (t.line l)[n]? = ((t.line l).takeWhile isBlank)[n]? :=
    (congrArg (·[n]?) hrest.symm).trans (List.getElem?_append_left hindent)
  rw [List.getElem?_eq_getElem hindent] at hget
  refine ⟨_, (getElem?_lineStart_add hline).trans hget, ?_⟩
  exact List.all_eq_true.1 (List.all_takeWhile (p := isBlank)) _ (List.getElem_mem hindent)

theorem firstNonBlank_of_line_eq {u : Text} (h : u.line m = t.line l) :
    u.firstNonBlank m + t.lineStart l = t.firstNonBlank l + u.lineStart m := by
  simp only [firstNonBlank_eq, lastColumn, lineLength, h]
  omega

end Text

theorem Region.exclusiveStop_cases (hij : i ≤ j) (hj : j ≤ t.length) :
    exclusiveStop t i j = j ∨
      i < j ∧ exclusiveStop t i j = j - 1 ∧ t[j - 1]? = some '\n' := by
  rcases Nat.eq_or_lt_of_le hij with rfl | hlt
  · exact Or.inl (if_neg fun h => Nat.lt_irrefl _ h.1)
  · rw [exclusiveStop_eq hlt hj]
    split
    · rename_i hlater
      have hlast := t.lineOf_le_lastLine j
      have hbefore := Text.lineEnd_before hlater.2 hlater.1
      have hbreak := Text.getElem?_lineEnd (t := t) (l := t.lineOf j - 1) (by omega)
      rw [show t.lineEnd (t.lineOf j - 1) = j - 1 by omega] at hbreak
      exact Or.inr ⟨hlt, rfl, hbreak⟩
    · exact Or.inl rfl

namespace Text

/-! ## Emptied pairs -/

theorem innermost_of_plain (hne : opening ≠ closing) (hlt : left < right)
    (hopens : t[left]? = some opening) (hcloses : t[right]? = some closing)
    (hplain : ∀ k, left < k → k < right → t[k]? ≠ some opening ∧ t[k]? ≠ some closing)
    (hleft : left ≤ i) (hright : i ≤ right) : t.Innermost opening closing i left right := by
  have hstep (n : Nat) (hn : left + 1 + n ≤ right) :
      t.depth opening closing (left + 1 + n) = t.depth opening closing (left + 1) := by
    induction n with
    | zero => rfl
    | succ n ih =>
      obtain ⟨hopens', hcloses'⟩ := hplain (left + 1 + n) (by omega) (by omega)
      rcases t.depth_succ_cases opening closing (left + 1 + n) with hsame | h | h
      · exact hsame.trans (ih (by omega))
      · exact absurd h hopens'
      · exact absurd h hcloses'
  have hlevel (k : Nat) (hk : left < k) (hkr : k ≤ right) :
      t.depth opening closing k = t.depth opening closing (left + 1) := by
    obtain ⟨n, rfl⟩ := Nat.exists_eq_add_of_le (Nat.succ_le_of_lt hk)
    exact hstep n hkr
  have hpairs : t.Pairs opening closing left right := by
    refine pairs_iff.2 ⟨hlt, hopens, hcloses, hlevel right hlt (Nat.le_refl _), ?_⟩
    intro k hk hkr
    exact Int.le_of_eq (hlevel k hk hkr).symm
  refine hpairs.innermost hleft hright ?_ hne
  intro left' right' h hlate hearly _
  exact (hplain left' hlate (Nat.lt_trans h.lt hearly)).1 h.opens

/-- Between the two brackets there is nothing, or a single line break. -/
structure Emptied (t : Text) (opening closing : Char) (left right : Nat) : Prop where
  opens : t[left]? = some opening
  closes : t[right]? = some closing
  between : right = left + 1 ∨ right = left + 2 ∧ t[left + 1]? = some '\n'

/-- **Taking out what is inside a pair empties it.** -/
theorem Pairs.emptied (h : t.Pairs opening closing left right) :
    (t.splice (left + 1) (Region.exclusiveStop t (left + 1) right) []).Emptied opening closing left
      (left + 1 + (right - Region.exclusiveStop t (left + 1) right)) := by
  have hright := (List.getElem?_eq_some_iff.1 h.closes).1
  have hlt := h.lt
  have hlength : left + 1 ≤ t.length := by omega
  obtain ⟨hle, -⟩ := Region.exclusiveStop_le t (Nat.succ_le_of_lt hlt) (Nat.le_of_lt hright)
  have hcases := Region.exclusiveStop_cases (Nat.succ_le_of_lt hlt) (Nat.le_of_lt hright)
  generalize Region.exclusiveStop t (left + 1) right = stop at hle hcases
  have hstop : stop ≤ right := by omega
  refine ⟨?_, ?_, ?_⟩
  · rw [getElem?_splice_of_lt hlength (Nat.lt_succ_self left)]
    exact h.opens
  · rw [getElem?_splice_add hle hlength, Nat.add_sub_cancel' hstop]
    exact h.closes
  · rcases hcases with rfl | ⟨-, rfl, hbreak⟩
    · exact Or.inl (by omega)
    · refine Or.inr ⟨by omega, ?_⟩
      rw [← hbreak]
      exact getElem?_splice_add hle hlength 0

/-- **Between the brackets there is nothing to take**: a line break there is left alone. -/
theorem Emptied.exclusiveStop_eq (h : t.Emptied opening closing left right) :
    Region.exclusiveStop t (left + 1) right = left + 1 := by
  have hright := (List.getElem?_eq_some_iff.1 h.closes).1
  rcases h.between with rfl | ⟨rfl, hbreak⟩
  · exact if_neg fun hlt => Nat.lt_irrefl _ hlt.1
  · have hnext : t.lineOf (left + 2) = t.lineOf (left + 1) + 1 := lineOf_succ_of_break hbreak
    have hstart : t.lineStart (t.lineOf (left + 2)) = left + 2 := by
      rw [hnext]
      exact lineStart_of_break hbreak
    rw [Region.exclusiveStop_eq (show left + 1 < left + 2 by omega) (Nat.le_of_lt hright),
      if_pos ⟨by omega, hstart⟩]
    rfl

section

variable (hkind : BracketKind opening closing)

include hkind

theorem Emptied.innermost (h : t.Emptied opening closing left right) (hleft : left ≤ i)
    (hright : i ≤ right) : t.Innermost opening closing i left right := by
  have hbetween := h.between
  refine innermost_of_plain hkind.ne (by omega) h.opens h.closes ?_ hleft hright
  intro k hk hkr
  obtain rfl : k = left + 1 := by omega
  obtain ⟨-, hbreak⟩ := hbetween.resolve_left (by omega)
  rw [hbreak]
  exact ⟨fun h => hkind.opening_breaks (Option.some.inj h).symm,
    fun h => hkind.closing_breaks (Option.some.inj h).symm⟩

theorem lineOf_after_opening (h : t[left]? = some opening) :
    t.lineOf (left + 1) = t.lineOf left := by
  refine lineOf_succ_of_ne ?_
  rw [h]
  exact fun hbreak => hkind.opening_breaks (Option.some.inj hbreak)

theorem Emptied.not_aroundLines (h : t.Emptied opening closing left right) :
    ¬t.AroundLines left right := by
  intro hlines
  have hbelow := hlines.below
  have hopening := lineOf_after_opening hkind h.opens
  rcases h.between with rfl | ⟨rfl, hbreak⟩
  · omega
  · have hnext : t.lineOf (left + 2) = t.lineOf (left + 1) + 1 := lineOf_succ_of_break hbreak
    omega

theorem Emptied.restingIndex_mem (h : t.Emptied opening closing left right) (hleft : left ≤ i)
    (hright : i ≤ right) : left ≤ t.restingIndex i ∧ t.restingIndex i ≤ right := by
  have hlength := (List.getElem?_eq_some_iff.1 h.closes).1
  rcases restingIndex_cases (t := t) (i := i) (by omega) with hstays | ⟨hpos, hback, -⟩
  · omega
  · have hopening : t.restingIndex left = left :=
      IsNormal.restingIndex_eq (Or.inl ⟨_, h.opens, hkind.opening_breaks⟩)
    have hne : i ≠ left := by
      rintro rfl
      omega
    omega

/-! ## Empty blocks -/

omit hkind in
/-- A block with no lines in it: the first bracket ends its line, and the second one is the first
character of the next line that is no blank. -/
structure EmptyBlock (t : Text) (opening closing : Char) (left right : Nat) : Prop where
  opens : t[left]? = some opening
  closes : t[right]? = some closing
  breaks : t[left + 1]? = some '\n'
  first : t.firstNonBlank (t.lineOf left + 1) = right

theorem lineStart_below_opening (h : t[left]? = some opening) (hbreak : t[left + 1]? = some '\n') :
    t.lineStart (t.lineOf left + 1) = left + 2 ∧ t.lineOf (left + 2) = t.lineOf left + 1 := by
  rw [← lineOf_after_opening hkind h]
  exact ⟨lineStart_of_break hbreak, lineOf_succ_of_break hbreak⟩

theorem EmptyBlock.lineOf_right (h : t.EmptyBlock opening closing left right) :
    left + 2 ≤ right ∧ t.lineOf right = t.lineOf left + 1 := by
  obtain ⟨hstart, hline⟩ := lineStart_below_opening hkind h.opens h.breaks
  have hlast := t.lineOf_le_lastLine (left + 2)
  have hfirst := h.first
  rw [firstNonBlank_eq, hstart] at hfirst
  refine ⟨by omega, ?_⟩
  rw [← h.first, lineOf_firstNonBlank (by omega)]

theorem EmptyBlock.innermost (h : t.EmptyBlock opening closing left right) :
    t.Innermost opening closing right left right := by
  obtain ⟨hstart, -⟩ := lineStart_below_opening hkind h.opens h.breaks
  obtain ⟨hle, -⟩ := h.lineOf_right hkind
  refine innermost_of_plain hkind.ne (by omega) h.opens h.closes ?_ (by omega) (Nat.le_refl right)
  intro k hk hkr
  rcases Nat.eq_or_lt_of_le (Nat.succ_le_of_lt hk) with rfl | hindent
  · rw [h.breaks]
    exact ⟨fun hc => hkind.opening_breaks (Option.some.inj hc).symm,
      fun hc => hkind.closing_breaks (Option.some.inj hc).symm⟩
  · obtain ⟨c, hc, hblank⟩ := isBlank_of_lt_firstNonBlank (t := t) (l := t.lineOf left + 1)
      (k := k) (by omega) (by rw [h.first]; exact hkr)
    rw [hc]
    constructor
    · rintro ⟨rfl⟩
      exact absurd hblank (by rw [hkind.opening_blank]; nofun)
    · rintro ⟨rfl⟩
      exact absurd hblank (by rw [hkind.closing_blank]; nofun)

theorem EmptyBlock.not_aroundLines (h : t.EmptyBlock opening closing left right) :
    ¬t.AroundLines left right := by
  intro hlines
  have hbelow := hlines.below
  obtain ⟨-, hline⟩ := h.lineOf_right hkind
  omega

/-- **Inside an empty block is the indentation of the second bracket**, with the line break before
it, and nothing if that bracket is in column 0. -/
theorem EmptyBlock.exclusiveStop_eq (h : t.EmptyBlock opening closing left right) :
    Region.exclusiveStop t (left + 1) right = if right = left + 2 then left + 1 else right := by
  have hright := (List.getElem?_eq_some_iff.1 h.closes).1
  have hopening := lineOf_after_opening hkind h.opens
  obtain ⟨hstart, -⟩ := lineStart_below_opening hkind h.opens h.breaks
  obtain ⟨hle, hline⟩ := h.lineOf_right hkind
  rw [Region.exclusiveStop_eq (show left + 1 < right by omega) (Nat.le_of_lt hright), hopening,
    hline, hstart]
  by_cases hindent : right = left + 2
  · rw [if_pos hindent, if_pos ⟨by omega, hindent.symm⟩]
    omega
  · rw [if_neg hindent, if_neg fun hcolumn => hindent hcolumn.2.symm]

/-- **Taking out the lines of a block leaves an empty one.** -/
theorem AroundLines.emptyBlock (h : t.AroundLines left right)
    (hpairs : t.Pairs opening closing left right) :
    left + 2 ≤ t.lineStart (t.lineOf right) ∧ t.lineStart (t.lineOf right) ≤ right ∧
      (t.splice (left + 2) (t.lineStart (t.lineOf right)) []).EmptyBlock opening closing left
        (left + 2 + (right - t.lineStart (t.lineOf right))) := by
  have hright := (List.getElem?_eq_some_iff.1 hpairs.closes).1
  have hlength := (List.getElem?_eq_some_iff.1 h.breaks).1
  have hle : left + 2 ≤ t.lineStart (t.lineOf right) := by
    rw [← (lineStart_below_opening hkind hpairs.opens h.breaks).1]
    exact lineStart_mono (Nat.le_of_lt h.below) (t.lineOf_le_lastLine right)
  have hstart := t.lineStart_lineOf_le right (Nat.le_of_lt hright)
  generalize hu : t.splice (left + 2) (t.lineStart (t.lineOf right)) [] = u
  have hopens : u[left]? = some opening := by
    rw [← hu, getElem?_splice_of_lt hlength (by omega)]
    exact hpairs.opens
  have hbreaks : u[left + 1]? = some '\n' := by
    rw [← hu, getElem?_splice_of_lt hlength (by omega)]
    exact h.breaks
  refine ⟨hle, hstart, hopens, ?_, hbreaks, ?_⟩
  · rw [← hu, getElem?_splice_add hle hlength, Nat.add_sub_cancel' hstart]
    exact hpairs.closes
  · -- the line of the second bracket is as it was, and starts where the lines did
    obtain ⟨hbelow, -⟩ := lineStart_below_opening hkind hopens hbreaks
    have hline : u.line (u.lineOf left + 1) = t.line (t.lineOf right) := by
      rw [line, hbelow, ← hu, drop_splice_nil hle hlength, line]
    have hfirst := firstNonBlank_of_line_eq hline
    rw [h.first, hbelow] at hfirst
    omega

theorem AroundLines.regionBetween (h : t.AroundLines left right)
    (hpair : t.Pairs opening closing left right) :
    ∃ range, t.linesBetween left right = some range ∧
      Region.ofRange t range = ⟨left + 2, t.lineStart (t.lineOf right), true, false⟩ := by
  obtain ⟨range, hbetween, hextent, htouches⟩ := linesBetween_eq_some h
  refine ⟨range, hbetween, ?_⟩
  obtain ⟨hbelow, -⟩ := lineStart_below_opening hkind hpair.opens h.breaks
  have hlast := t.lineOf_le_lastLine right
  have hlines := h.below
  have hends := range.firstLine_le_finalLine t
  have hfirst := (htouches (range.firstLine t)).1 ⟨Nat.le_refl _, hends⟩
  have hfinal := (htouches (range.finalLine t)).1 ⟨hends, Nat.le_refl _⟩
  have hfirst' := (htouches (t.lineOf left + 1)).2 (by omega)
  have hfinal' := (htouches (t.lineOf right - 1)).2 (by omega)
  rw [Region.ofRange_of_lt hextent (by omega),
    show range.firstLine t = t.lineOf left + 1 by omega,
    show range.finalLine t + 1 = t.lineOf right by omega, hbelow]

end

end Text

/-! ## Deleting -/

namespace Editor

variable {ed after : Editor} {key : Char} {range : Range}

/-- The keys that delete inside an object. -/
def deleteInside (key : Char) : List Stroke :=
  [.char 'd', .char 'i', .char key]

theorem types_deleteInside (h : ed.Ready) {o : TextObject} (hkey : TextObject.ofKey key = some o)
    (hrange : o.range ed.host.text .inner 1
      (min ed.host.selection.active ed.host.text.length) = some range) :
    Types ed (deleteInside key) fun after => after.Ready ∧
      Operated .delete range Registers.unnamed
        (min ed.host.selection.active ed.host.text.length) ed after := by
  have hkeys : ObjectKeys ['i', key] o .inner := .inner hkey
  have hcursor : (ed.withInput (.pending .delete none none)).session.cursor ed.host.text
      ed.host.selection = min ed.host.selection.active ed.host.text.length := Session.cursor_eq rfl
  have hoperates : (ed.withInput (.pending .delete none none)).session.Operates ed.host.text
      ed.host.selection (.object o .inner 1) .delete range := .object rfl (hcursor ▸ hrange)
  obtain ⟨since, hplan⟩ := hoperates.plan fun _ => rfl
  obtain ⟨column, hcommit⟩ := (ed.withInput (.pending .delete none none)).session.planOperator_eq
    ed.host.text ed.host.selection .delete range since
  rw [hcommit, hcursor] at hplan
  have hobject : Types (ed.withInput (.pending .delete none none)) (['i', key].map .char)
      fun after => after.Ready ∧ Operated .delete range Registers.unnamed
        (min ed.host.selection.active ed.host.text.length) ed after :=
    types_completes (Input.completes_objectKeys hkeys)
      (ends_execute_ready h rfl rfl hplan fun after hafter hready => ⟨hready, column, hafter⟩)
  exact (types_operator h .delete Count.spelled_nil).append fun _ hed => hed ▸ hobject

theorem Operated.charsDeleted {name : Char} {cursor start stop : Nat}
    (h : Operated .delete range name cursor ed after)
    (hregion : Region.ofRange ed.host.text range = ⟨start, stop, false, false⟩)
    (hle : start ≤ stop) :
    after.host.text = ed.host.text.splice start stop [] ∧
      after.host.selection = .cursor (after.host.text.restingIndex
        (if start = stop then cursor else start)) := by
  obtain ⟨column, h⟩ := h
  rw [hregion] at h
  have hop : Operator.delete ≠ .yank := nofun
  have htext : after.host.text = ed.host.text.splice start stop [] := by
    rw [h.text]
    exact Operator.apply_edit_chars hop hle _
  refine ⟨htext, ?_⟩
  rw [h.selection, Commit.cursor]
  by_cases hvoid : start = stop
  · simp [Operator.commit, Operator.landing, Operator.rest, Rest.place, Landing.resolve,
      Region.isVoid, Region.isEmpty, hvoid]
  · simp [Operator.commit, Operator.landing, Operator.rest, Rest.place, Landing.resolve,
      Region.isVoid, Region.isEmpty, hvoid]

theorem Operated.linesDeleted {name : Char} {cursor start stop : Nat}
    (h : Operated .delete range name cursor ed after)
    (hregion : Region.ofRange ed.host.text range = ⟨start, stop, true, false⟩)
    (hstart : 0 < start) :
    after.host.text = ed.host.text.splice start stop [] ∧
      after.host.selection = .cursor (after.host.text.restingIndex (after.host.text.firstNonBlank
        (min (ed.host.text.lineOf start) after.host.text.lastLine))) := by
  obtain ⟨column, h⟩ := h
  rw [hregion] at h
  have hvoid : Region.isVoid ⟨start, stop, true, false⟩ = false := by
    simp [Region.isVoid, hstart]
  constructor
  · rw [h.text]
    simp only [Operator.commit, Operator.edit, hvoid]
    rfl
  · rw [h.selection, Commit.cursor]
    simp [Operator.commit, Operator.landing, Operator.rest, Rest.place, Landing.resolve, hvoid]

/-- The cursor is in a pair of brackets with nothing to delete inside. -/
structure InEmptied (opening closing : Char) (left : Nat) (ed : Editor) : Prop where
  ready : ed.Ready
  emptied : ∃ right i, ed.host.text.Emptied opening closing left right ∧
    ed.host.selection = .cursor i ∧ left ≤ i ∧ i ≤ right

section

variable (hkey : TextObject.ofKey key = some (.bracket opening closing))

include hkey

/-- **Deleting inside brackets that are not around whole lines empties them.** -/
theorem types_deleteCharsInside (h : ed.Ready)
    (hpair : ed.host.text.Innermost opening closing
      (min ed.host.selection.active ed.host.text.length) left right)
    (hlines : ¬ed.host.text.AroundLines left right) :
    Types ed (deleteInside key) fun after =>
      after.host.text = ed.host.text.splice (left + 1)
        (Region.exclusiveStop ed.host.text (left + 1) right) [] ∧
      after.InEmptied opening closing left := by
  have hkind := TextObject.bracketKind hkey
  have hright := (List.getElem?_eq_some_iff.1 hpair.pairs.closes).1
  have hlt := hpair.pairs.lt
  have hrange : (TextObject.bracket opening closing).range ed.host.text .inner 1
      (min ed.host.selection.active ed.host.text.length) = some (.exclusive (left + 1) right) := by
    simp only [TextObject.range, (Text.bracketPairAt_eq_some_iff hkind.ne).2 hpair,
      Option.map_some, Text.linesBetween_eq_none hlines]
    rfl
  have hregion : Region.ofRange ed.host.text (.exclusive (left + 1) right) =
      ⟨left + 1, Region.exclusiveStop ed.host.text (left + 1) right, false, false⟩ := by
    have hstart : min (min (left + 1) right) ed.host.text.length = left + 1 := by omega
    have hstop : min (max (left + 1) right) ed.host.text.length = right := by omega
    simp only [Region.ofRange, Range.exclusive, hstart, hstop]
  have hemptied := hpair.pairs.emptied
  obtain ⟨hle, -⟩ := Region.exclusiveStop_le ed.host.text (Nat.succ_le_of_lt hlt)
    (Nat.le_of_lt hright)
  intro events hevents
  obtain ⟨hready, hoperated⟩ := types_deleteInside h hkey hrange events hevents
  obtain ⟨htext, hselection⟩ := hoperated.charsDeleted hregion hle
  rw [← htext] at hemptied
  refine ⟨htext, hready, _, _, hemptied, hselection, ?_⟩
  refine hemptied.restingIndex_mem hkind ?_ ?_
  · have hleft := hpair.left_le
    split <;> omega
  · have hcursor := hpair.le_right
    split <;> omega

/-- **Deleting inside emptied brackets changes nothing.** -/
theorem types_deleteEmptied (h : ed.InEmptied opening closing left) :
    Types ed (deleteInside key) fun after =>
      after.host.text = ed.host.text ∧ after.InEmptied opening closing left := by
  have hkind := TextObject.bracketKind hkey
  obtain ⟨right, i, hemptied, hselection, hleft, hright⟩ := h.emptied
  have hlength := (List.getElem?_eq_some_iff.1 hemptied.closes).1
  have hcursor : min ed.host.selection.active ed.host.text.length = i := by
    rw [hselection]
    exact Nat.min_eq_left (Nat.le_of_lt (Nat.lt_of_le_of_lt hright hlength))
  have hdeleted := types_deleteCharsInside hkey h.ready
    (hcursor ▸ hemptied.innermost hkind hleft hright) (hemptied.not_aroundLines hkind)
  rwa [hemptied.exclusiveStop_eq, Text.splice_nil_self] at hdeleted

/-- **Deleting inside brackets around whole lines takes the lines**, and leaves the cursor on the
second bracket. -/
theorem types_deleteLinesInside (h : ed.Ready)
    (hpair : ed.host.text.Innermost opening closing
      (min ed.host.selection.active ed.host.text.length) left right)
    (hlines : ed.host.text.AroundLines left right) :
    Types ed (deleteInside key) fun after => after.Ready ∧
      after.host.text = ed.host.text.splice (left + 2)
        (ed.host.text.lineStart (ed.host.text.lineOf right)) [] ∧
      after.host.selection = .cursor
        (left + 2 + (right - ed.host.text.lineStart (ed.host.text.lineOf right))) := by
  have hkind := TextObject.bracketKind hkey
  obtain ⟨hle, hstart, hblock⟩ := hlines.emptyBlock hkind hpair.pairs
  obtain ⟨range, hbetween, hregion⟩ := hlines.regionBetween hkind hpair.pairs
  have hrange : (TextObject.bracket opening closing).range ed.host.text .inner 1
      (min ed.host.selection.active ed.host.text.length) = some range := by
    simp only [TextObject.range, (Text.bracketPairAt_eq_some_iff hkind.ne).2 hpair,
      Option.map_some, hbetween, Option.getD_some]
  intro events hevents
  obtain ⟨hready, hoperated⟩ := types_deleteInside h hkey hrange events hevents
  obtain ⟨htext, hselection⟩ := hoperated.linesDeleted hregion (Nat.lt_succ_of_lt left.succ_pos)
  refine ⟨hready, htext, ?_⟩
  rw [← htext] at hblock
  obtain ⟨-, hright⟩ := hblock.lineOf_right hkind
  have hkept : (ed.pressAll events).2.host.text.lineOf left = ed.host.text.lineOf left := by
    have hlength := (List.getElem?_eq_some_iff.1 hlines.breaks).1
    rw [htext, Text.lineOf, Text.take_splice (by omega) (by omega), Text.lineOf]
  have hlast := (ed.pressAll events).2.host.text.lineOf_le_lastLine
    (left + 2 + (right - ed.host.text.lineStart (ed.host.text.lineOf right)))
  obtain ⟨-, hline⟩ := Text.lineStart_below_opening hkind hpair.pairs.opens hlines.breaks
  rw [hselection, hline, Nat.min_eq_left (by omega), ← hkept,
    Text.restingIndex_firstNonBlank (by omega), hblock.first]

/-- **Deleting inside the empty block that is left joins the two brackets**, if the second one is
indented. -/
theorem types_deleteEmptyBlock (h : ed.Ready)
    (hpair : ed.host.text.Innermost opening closing
      (min ed.host.selection.active ed.host.text.length) left right)
    (hlines : ed.host.text.AroundLines left right) {first : List InputEvent}
    (hfirst : first.map (·.stroke?) = (deleteInside key).map some) :
    Types (ed.pressAll first).2 (deleteInside key) fun after =>
      after.host.text =
        (if ed.host.text.lineStart (ed.host.text.lineOf right) < right then
          ed.host.text.splice (left + 1) right []
        else (ed.pressAll first).2.host.text) ∧
      after.InEmptied opening closing left := by
  have hkind := TextObject.bracketKind hkey
  have hlength := (List.getElem?_eq_some_iff.1 hlines.breaks).1
  obtain ⟨hle, hstart, hblock⟩ := hlines.emptyBlock hkind hpair.pairs
  obtain ⟨hready, htext, hselection⟩ := types_deleteLinesInside hkey h hpair hlines first hfirst
  rw [← htext] at hblock
  have hright := (List.getElem?_eq_some_iff.1 hblock.closes).1
  have hcursor : min (ed.pressAll first).2.host.selection.active
      (ed.pressAll first).2.host.text.length =
        left + 2 + (right - ed.host.text.lineStart (ed.host.text.lineOf right)) := by
    rw [hselection]
    exact Nat.min_eq_left (Nat.le_of_lt hright)
  have hpair' := hblock.innermost hkind
  rw [← hcursor] at hpair'
  intro second hsecond
  obtain ⟨htwice, hemptied⟩ := types_deleteCharsInside hkey hready hpair'
    (hcursor ▸ hblock.not_aroundLines hkind) second hsecond
  refine ⟨?_, hemptied⟩
  rw [htwice, hcursor, hblock.exclusiveStop_eq hkind]
  by_cases hindent : ed.host.text.lineStart (ed.host.text.lineOf right) < right
  · rw [if_neg (by omega), if_pos hindent, htext,
      Text.splice_splice_nil (by omega) hle (by omega) hstart]
  · rw [if_pos (by omega), if_neg hindent, Text.splice_nil_self]

end

/-- **Deleting inside brackets again changes nothing, unless the brackets are around whole lines and
the second one is indented.** Then deleting takes the lines first and joins the brackets the second
time. A third time changes nothing in any case. -/
theorem deleted_inside_again (h : ed.Ready)
    (hkey : TextObject.ofKey key = some (.bracket opening closing))
    (hobject : ((TextObject.bracket opening closing).range ed.host.text .inner 1
      (min ed.host.selection.active ed.host.text.length)).isSome = true)
    {first second third : List InputEvent}
    (hfirst : first.map (·.stroke?) = (deleteInside key).map some)
    (hsecond : second.map (·.stroke?) = (deleteInside key).map some)
    (hthird : third.map (·.stroke?) = (deleteInside key).map some) :
    let t := ed.host.text
    let once := (ed.pressAll first).2
    let twice := (once.pressAll second).2
    ∃ left right, t.Innermost opening closing (min ed.host.selection.active t.length) left right ∧
      (twice.host.text = once.host.text ↔
        ¬(t.AroundLines left right ∧ t.lineStart (t.lineOf right) < right)) ∧
      (t.AroundLines left right → t.lineStart (t.lineOf right) < right →
        once.host.text = t.splice (left + 2) (t.lineStart (t.lineOf right)) [] ∧
          twice.host.text = t.splice (left + 1) right []) ∧
      (twice.pressAll third).2.host.text = twice.host.text := by
  intro t once twice
  have hkind := TextObject.bracketKind hkey
  rw [TextObject.range, Option.isSome_map, Option.isSome_iff_exists] at hobject
  obtain ⟨⟨left, right⟩, hfound⟩ := hobject
  have hpair := (Text.bracketPairAt_eq_some_iff hkind.ne).1 hfound
  refine ⟨left, right, hpair, ?_⟩
  by_cases hlines : t.AroundLines left right
  · have honce : once.host.text = t.splice (left + 2) (t.lineStart (t.lineOf right)) [] :=
      (types_deleteLinesInside hkey h hpair hlines first hfirst).2.1
    obtain ⟨htwice, hemptied⟩ := types_deleteEmptyBlock hkey h hpair hlines hfirst second hsecond
    obtain ⟨hthrice, -⟩ := types_deleteEmptied hkey hemptied third hthird
    by_cases hindent : t.lineStart (t.lineOf right) < right
    · rw [if_pos hindent] at htwice
      have htwice : twice.host.text = t.splice (left + 1) right [] := htwice
      refine ⟨⟨fun hsame => ?_, fun hnot => absurd ⟨hlines, hindent⟩ hnot⟩,
        fun _ _ => ⟨honce, htwice⟩, hthrice⟩
      -- the second deletion takes a character at least
      obtain ⟨hle, -, -⟩ := hlines.emptyBlock hkind hpair.pairs
      have hright : right < t.length := (List.getElem?_eq_some_iff.1 hpair.pairs.closes).1
      have hlengths := congrArg List.length (htwice.symm.trans (hsame.trans honce))
      simp only [Text.length_splice, List.length_nil] at hlengths
      omega
    · rw [if_neg hindent] at htwice
      exact ⟨⟨fun _ hexcept => hindent hexcept.2, fun _ => htwice⟩,
        fun _ hindent' => absurd hindent' hindent, hthrice⟩
  · obtain ⟨-, hemptied⟩ := types_deleteCharsInside hkey h hpair hlines first hfirst
    obtain ⟨htwice, hemptied'⟩ := types_deleteEmptied hkey hemptied second hsecond
    obtain ⟨hthrice, -⟩ := types_deleteEmptied hkey hemptied' third hthird
    exact ⟨⟨fun _ hexcept => hlines hexcept.1, fun _ => htwice⟩,
      fun hlines' => absurd hlines' hlines, hthrice⟩

/-- The second bracket of a block is in column 0, so deleting again changes nothing. -/
theorem deleted_inside_again_block :
    let ed : Editor := ⟨Session.new .normal {} none, .ofText ['{', '\n', 'a', '\n', '}'] 2⟩
    let keys : List InputEvent := [.text 'd', .text 'i', .text 'B']
    let once := (ed.pressAll keys).2
    once.host.text = ['{', '\n', '}'] ∧
      ((once.pressAll keys).2.pressAll keys).2.host.text = once.host.text := by
  intro ed keys once
  have hready : ed.Ready := ⟨rfl, rfl, rfl, rfl, rfl⟩
  have hkey : TextObject.ofKey 'B' = some (.bracket '{' '}') := rfl
  have hkeys : keys.map (·.stroke?) = (deleteInside 'B').map some := rfl
  have hobject : ((TextObject.bracket '{' '}').range ed.host.text .inner 1
      (min ed.host.selection.active ed.host.text.length)).isSome = true := by decide
  obtain ⟨left, right, hpair, htwice, -, hthrice⟩ :=
    deleted_inside_again hready hkey hobject hkeys hkeys hkeys
  have hends : Text.bracketPairAt ['{', '\n', 'a', '\n', '}'] '{' '}' 2 = some (0, 4) := by decide
  have hne : '{' ≠ '}' := by decide
  cases ((Text.bracketPairAt_eq_some_iff hne).2 hpair).symm.trans hends
  have hcolumn : ¬ed.host.text.lineStart (ed.host.text.lineOf 4) < 4 := by decide
  refine ⟨by decide, ?_⟩
  dsimp only [once]
  rw [hthrice]
  exact htwice.2 fun hexcept => hcolumn hexcept.2

/-- The second bracket of a block is indented. Deleting inside once leaves an empty block, and twice
leaves nothing between the brackets. -/
theorem deleted_inside_joins_brackets :
    let ed : Editor := ⟨Session.new .normal {} none, .ofText ['{', '\n', 'a', '\n', ' ', '}'] 0⟩
    let keys : List InputEvent := [.text 'd', .text 'i', .text '{']
    let once := (ed.pressAll keys).2
    ed.Ready ∧ ed.host.text.IsNormal 0 ∧
      ((TextObject.bracket '{' '}').range ed.host.text .inner 1 0).isSome = true ∧
      once.host.text = ['{', '\n', ' ', '}'] ∧ (once.pressAll keys).2.host.text = ['{', '}'] :=
  ⟨⟨rfl, rfl, ⟨rfl, rfl, rfl⟩⟩, Or.inl ⟨'{', rfl, by decide⟩, by decide, by decide, by decide⟩

end Editor

end ModalEdit
