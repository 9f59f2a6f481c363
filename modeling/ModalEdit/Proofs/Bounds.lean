import ModalEdit.Proofs.Commands
import ModalEdit.Proofs.Reading
import ModalEdit.Text.Lines.Lemmas

/-!
# Plans inside the text

Every edit of a plan lies in the text it is planned on, and every visual selection it shows does
(`Plan.Fits`), although the ends of a visual selection, marks and the targets of a jump may be
stale. Operators clamp whatever range they are given when they take its region (`ofRange_le`). The
cursor is clamped except at the moving end of a visual selection, and in Visual mode no plan edits
at the cursor. A stale anchor only ever stands before the new cursor, which is clamped.
-/

namespace ModalEdit

namespace Text

variable {t : Text}

theorem lineEnd_eq (t : Text) (l : Nat) : t.lineEnd l = t.lineStart l + t.lineLength l := rfl

theorem restingIndex_le (t : Text) (i : Nat) : t.restingIndex i ≤ t.length := by
  have hend := t.lineEnd_le_length (t.lineOf i)
  rw [lineEnd_eq] at hend
  simp only [restingIndex, lastColumn, Position.ofIndex_line]
  omega

/-- Lines start in order of the indices on them. -/
theorem lineStart_lineOf_le_lineEnd {i j : Nat} (hij : i ≤ j) (hj : j ≤ t.length) :
    t.lineStart (t.lineOf i) ≤ t.lineEnd (t.lineOf j) :=
  calc t.lineStart (t.lineOf i) ≤ i := t.lineStart_lineOf_le i (Nat.le_trans hij hj)
    _ ≤ j := hij
    _ ≤ t.lineEnd (t.lineOf j) := le_lineEnd_lineOf hj

end Text

theorem Rest.place_le (rest : Rest) (t : Text) (i : Nat) : rest.place t i ≤ t.length := by
  cases rest with
  | normal => exact t.restingIndex_le i
  | insert => exact Nat.min_le_right i t.length

theorem Commit.cursor_le (c : Commit) (t : Text) : c.cursor t ≤ t.length :=
  c.rest.place_le t _

/-- What is shown of a visual selection lies in the text when its moving end does. -/
theorem Endpoints.selection_within {ends : Endpoints} {t : Text} (h : ends.cursor ≤ t.length)
    (kind : VisualKind) : (ends.selection kind t).Within t.length := by
  cases kind with
  | charwise =>
    simp only [selection]
    by_cases hle : ends.anchor ≤ ends.cursor
    · rw [if_pos hle]
      exact ⟨Nat.le_trans hle h, Nat.min_le_right _ _⟩
    · rw [if_neg hle]
      exact ⟨Nat.min_le_right _ _, h⟩
  | linewise =>
    simp only [selection]
    split
    · exact ⟨t.lineStart_le_length _, t.lineEnd_le_length _⟩
    · exact ⟨t.lineEnd_le_length _, t.lineStart_le_length _⟩

namespace Region

variable {t : Text}

theorem exclusiveStop_le (t : Text) {start stop : Nat} (hle : start ≤ stop)
    (h : stop ≤ t.length) :
    start ≤ exclusiveStop t start stop ∧ exclusiveStop t start stop ≤ t.length := by
  have hend := t.lineEnd_le_length ((Position.ofIndex t stop).line - 1)
  simp only [exclusiveStop]
  split
  · omega
  · exact ⟨hle, h⟩

/-- **The region of any range lies in the text.** -/
theorem ofRange_le (t : Text) (r : Range) :
    (ofRange t r).start ≤ (ofRange t r).stop ∧ (ofRange t r).stop ≤ t.length := by
  have hle : min (min r.start r.stop) t.length ≤ min (max r.start r.stop) t.length := by omega
  have hstop : min (max r.start r.stop) t.length ≤ t.length := Nat.min_le_right _ _
  cases hextent : r.extent with
  | linewise =>
    have hlines := Text.lineStart_lineOf_le_lineEnd hle hstop
    have hstart := t.lineStart_le_length (t.lineOf (min (min r.start r.stop) t.length))
    simp only [ofRange, hextent]
    omega
  | inclusive =>
    simp only [ofRange, hextent]
    omega
  | exclusive =>
    simp only [ofRange, hextent]
    exact exclusiveStop_le t hle hstop

theorem changeStop_le (r : Region) : r.changeStop ≤ r.stop := by
  unfold changeStop
  split <;> omega

theorem deletion_within {r : Region} {length : Nat} (hle : r.start ≤ r.stop)
    (h : r.stop ≤ length) : r.deletion.Within length := by
  unfold deletion
  split
  · exact ⟨by simp only [Edit.deletion]; omega, h⟩
  · exact ⟨hle, h⟩

end Region

theorem Edit.insertion_within {i length : Nat} (h : i ≤ length) (text : Text) :
    (insertion i text).Within length :=
  ⟨Nat.le_refl i, h⟩

/-! ## Plans -/

/-- The edit of the plan lies in the text, and so does what it shows. -/
def Plan.Fits (t : Text) : Plan → Prop
  | drop => True
  | commit c => ∀ e, c.edit = some e → e.Within t.length
  | select _ ends _ => ends.cursor ≤ t.length

/-- A commit with no edit fits. -/
theorem Plan.fits_of_no_edit {t : Text} {c : Commit} (h : c.edit = none) :
    (Plan.commit c).Fits t := by
  intro e he
  rw [h] at he
  cases he

theorem Plan.fits_of_edit {t : Text} {c : Commit} {e : Edit} (h : c.edit = some e)
    (hw : e.Within t.length) : (Plan.commit c).Fits t := by
  intro e' he
  rw [h] at he
  cases he
  exact hw

namespace Session

variable {s : Session} {t : Text} {sel : Selection}

/-- Outside Visual mode the cursor is clamped. -/
theorem cursor_eq (h : s.mode.isVisual = false) : s.cursor t sel = min sel.active t.length := by
  simp [cursor, h]

theorem cursor_le (h : s.mode.isVisual = false) : s.cursor t sel ≤ t.length := by
  rw [cursor_eq h]
  exact Nat.min_le_right _ _

theorem planOperator_fits (op : Operator) (range : Range) (since : Stage) :
    (s.planOperator t sel op range since).Fits t := by
  obtain ⟨hle, hstop⟩ := Region.ofRange_le t range
  simp only [planOperator]
  split
  · exact Plan.fits_of_no_edit rfl
  · cases op with
    | yank => exact Plan.fits_of_no_edit rfl
    | delete => exact Plan.fits_of_edit rfl (Region.deletion_within hle hstop)
    | change =>
      dsimp only
      by_cases hlt : (Region.ofRange t range).start < (Region.ofRange t range).changeStop
      · rw [if_pos hlt]
        exact Plan.fits_of_edit rfl ⟨Nat.le_of_lt hlt, Nat.le_trans (Region.changeStop_le _) hstop⟩
      · rw [if_neg hlt]
        exact Plan.fits_of_no_edit rfl

theorem planMotion_fits (m : Motion) (count : Nat) : (s.planMotion t sel m count).Fits t := by
  simp only [planMotion]
  split
  · trivial
  · split
    · split
      · exact planOperator_fits _ _ _
      · trivial
    · exact t.restingIndex_le _
    · exact Plan.fits_of_no_edit rfl

theorem planObject_fits (o : TextObject) (scope : Scope) (count : Nat) :
    (s.planObject t sel o scope count).Fits t := by
  simp only [planObject]
  cases o.range t scope count (s.cursor t sel) with
  | none => trivial
  | some range =>
    dsimp only
    split
    · split
      · exact planOperator_fits _ _ _
      · trivial
    · split
      · trivial
      · exact Nat.le_trans (Nat.sub_le _ 1) (Region.ofRange_le t range).2
    · trivial

theorem planInsert_fits (place : Insertion) : (s.planInsert t sel place).Fits t := by
  cases place with
  | openBelow =>
    exact Plan.fits_of_edit rfl (Edit.insertion_within (t.lineEnd_le_length _) _)
  | openAbove =>
    exact Plan.fits_of_edit rfl (Edit.insertion_within (t.lineStart_le_length _) _)
  | _ => exact Plan.fits_of_no_edit rfl

theorem planEnter_fits (h : s.mode.isVisual = false) (entry : Entry) :
    (s.planEnter t sel entry).Fits t := by
  cases entry with
  | insert place => exact planInsert_fits place
  | visual kind => exact cursor_le h

theorem putLines_within (text : Text) (after : Bool) (line : Nat) :
    (putLines t text after line).1.Within t.length := by
  unfold putLines
  split
  · exact Edit.insertion_within (t.lineStart_le_length _) _
  · split
    · exact Edit.insertion_within (t.lineStart_le_length _) _
    · exact Edit.insertion_within (t.lineEnd_le_length _) _

theorem putChars_within {cursor : Nat} (h : cursor ≤ t.length) (text : Text) (after : Bool) :
    (putChars t text after cursor).1.Within t.length := by
  refine Edit.insertion_within ?_ _
  have hend := t.lineEnd_le_length (t.lineOf cursor)
  split
  · omega
  · exact h

theorem planPut_fits (h : s.mode.isVisual = false) (count : Nat) (after : Bool) :
    (s.planPut t sel count after).Fits t := by
  simp only [planPut]
  split
  · trivial
  · split
    · refine Plan.fits_of_edit rfl ?_
      split
      · exact putLines_within _ _ _
      · exact putChars_within (cursor_le h) _ _
    · trivial

theorem planOperateTo_fits (op : Operator) (m : Motion) (count : Nat) :
    (s.planOperateTo t sel op m count).Fits t := by
  unfold planOperateTo
  split
  · exact planOperator_fits _ _ _
  · trivial

theorem planQuick_fits (h : s.mode.isVisual = false) (edit : QuickEdit) (count : Nat) :
    (s.planQuick t sel edit count).Fits t := by
  simp only [planQuick]
  cases edit with
  | putAfter | putBefore => exact planPut_fits h _ _
  | deleteChar | deleteCharBefore | substituteChar => exact planOperator_fits _ _ _
  | changeToLineEnd | deleteToLineEnd | substituteLine => exact planOperateTo_fits _ _ _

theorem planOperateSelection_fits (op : Operator) (lines : Bool) :
    (s.planOperateSelection t sel op lines).Fits t := by
  unfold planOperateSelection
  split
  · exact planOperator_fits _ _ _
  · trivial

theorem planTransform_fits (f : Text → Text) (always : Bool) :
    (s.planTransform t f always).Fits t := by
  simp only [planTransform]
  cases s.selectionRange false with
  | none => trivial
  | some range =>
    dsimp only
    split
    · exact Plan.fits_of_edit rfl (Region.ofRange_le t range)
    · exact Plan.fits_of_no_edit rfl

theorem planSelection_fits (command : SelectionCommand) :
    (s.planSelection t sel command).Fits t := by
  cases command with
  | lowerCase | upperCase => exact planTransform_fits _ _
  | _ => exact planOperateSelection_fits _ _

theorem planReplace_fits (c : Char) (count : Nat) : (s.planReplace t sel c count).Fits t := by
  simp only [planReplace]
  split
  · exact planTransform_fits _ _
  · have hend := t.lineEnd_le_length (t.lineOf (s.cursor t sel))
    split
    · trivial
    · split
      · exact Plan.fits_of_edit rfl ⟨by dsimp only; omega, by dsimp only; omega⟩
      · exact Plan.fits_of_edit rfl ⟨by dsimp only; omega, by dsimp only; omega⟩

/-- Instant commands that edit at the cursor are for Normal mode. -/
theorem planInstant_fits {instant : Instant} {count : Nat}
    (h : (Command.instant instant count).isNormalOnly = true → s.mode.isVisual = false) :
    (s.planInstant t sel instant count).Fits t := by
  cases instant with
  | quick edit => exact planQuick_fits (h rfl) edit count
  | selection command => exact planSelection_fits command
  | yankLine => exact planOperateTo_fits .yank .wholeLines count
  | _ => trivial

/-- Every plan of a command fits; one of Normal mode is planned outside Visual mode. -/
theorem planCommand_fits {command : Command} {plan : Plan}
    (h : command.isNormalOnly = true → s.mode.isVisual = false)
    (hplan : s.planCommand t sel command = some plan) : plan.Fits t := by
  cases command with
  | motion m count => cases hplan; exact planMotion_fits m count
  | object o scope count => cases hplan; exact planObject_fits o scope count
  | enter entry => cases hplan; exact planEnter_fits (h rfl) entry
  | replace c count => cases hplan; exact planReplace_fits c count
  | operator op count => cases hplan
  | instant instant count =>
    cases instant with
    | undo | repeatChange | setMark => cases hplan
    | _ => cases hplan; exact planInstant_fits h

theorem planRepeatable_fits (h : s.mode.isVisual = false) (command : Repeatable) :
    (s.planRepeatable t sel command).Fits t := by
  cases command with
  | operateMotion op m count => exact planMotion_fits m count
  | operateObject op o scope count => exact planObject_fits o scope count
  | quick edit count => exact planQuick_fits h edit count
  | replace c count => exact planReplace_fits c count
  | insert place => exact planInsert_fits place

theorem planType_fits (h : s.mode = .insert) (text : Text) :
    (Plan.commit (s.planType t sel text)).Fits t :=
  Plan.fits_of_edit rfl (Edit.insertion_within (cursor_le (by rw [h]; rfl)) text)

theorem planErase_fits (h : s.mode = .insert) {c : Commit} (hc : s.planErase t sel = some c) :
    (Plan.commit c).Fits t := by
  simp only [planErase, Option.ite_none_left_eq_some, Option.some.injEq] at hc
  obtain ⟨-, rfl⟩ := hc
  exact Plan.fits_of_edit rfl ⟨Nat.sub_le _ 1, cursor_le (by rw [h]; rfl)⟩

end Session

end ModalEdit
