import Mathlib.Data.List.Infix
import ModalEdit.Proofs.Landing
import ModalEdit.Proofs.Typing

/-!
# Insert sessions

In Insert mode the text before the cursor is a stack: a character is pushed, Backspace pops, and a
chord does nothing (`InputEvent.typeAfter`). What stands behind the cursor never moves.

An event in Insert mode is one of three things (`press_typing_cases`): a character that is put in, a
character that is erased, or nothing at all. `Inserting` follows the stack through each of them. The
recorded change does so as well as long as the stack holds all that it began with
(`Recording`, `recording_pressAll`); the record loses its last character with each Backspace, and
once the stack is shorter than it was there is nothing in the record to lose.

Escape leaves the text alone. The cursor it leaves is one that Normal mode has nothing to change
about (`restingIndex_leaveIndex`): one column to the left there is always a character.
-/

namespace ModalEdit

/-- The text before the cursor after an event in Insert mode, other than Escape. -/
def InputEvent.typeAfter (before : Text) (event : InputEvent) : Text :=
  match event.stroke? with
  | some (.char c) => before ++ [c]
  | some .backspace => before.dropLast
  | _ => before

namespace Text

/-- Where the cursor goes when Insert mode is left: one column to the left, if there is one. -/
def leaveIndex (t : Text) (i : Nat) : Nat :=
  if (Position.ofIndex t i).col = 0 then i else i - 1

theorem restingIndex_leaveIndex {t : Text} {i : Nat} (hi : i ≤ t.length) :
    t.restingIndex (t.leaveIndex i) = t.leaveIndex i := by
  have hl := t.lineOf_le_lastLine i
  have hstart := t.lineStart_lineOf_le i hi
  have hend := le_lineEnd_lineOf hi
  have hcol : (Position.ofIndex t i).col = i - t.lineStart (t.lineOf i) := by
    rw [Position.ofIndex_eq, Nat.min_eq_left hi]
  unfold leaveIndex
  rw [hcol]
  generalize t.lineOf i = l at hl hstart hend
  obtain ⟨k, rfl⟩ := Nat.exists_eq_add_of_le hstart
  rw [lineEnd_eq] at hend
  have hk : k ≤ t.lineLength l := by omega
  rw [Nat.add_sub_cancel_left]
  by_cases hzero : k = 0
  · rw [if_pos hzero, restingIndex_lineStart_add hl hk, hzero, Nat.zero_min]
  · have hlast : t.lastColumn l = t.lineLength l - 1 := rfl
    have hcolumn : k - 1 ≤ t.lastColumn l := by omega
    rw [if_neg hzero, Nat.add_sub_assoc (Nat.pos_of_ne_zero hzero),
      restingIndex_lineStart_add hl (by omega), Nat.min_eq_left hcolumn]

end Text

namespace Editor

variable {ed : Editor} {before after base typed : Text} {registers : Registers}
  {change : Repeatable} {event : InputEvent} {events : List InputEvent}

/-! ## One event -/

theorem press_insertStroke {k : Stroke} {result : Editor} (hmode : ed.session.mode = .insert)
    (hk : event.stroke? = some k)
    (h : Ends (insertStroke k) ed (fun _ ed => ed = result) fun _ => False) :
    (ed.press event).2 = result :=
  press_of_ends (P := (· = result)) (ends_dispatch_insert hmode hk h) fun _ => False.elim

/-- **What an event comes to in Insert mode**, other than Escape. -/
theorem press_typing_cases (h : ed.Inserting before after registers)
    (hevent : event.stroke? ≠ some .escape) :
    (∃ c, event.typeAfter before = before ++ [c] ∧ (ed.press event).2 = ed.inserted [c]) ∨
    (∃ init c commit, before = init ++ [c] ∧ event.typeAfter before = init ∧
      (ed.press event).2 = ed.erased commit ∧ (ed.erased commit).Inserting init after registers) ∨
    (event.typeAfter before = before ∧ (ed.press event).2 = ed) := by
  -- a chord does nothing, a character is pushed, Backspace drops the last one
  cases hk : event.stroke? with
  | none =>
    refine Or.inr (Or.inr ⟨by simp [InputEvent.typeAfter, hk], ?_⟩)
    have hchord : Ends (dispatch event) ed (fun _ ed' => ed' = ed) fun _ => False := by
      simp only [dispatch, hk]
      refine ends_bind (ends_get ?_)
      rw [if_pos h.mode]
      exact ends_pure rfl
    exact press_of_ends hchord fun _ => False.elim
  | some k =>
    cases k with
    | char c =>
      refine Or.inl ⟨c, by simp [InputEvent.typeAfter, hk], ?_⟩
      exact press_insertStroke h.mode hk (ends_insertText_granted h.grants rfl)
    | backspace =>
      have htype : event.typeAfter before = before.dropLast := by simp [InputEvent.typeAfter, hk]
      rcases List.eq_nil_or_concat before with rfl | ⟨init, c, rfl⟩
      · have hplan : ed.session.planErase ed.host.text ed.host.selection = none := by
          simp [Session.planErase, h.cursor]
        refine Or.inr (Or.inr ⟨htype, press_insertStroke h.mode hk (ends_bind (ends_planned ?_))⟩)
        rw [hplan]
        exact ends_pure rfl
      · rw [List.concat_eq_append] at h htype ⊢
        obtain ⟨commit, hplan, herased⟩ := inserting_erased h
        refine Or.inr (Or.inl ⟨init, c, commit, rfl, ?_, ?_, herased⟩)
        · rw [htype, List.dropLast_concat]
        · exact press_insertStroke h.mode hk (ends_eraseChar_granted h.grants hplan rfl)
    | escape => exact absurd hk hevent

/-- **One event keeps the cursor between the stack and the text behind it.** -/
theorem inserting_press (h : ed.Inserting before after registers)
    (hevent : event.stroke? ≠ some .escape) :
    (ed.press event).2.Inserting (event.typeAfter before) after registers := by
  rcases press_typing_cases h hevent with ⟨c, htype, hpress⟩ |
    ⟨init, c, commit, rfl, htype, hpress, herased⟩ | ⟨htype, hpress⟩
  · rw [htype, hpress]
    exact inserting_inserted h [c]
  · rw [htype, hpress]
    exact herased
  · rw [htype, hpress]
    exact h

/-- **One event keeps the record what the stack has more than at first**, if it leaves the stack no
shorter than that. -/
theorem recording_press (h : ed.Inserting (base ++ typed) after registers)
    (hrecording : ed.Recording change typed) (hevent : event.stroke? ≠ some .escape)
    (hlonger : base.length ≤ (event.typeAfter (base ++ typed)).length) :
    ∃ text, event.typeAfter (base ++ typed) = base ++ text ∧
      (ed.press event).2.Recording change text := by
  rcases press_typing_cases h hevent with ⟨c, htype, hpress⟩ |
    ⟨init, c, commit, hbefore, htype, hpress, -⟩ | ⟨htype, hpress⟩
  · refine ⟨typed ++ [c], by rw [htype, List.append_assoc], ?_⟩
    rw [hpress]
    exact recording_inserted hrecording [c]
  · -- the character that is erased is a typed one
    rw [htype] at hlonger
    rcases List.eq_nil_or_concat typed with rfl | ⟨front, d, rfl⟩
    · have hlength := congrArg List.length hbefore
      simp only [List.append_nil, List.length_append, List.length_singleton] at hlength
      omega
    · rw [List.concat_eq_append, ← List.append_assoc] at hbefore
      have hinit : base ++ front = init := (List.append_inj' hbefore rfl).1
      refine ⟨front, htype.trans hinit.symm, ?_⟩
      have herased := recording_erased hrecording commit
      rw [List.concat_eq_append, List.dropLast_concat] at herased
      rw [hpress]
      exact herased
  · rw [hpress]
    exact ⟨typed, htype, hrecording⟩

/-! ## Sessions -/

theorem inserting_pressAll (h : ed.Inserting before after registers)
    (hevents : ∀ event ∈ events, event.stroke? ≠ some .escape) :
    (ed.pressAll events).2.Inserting (events.foldl InputEvent.typeAfter before) after
      registers := by
  induction events generalizing ed before with
  | nil => exact h
  | cons event events ih =>
    exact ih (inserting_press h (hevents event List.mem_cons_self)) fun e he =>
      hevents e (List.mem_cons_of_mem event he)

theorem recording_pressAll (h : ed.Inserting (base ++ typed) after registers)
    (hrecording : ed.Recording change typed)
    (hevents : ∀ event ∈ events, event.stroke? ≠ some .escape)
    (hlonger : ∀ front, front <+: events →
      base.length ≤ (front.foldl InputEvent.typeAfter (base ++ typed)).length) :
    ∃ text, events.foldl InputEvent.typeAfter (base ++ typed) = base ++ text ∧
      (ed.pressAll events).2.Recording change text := by
  induction events generalizing ed typed with
  | nil => exact ⟨typed, rfl, hrecording⟩
  | cons event events ih =>
    have hevent := hevents event List.mem_cons_self
    have hfirst : [event] <+: event :: events := ⟨events, rfl⟩
    obtain ⟨text, htext, hnext⟩ := recording_press h hrecording hevent (hlonger _ hfirst)
    have hinserting := inserting_press h hevent
    rw [htext] at hinserting
    obtain ⟨text', htext', hlast⟩ := ih hinserting hnext
      (fun e he => hevents e (List.mem_cons_of_mem event he)) fun front hfront => by
        have hlength := hlonger (event :: front) (List.cons_prefix_cons.2 ⟨rfl, hfront⟩)
        rwa [List.foldl_cons, htext] at hlength
    refine ⟨text', ?_, hlast⟩
    rw [List.foldl_cons, htext]
    exact htext'

theorem inserting_escape (h : ed.Inserting before after registers)
    (hevent : event.stroke? = some .escape) :
    (ed.press event).2.CursorAt .normal ((before ++ after).leaveIndex before.length) ∧
      (ed.press event).2.host.text = before ++ after := by
  have hleft : (ed.press event).2 = ed.left :=
    press_insertStroke h.mode hevent (ends_leaveInsert_granted h.grants rfl)
  have hcursor : (ed.session.planLeave ed.host.text ed.host.selection).cursor ed.host.text =
      (before ++ after).leaveIndex before.length := by
    show ed.host.text.restingIndex (ed.host.text.leaveIndex
      (ed.session.cursor ed.host.text ed.host.selection)) = _
    rw [h.cursor, h.text]
    exact Text.restingIndex_leaveIndex (by simp)
  rw [hleft]
  exact ⟨⟨rfl, congrArg Selection.cursor hcursor⟩, h.text⟩

/-- **An Insert session edits the text before the cursor like a stack.** On a host that grants
everything, with the cursor at `i` in Insert mode, whatever is typed before Escape:

* the text is the stack, and what stood behind the cursor; the cursor is between them, the mode is
  still Insert, and the registers are as they were;
* a change that is recorded from the start of the session has recorded what the stack has more than
  at first, if the stack was never shorter;
* Escape then leaves the text alone, and the cursor one to the left of the stack's end, or there
  if that is column 0. -/
theorem inserts_like_stack (hgrants : ed.host.Grants) (hmode : ed.session.mode = .insert) {i : Nat}
    (hselection : ed.host.selection = .cursor i) (hi : i ≤ ed.host.text.length)
    (hevents : ∀ event ∈ events, event.stroke? ≠ some .escape) {stack : Text} {last : Editor}
    (hstack : stack = events.foldl InputEvent.typeAfter (ed.host.text.take i))
    (hlast : last = (ed.pressAll events).2) :
    (last.host.text = stack ++ ed.host.text.drop i ∧ last.CursorAt .insert stack.length ∧
      last.session.registers = ed.session.registers) ∧
    (∀ change, ed.Recording change [] →
      (∀ front, front <+: events →
        i ≤ (front.foldl InputEvent.typeAfter (ed.host.text.take i)).length) →
      ∃ text, stack = ed.host.text.take i ++ text ∧
        last.session.lastChange = some ⟨change, text⟩) ∧
    ∀ escape : InputEvent, escape.stroke? = some .escape →
      (last.press escape).2.host.text = last.host.text ∧
        (last.press escape).2.CursorAt .normal
          (if (Position.ofIndex last.host.text stack.length).col = 0 then stack.length
          else stack.length - 1) := by
  have hlength : (ed.host.text.take i).length = i := List.length_take_of_le hi
  have hstart : ed.Inserting (ed.host.text.take i) (ed.host.text.drop i) ed.session.registers :=
    { grants := hgrants
      mode := hmode
      text := (List.take_append_drop i ed.host.text).symm
      selection := by rw [hlength]; exact hselection
      registers := rfl }
  have hinserting := inserting_pressAll hstart hevents
  rw [← hstack, ← hlast] at hinserting
  refine ⟨⟨hinserting.text, ⟨hinserting.mode, hinserting.selection⟩, hinserting.registers⟩, ?_, ?_⟩
  · intro change hrecording hlonger
    rw [← List.append_nil (ed.host.text.take i)] at hstart
    obtain ⟨text, htext, hrecorded⟩ := recording_pressAll hstart hrecording hevents (by
      rwa [List.append_nil, hlength])
    rw [List.append_nil, ← hstack] at htext
    refine ⟨text, htext, ?_⟩
    rw [hlast]
    exact hrecorded.lastChange
  · intro escape hescape
    obtain ⟨hcursor, htext⟩ := inserting_escape hinserting hescape
    rw [← hinserting.text] at hcursor htext
    exact ⟨htext, hcursor⟩

/-- Between `a` and `b` two characters are typed, with a line break between them that is taken back
and a chord that does nothing. -/
theorem inserts_like_stack_lineBreak :
    let ed := ((⟨Session.new .normal {} none, .ofText ['a', 'b'] 1⟩ : Editor).press (.text 'i')).2
    let events : List InputEvent :=
      [.text 'x', .plain .enter, .press (.char 'a') .control, .plain .backspace, .text 'y']
    let last := (ed.pressAll events).2
    last.host.text = ['a', 'x', 'y', 'b'] ∧ last.CursorAt .insert 3 ∧
      (∃ text, ['a', 'x', 'y'] = ['a'] ++ text ∧
        last.session.lastChange = some ⟨.insert .atCursor, text⟩) ∧
      (last.press (.plain .escape)).2.CursorAt .normal 2 := by
  intro ed events last
  have hselection : ed.host.selection = .cursor 1 := by decide
  have hevents : ∀ event ∈ events, event.stroke? ≠ some .escape := by decide
  have hbefore : ed.host.text.take 1 = ['a'] := by decide
  have hafter : ed.host.text.drop 1 = ['b'] := by decide
  have hcol : (Position.ofIndex last.host.text ['a', 'x', 'y'].length).col ≠ 0 := by decide
  have hstack : ['a', 'x', 'y'] =
      events.foldl InputEvent.typeAfter (ed.host.text.take 1) := by decide
  have hlonger : ∀ front ∈ events.inits,
      1 ≤ (front.foldl InputEvent.typeAfter (ed.host.text.take 1)).length := by decide
  have hrecording : ed.Recording (.insert .atCursor) [] := ⟨by decide, by decide, by decide⟩
  have hlast : last = (ed.pressAll events).2 := rfl
  obtain ⟨⟨htext, hcursor, -⟩, hrecorded, hescape⟩ :=
    inserts_like_stack ⟨rfl, rfl, rfl⟩ (by decide) hselection (by decide) hevents hstack hlast
  have htyped := hrecorded _ hrecording fun front hfront =>
    hlonger front ((List.mem_inits front events).2 hfront)
  have hleft := (hescape (.plain .escape) rfl).2
  rw [hafter] at htext
  rw [hbefore] at htyped
  rw [if_neg hcol] at hleft
  exact ⟨htext, hcursor, htyped, hleft⟩

end Editor

end ModalEdit
