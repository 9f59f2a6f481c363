import Mathlib.Data.List.DropRight
import ModalEdit.Proofs.Highlighting
import ModalEdit.Proofs.Refusals

/-!
# Selections that the host reports

A drag of the mouse is a run of selections that the host makes and reports one after the other. The
session reads two things off them: a selection with something in it enters Visual mode, and an empty
one leaves it. So it holds on to the first selection since the last empty one (`heldSelection`),
whatever is reported after it, and that is what `d` removes (`delete_heldSelection`). A later one
that is larger or goes the other way is not taken over (`delete_not_lastSelection`).

One more report is one step of `heldSelection` (`heldSelection_append`), so the state after a run
follows by induction from its end (`held_selectedInTurn`).
-/

namespace ModalEdit

/-- The selection that a session in Normal mode comes to hold: the first one with something in it
after the last empty one. -/
def heldSelection (sels : List Selection) : Option Selection :=
  (sels.rtakeWhile (!·.isEmpty)).head?

theorem heldSelection_append (sels : List Selection) (sel : Selection) :
    heldSelection (sels ++ [sel]) =
      if sel.isEmpty then none else some ((heldSelection sels).getD sel) := by
  unfold heldSelection
  rw [List.rtakeWhile_concat]
  cases sel.isEmpty with
  | true => rfl
  | false => cases sels.rtakeWhile (!·.isEmpty) <;> rfl

theorem heldSelection_mem {sels : List Selection} {held : Selection}
    (h : heldSelection sels = some held) : held ∈ sels ∧ held.isEmpty = false := by
  have hmem : held ∈ sels.rtakeWhile (!·.isEmpty) := List.mem_of_head? h
  refine ⟨(List.rtakeWhile_suffix (!·.isEmpty) sels).mem hmem, ?_⟩
  simpa using List.mem_rtakeWhile_imp hmem

theorem heldSelection_isSome {sels : List Selection} {last : Selection}
    (hlast : sels.getLast? = some last) (h : last.isEmpty = false) :
    ∃ held, heldSelection sels = some held := by
  obtain ⟨init, rfl⟩ := List.getLast?_eq_some_iff.1 hlast
  exact ⟨_, by rw [heldSelection_append, h]; rfl⟩

namespace Editor

variable {start ed : Editor}

/-! ## A run of reports -/

/-- The host makes some selections in turn, and reports each. -/
def selectedInTurn (ed : Editor) (sels : List Selection) : Editor :=
  sels.foldl (fun ed sel => ed.selectedByHost sel []) ed

theorem selectedInTurn_append (ed : Editor) (sels : List Selection) (sel : Selection) :
    ed.selectedInTurn (sels ++ [sel]) = (ed.selectedInTurn sels).selectedByHost sel [] := by
  simp [selectedInTurn]

/-- Only the mode and the visual selection have changed since the start: the visual selection is of
the characters of the selection held, and with none held the mode is Normal mode. -/
structure Held (start : Editor) (held : Option Selection) (ed : Editor) : Prop where
  text : ed.host.text = start.host.text
  refusals : ed.host.editRefusals = start.host.editRefusals
  registers : ed.session.registers = start.session.registers
  normal : held = none → ed.session.mode = .normal
  visual : ∀ sel, held = some sel → ed.session.visual = some sel.endpoints ∧
    ∃ groups, ed.session.input = { mode := .visual .charwise, jumpGroups := groups }

section

variable {held : Option Selection} {s : Session}

theorem Held.letsGo (h : Held start held ed) (sel : Selection)
    (hregisters : s.registers = ed.session.registers) (hmode : s.mode = .normal) :
    Held start none ⟨s, { ed.host with selection := sel }⟩ where
  text := h.text
  refusals := h.refusals
  registers := hregisters.trans h.registers
  normal _ := hmode
  visual first hfirst := by cases hfirst

theorem Held.holds (h : Held start held ed) (sel : Selection)
    (hregisters : s.registers = ed.session.registers) {first : Selection}
    (hvisual : s.visual = some first.endpoints ∧
      ∃ groups, s.input = { mode := .visual .charwise, jumpGroups := groups }) :
    Held start (some first) ⟨s, { ed.host with selection := sel }⟩ where
  text := h.text
  refusals := h.refusals
  registers := hregisters.trans h.registers
  normal hnone := by cases hnone
  visual _ hfirst := by
    cases hfirst
    exact hvisual

end

/-- **One more report is one step.** -/
theorem held_selectedByHost {held : Option Selection} (h : Held start held ed) (sel : Selection) :
    Held start (if sel.isEmpty then none else some (held.getD sel))
      (ed.selectedByHost sel []) := by
  have hed : ed.selectedByHost sel [] =
      ⟨ed.session.noteSelections [sel], { ed.host with selection := sel }⟩ := rfl
  rw [hed]
  -- only a report that starts or ends a held selection changes the session
  cases held with
  | none =>
    have hmode := h.normal rfl
    cases hempty : sel.isEmpty with
    | true =>
      have hnoted : ed.session.noteSelections [sel] = ed.session := by
        simp only [Session.noteSelections, hmode, hempty]
        rfl
      rw [hnoted]
      exact h.letsGo sel rfl hmode
    | false =>
      have hnoted : ed.session.noteSelections [sel] =
          { ed.session with
            visual := some sel.endpoints
            input := ed.session.input.switch (.visual .charwise) } := by
        simp only [Session.noteSelections, hmode, hempty]
        rfl
      rw [hnoted]
      refine h.holds sel ?_ ⟨?_, ed.session.input.jumpGroups, ?_⟩ <;> rfl
  | some first =>
    obtain ⟨hvisual, groups, hinput⟩ := h.visual first rfl
    have hmode : ed.session.mode = .visual .charwise := by rw [Session.mode, hinput]
    cases hempty : sel.isEmpty with
    | true =>
      have hnoted : ed.session.noteSelections [sel] =
          { ed.session with visual := none, input := ed.session.input.switch .normal } := by
        simp only [Session.noteSelections, hmode, hempty]
        rfl
      rw [hnoted]
      exact h.letsGo sel rfl rfl
    | false =>
      have hnoted : ed.session.noteSelections [sel] = ed.session := by
        simp only [Session.noteSelections, hmode, hempty]
        rfl
      rw [hnoted]
      exact h.holds sel rfl ⟨hvisual, groups, hinput⟩

/-- **After a run of reports the session holds the first selection since the last empty one.** -/
theorem held_selectedInTurn (hmode : ed.session.mode = .normal) (sels : List Selection) :
    Held ed (heldSelection sels) (ed.selectedInTurn sels) := by
  induction sels using List.reverseRecOn with
  | nil => exact ⟨rfl, rfl, rfl, fun _ => hmode, fun _ hnone => by cases hnone⟩
  | append_singleton sels sel ih =>
    rw [heldSelection_append, selectedInTurn_append]
    exact held_selectedByHost ih sel

/-! ## Deleting what is held -/

section

variable {c : Commit} {Q : Unit → Editor → Prop} {E : Editor → Prop}

theorem ends_commit_edit (hgranted : ed.host.editRefusals.head = false) {edit : Edit}
    (hedit : c.edit = some edit)
    (hplace : ∀ host, host.text = edit.apply ed.host.text →
      E ⟨(ed.session.begin c).afterEdit c, host⟩)
    (hdone : ∀ host, host.text = edit.apply ed.host.text →
      Q () ⟨((ed.session.begin c).afterEdit c).settle c, host⟩) :
    Ends (commit c) ed Q E := by
  have hrequest : ∃ host, requestCommitEdit c ed.host = .ok () host ∧
      host.text = edit.apply ed.host.text := by
    unfold requestCommitEdit
    rw [hedit]
    simp only [Host.requestEdit, hgranted]
    exact ⟨_, rfl, rfl⟩
  obtain ⟨edited, hok, htext⟩ := hrequest
  have hselected := Host.text_after_requestSelection (.cursor (c.cursor edited.text)) edited
  unfold Ends
  rw [commit_eq, hok]
  dsimp only
  cases hs : Host.requestSelection (.cursor (c.cursor edited.text)) edited with
  | error e host =>
    rw [hs] at hselected
    exact hplace host (hselected.trans htext)
  | ok _ host =>
    rw [hs] at hselected
    exact hdone host (hselected.trans htext)

end

/-- The text and the registers are these. -/
structure Leaving (text : Text) (registers : Registers) (ed : Editor) : Prop where
  text : ed.host.text = text
  registers : ed.session.registers = registers

theorem Leaving.reset {text : Text} {registers : Registers} (h : ed.Leaving text registers) :
    ed.reset.Leaving text registers :=
  ⟨(text_reset ed).trans h.text, h.registers⟩

theorem Held.region {held : Selection} (h : Held start (some held) ed)
    (hheld : held.isEmpty = false) (hwithin : held.Within start.host.text.length) :
    Region.ofRange ed.host.text (held.endpoints.range .charwise) =
        ⟨held.start, held.stop, false, false⟩ ∧
      Region.isVoid ⟨held.start, held.stop, false, false⟩ = false := by
  refine ⟨Selection.ofRange_endpoints hheld (h.text ▸ hwithin), ?_⟩
  have hne : held.anchor ≠ held.active := by simpa [Selection.isEmpty] using hheld
  simp only [Region.isVoid, Region.isEmpty, Selection.start, Selection.stop, Bool.false_and,
    Bool.not_false, Bool.and_true, beq_eq_false_iff_ne]
  omega

theorem Held.plan_delete {held : Selection} (h : Held start (some held) ed)
    (hheld : held.isEmpty = false) (hwithin : held.Within start.host.text.length) :
    ∃ c : Commit, ed.planOfCommand (.instant (.selection .delete) 1) = some (.commit c) ∧
      c.edit = some (.deletion held.start held.stop) ∧
      c.write = some (Registers.unnamed,
        ⟨false, start.host.text.slice held.start held.stop⟩) := by
  obtain ⟨hvisual, groups, hinput⟩ := h.visual held rfl
  obtain ⟨hregion, hvoid⟩ := h.region hheld hwithin
  have hrange : ed.session.selectionRange false = some (held.endpoints.range .charwise) := by
    simp [Session.selectionRange, Session.mode, hinput, hvisual, Endpoints.range]
  have hname : ed.session.registerName = Registers.unnamed := by
    simp [Session.registerName, hinput]
  obtain ⟨column, hplan⟩ := ed.session.planOperator_eq ed.host.text ed.host.selection .delete
    (held.endpoints.range .charwise) .placed
  rw [hregion, hname] at hplan
  have hcommand : ed.planOfCommand (.instant (.selection .delete) 1) =
      some (ed.session.planOperateSelection ed.host.text ed.host.selection .delete false) := rfl
  refine ⟨Operator.delete.commit ed.host.text ⟨held.start, held.stop, false, false⟩
    Registers.unnamed (ed.session.cursor ed.host.text ed.host.selection) column, ?_, ?_, ?_⟩
  · rw [hcommand, Session.planOperateSelection, hrange]
    exact congrArg some hplan
  · simp only [Operator.commit, Operator.edit, hvoid]
    rfl
  · simp only [Operator.commit, Region.write?, hvoid, Region.register, Region.registerText, h.text]
    simp

theorem press_delete_held {held : Selection} (h : Held start (some held) ed)
    (hgranted : start.host.editRefusals.head = false) (hheld : held.isEmpty = false)
    (hwithin : held.Within start.host.text.length) {event : InputEvent}
    (hstroke : event.stroke? = some (.char 'd')) :
    (ed.press event).2.Leaving (start.host.text.splice held.start held.stop [])
      (start.session.registers.write Registers.unnamed
        ⟨false, start.host.text.slice held.start held.stop⟩) := by
  obtain ⟨-, groups, hinput⟩ := h.visual held rfl
  have hread : ed.session.input.read ed.host.text ed.session.config 'd' =
      (.command (.instant (.selection .delete) 1), ed.session.input) := by
    rw [hinput]
    rfl
  have hinsert : ed.session.mode ≠ .insert := by simp [Session.mode, hinput]
  obtain ⟨c, hplan, hedit, hwrite⟩ := h.plan_delete hheld hwithin
  have hwritten : ((ed.session.begin c).afterEdit c).registers =
      start.session.registers.write Registers.unnamed
        ⟨false, start.host.text.slice held.start held.stop⟩ := by
    simp only [Session.afterEdit, hwrite, Session.begin, h.registers]
  have hleaves (host : Host) (s : Session)
      (htext : host.text = (Edit.deletion held.start held.stop).apply ed.host.text)
      (hs : s.registers = ((ed.session.begin c).afterEdit c).registers) :
      Leaving (start.host.text.splice held.start held.stop [])
        (start.session.registers.write Registers.unnamed
          ⟨false, start.host.text.slice held.start held.stop⟩) ⟨s, host⟩ :=
    ⟨htext.trans (by rw [h.text]; rfl), hs.trans hwritten⟩
  have hgrants : ed.host.editRefusals.head = false := h.refusals ▸ hgranted
  refine press_of_ends (E := (Leaving _ _)) (ends_dispatch_of_completes
    (completes_eq hinsert hstroke hread) (ends_execute_planned hplan ?_)) fun _ h => h.reset
  refine ends_carryOutChange (ends_commit_edit hgrants hedit ?_ ?_)
  · exact fun host htext => hleaves host _ htext rfl
  · -- deleting a visual selection is no change that `.` repeats
    exact fun host htext => ⟨fun _ hchange => (by cases hchange), hleaves host _ htext rfl⟩

/-- **`d` takes what the session holds of the host's selections.** From Normal mode, the host makes
any selections inside the text and reports each, and there is something in the last one. If the host
grants the edit, `d` then removes exactly the characters of the first selection after the last empty
one, and stores them in the unnamed register. Whether the cursor is granted after it is of no
matter. -/
theorem delete_heldSelection (hmode : ed.session.mode = .normal)
    (hgranted : ed.host.editRefusals.head = false) {sels : List Selection}
    (hwithin : ∀ sel ∈ sels, sel.Within ed.host.text.length) {last : Selection}
    (hlast : sels.getLast? = some last) (hnonempty : last.isEmpty = false) {event : InputEvent}
    (hstroke : event.stroke? = some (.char 'd')) :
    let after := ((ed.selectedInTurn sels).press event).2
    ∃ held, heldSelection sels = some held ∧ held.isEmpty = false ∧
      after.host.text = ed.host.text.splice held.start held.stop [] ∧
      after.session.registers = ed.session.registers.write Registers.unnamed
        ⟨false, ed.host.text.slice held.start held.stop⟩ := by
  intro after
  obtain ⟨held, hheld⟩ := heldSelection_isSome hlast hnonempty
  obtain ⟨hmem, hsome⟩ := heldSelection_mem hheld
  have hholds := held_selectedInTurn hmode sels
  rw [hheld] at hholds
  obtain ⟨htext, hregisters⟩ :=
    press_delete_held hholds hgranted hsome (hwithin held hmem) hstroke
  exact ⟨held, hheld, hsome, htext, hregisters⟩

/-- A selection collapses, and another one is begun at its end and drawn out. -/
theorem delete_heldSelection_collapsed :
    let ed : Editor := ⟨Session.new .normal {} none, .ofText ['a', 'b', 'c', 'd'] 0⟩
    let sels : List Selection := [⟨0, 1⟩, ⟨1, 1⟩, ⟨3, 2⟩, ⟨3, 0⟩]
    ed.session.mode = .normal ∧ ed.host.editRefusals.head = false ∧
      (∀ sel ∈ sels, sel.Within ed.host.text.length) ∧
      ((ed.selectedInTurn sels).press (.text 'd')).2.host.text = ['a', 'b', 'd'] := by
  intro ed sels
  have hwithin : ∀ sel ∈ sels, sel.Within ed.host.text.length := by
    simp [sels, ed, Host.ofText, Selection.Within]
  obtain ⟨held, hheld, -, htext, -⟩ :=
    @delete_heldSelection ed rfl rfl sels hwithin _ rfl rfl (.text 'd') rfl
  obtain rfl : (⟨3, 2⟩ : Selection) = held := Option.some.inj hheld
  exact ⟨rfl, rfl, hwithin, htext⟩

/-- A selection that is drawn out is not taken as it is last: `d` removes what it was at first. -/
theorem delete_not_lastSelection :
    let ed : Editor := ⟨Session.new .normal {} none, .ofText ['a', 'b', 'c', 'd'] 0⟩
    let last : Selection := ⟨0, 3⟩
    let after := ((ed.selectedInTurn [⟨0, 1⟩, last]).press (.text 'd')).2
    ed.host.Grants ∧ last.isEmpty = false ∧ last.Within ed.host.text.length ∧
      ed.host.text.splice last.start last.stop [] = ['d'] ∧
      after.host.text = ['b', 'c', 'd'] ∧
      after.session.registers.read Registers.unnamed = some ⟨false, ['a']⟩ := by
  intro ed last after
  exact ⟨⟨rfl, rfl, rfl⟩, rfl, ⟨by decide, by decide⟩, by decide, by decide, by decide⟩

end Editor

end ModalEdit
