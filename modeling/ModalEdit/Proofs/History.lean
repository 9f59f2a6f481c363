import ModalEdit.Proofs.Attempt

/-!
# Histories

A history is a list of happenings: keys fed to the editor, reports of the host, and whatever happens
to the host and the registers from elsewhere. What each happening keeps, every history keeps
(`history_induction`); and what each key event keeps, keys in writing keep as well (`keeps_keys`,
`keeps_key`).
-/

namespace ModalEdit

/-- What can happen to an editor. -/
inductive Happening where
  /-- A key event is fed. -/
  | event (event : InputEvent)
  /-- One key is fed in writing. -/
  | key (written : List Char)
  /-- A sequence of keys is fed in writing. -/
  | keys (written : List Char)
  /-- The host passes on the changes it collected. -/
  | forward
  /-- The host reports changes that left the text `after`. -/
  | changesReported (after : Text) (changes : List Change)
  /-- The host reports its selections. -/
  | selectionsReported (selections : List Selection)
  /-- The host comes to be another one, with any text, selection and history and with any refusals
  to come. Its journal goes on. -/
  | hostChanges (host : Host)
  /-- The registers or the clipboard are set from elsewhere. -/
  | registersChange (registers : Registers)

/-- Keys are fed, changes are passed on and registers are set: nothing touches the document but what
the keys ask for. A single key in writing has to be one. -/
def Happening.isInput : Happening → Bool
  | event _ | keys _ | forward | registersChange _ => true
  | key written => (KeyNotation.parse written).isSome
  | _ => false

namespace Editor

/-- The editor after a happening. -/
def happen (ed : Editor) : Happening → Editor
  | .event e => (ed.press e).2
  | .key written => (ed.pressKey written).2
  | .keys written => (ed.pressAll (KeyNotation.parseAll written)).2
  | .forward => ed.forward
  | .changesReported after changes => { ed with session := ed.session.noteChanges after changes }
  | .selectionsReported selections => { ed with session := ed.session.noteSelections selections }
  | .hostChanges host => { ed with host := { host with journal := ed.host.journal } }
  | .registersChange registers => { ed with session := { ed.session with registers } }

/-- The editor after a history. -/
def happenAll (ed : Editor) (history : List Happening) : Editor :=
  history.foldl happen ed

variable {P : Editor → Prop}

theorem history_induction {A : Happening → Prop}
    (hstep : ∀ ed x, A x → P ed → P (ed.happen x)) {ed : Editor} (hP : P ed)
    (history : List Happening) (h : ∀ x ∈ history, A x) : P (ed.happenAll history) := by
  induction history generalizing ed with
  | nil => exact hP
  | cons x history ih =>
    exact ih (hstep ed x (h x (by simp)) hP) fun y hy => h y (List.mem_cons_of_mem x hy)

theorem keeps_keys (hpress : ∀ ed e, P ed → P (ed.press e).2) {ed : Editor} (hP : P ed)
    (events : List InputEvent) : P (ed.pressAll events).2 := by
  induction events generalizing ed with
  | nil => exact hP
  | cons e events ih => exact ih (hpress ed e hP)

theorem keeps_key (hpress : ∀ ed e, P ed → P (ed.press e).2) (hreset : ∀ ed, P ed → P ed.reset)
    {ed : Editor} (hP : P ed) (written : List Char) : P (ed.pressKey written).2 := by
  unfold pressKey
  split
  · exact hpress ed _ hP
  · exact hreset ed hP

/-- An event that is done leaves the editor of its work, and one that is refused resets it. -/
theorem press_of_ends {ed : Editor} {e : InputEvent} {E : Editor → Prop}
    (h : Ends (dispatch e) ed (fun _ ed => P ed) E) (hreset : ∀ ed, E ed → P ed.reset) :
    P (ed.press e).2 := by
  unfold Ends at h
  unfold press
  cases hd : dispatch e ed with
  | ok command ed' => rw [hd] at h; exact h
  | error err ed' => rw [hd] at h; exact hreset ed' h

end Editor

end ModalEdit
