import ModalEdit.Proofs.Commands
import ModalEdit.Proofs.Granting
import ModalEdit.Proofs.Soundness
import ModalEdit.Text.Lines.Lemmas

/-!
# Where the cursor rests

In Normal and OperatorPending mode the host's selection is a cursor on a character, or at column 0
of an empty line: at a *Normal position*. On a host that grants everything and changes nothing by
itself, every run of keys keeps it there (`cursor_rests`).

The invariant (`Settled`) speaks of the host only while no visual selection is shown and nothing is
typed. There every command either leaves the host alone or commits, and a commit that settles in
Normal mode places the cursor on a resting index of the text after its own edit
(`isNormal_restingIndex`), whatever the text is: undone, typed or put. A visual selection that is
given up collapses to a resting index as well.
-/

namespace ModalEdit

namespace Text

variable {t : Text}

/-- The index is on a character other than a line break, or at column 0 of an empty line. -/
def IsNormal (t : Text) (i : Nat) : Prop :=
  (∃ c, t[i]? = some c ∧ c ≠ '\n') ∨ ∃ l ≤ t.lastLine, t.line l = [] ∧ i = t.lineStart l

theorem getElem?_lineStart_add {l k : Nat} (hk : k < t.lineLength l) :
    t[t.lineStart l + k]? = (t.line l)[k]? := by
  obtain ⟨rest, hrest⟩ := List.takeWhile_prefix (· ≠ '\n') (l := t.drop (t.lineStart l))
  rw [← List.getElem?_drop, ← hrest]
  exact List.getElem?_append_left hk

theorem ne_lineBreak_of_mem_line {l : Nat} {c : Char} (h : c ∈ t.line l) : c ≠ '\n' := by
  have hall := List.all_eq_true.1 (List.all_takeWhile (p := (· ≠ '\n'))) c h
  simpa using hall

/-- The indices before the end of their line are those on a character other than a line break. -/
theorem lt_lineEnd_lineOf_iff {i : Nat} :
    i < t.lineEnd (t.lineOf i) ↔ ∃ c, t[i]? = some c ∧ c ≠ '\n' := by
  constructor
  · intro hend
    have hle := t.lineEnd_le_length (t.lineOf i)
    have hstart := t.lineStart_lineOf_le i (by omega)
    obtain ⟨k, hk⟩ := Nat.exists_eq_add_of_le hstart
    have hlt : k < (t.line (t.lineOf i)).length := by
      rw [← lineLength]
      rw [lineEnd] at hend
      omega
    refine ⟨(t.line (t.lineOf i))[k], ?_, ne_lineBreak_of_mem_line (List.getElem_mem hlt)⟩
    rw [← List.getElem?_eq_getElem hlt, ← getElem?_lineStart_add hlt, ← hk]
  · rintro ⟨c, hget, hc⟩
    obtain ⟨hlt, -⟩ := List.getElem?_eq_some_iff.1 hget
    refine Nat.lt_of_le_of_ne (le_lineEnd_lineOf (Nat.le_of_lt hlt)) fun hi => ?_
    -- past the last character of a line stands a line break or nothing
    rcases Nat.lt_or_eq_of_le (t.lineOf_le_lastLine i) with hlast | hlast
    · have hbreak := getElem?_lineEnd hlast
      rw [← hi, hget] at hbreak
      exact hc (Option.some.inj hbreak)
    · rw [hlast, lineEnd_lastLine] at hi
      omega

/-- **Resting indices are Normal positions.** -/
theorem isNormal_restingIndex (t : Text) (i : Nat) : t.IsNormal (t.restingIndex i) := by
  simp only [restingIndex, lastColumn, Position.ofIndex_line]
  have hlast := t.lineOf_le_lastLine i
  generalize t.lineOf i = l at hlast
  cases hline : t.line l with
  | nil =>
    have hlength : t.lineLength l = 0 := by simp [lineLength, hline]
    refine Or.inr ⟨l, hlast, hline, ?_⟩
    omega
  | cons c cs =>
    have hlength : 0 < t.lineLength l := by simp [lineLength, hline]
    have hk : min (Position.ofIndex t i).col (t.lineLength l - 1) < t.lineLength l := by omega
    have hget := getElem?_lineStart_add hk
    rw [List.getElem?_eq_getElem hk] at hget
    exact Or.inl ⟨_, hget, ne_lineBreak_of_mem_line (List.getElem_mem hk)⟩

end Text

/-- The host's selection is a cursor at a Normal position. -/
def Host.AtRest (h : Host) : Prop :=
  ∃ i, h.selection = .cursor i ∧ h.text.IsNormal i

theorem Host.atRest_committed {c : Commit} (hrest : c.rest = .normal) (h : Host) :
    (h.committed c).AtRest := by
  refine ⟨_, h.selection_committed c, ?_⟩
  unfold Commit.cursor
  rw [hrest]
  exact Text.isNormal_restingIndex _ _

namespace Editor

variable {ed : Editor}

/-- The host grants everything, and it is at rest unless a visual selection is shown. Commands are
executed so. -/
structure Rested (ed : Editor) : Prop where
  grants : ed.host.Grants
  rests : ed.session.visual = none → ed.host.AtRest

/-- The editor is rested, or text is typed. -/
structure Settled (ed : Editor) : Prop where
  grants : ed.host.Grants
  rests : ed.session.mode ≠ .insert → ed.session.visual = none → ed.host.AtRest

theorem Rested.settled (h : ed.Rested) : ed.Settled := ⟨h.grants, fun _ => h.rests⟩

theorem Settled.rested (h : ed.Settled) (hmode : ed.session.mode ≠ .insert) : ed.Rested :=
  ⟨h.grants, h.rests hmode⟩

theorem Rested.congr (h : ed.Rested) {s : Session} (hvisual : s.visual = ed.session.visual) :
    Rested { ed with session := s } :=
  ⟨h.grants, fun hs => h.rests (hvisual ▸ hs)⟩

theorem Settled.congr (h : ed.Settled) {s : Session} (hvisual : s.visual = ed.session.visual)
    (hinput : s.input = ed.session.input) : Settled { ed with session := s } := by
  refine ⟨h.grants, fun hmode hs => h.rests ?_ (hvisual ▸ hs)⟩
  unfold Session.mode at hmode ⊢
  exact hinput ▸ hmode

theorem Settled.withRecord (h : ed.Settled) (last : Option LastChange) (recording : Bool) :
    (ed.withRecord last recording).Settled :=
  h.congr rfl rfl

/-- **Every commit settles the editor.** -/
theorem settled_committed (hg : ed.host.Grants) (c : Commit) : (ed.committed c).Settled := by
  refine ⟨hg.committed c, fun hmode _ => Host.atRest_committed ?_ ed.host⟩
  cases hrest : c.rest with
  | normal => rfl
  | insert => exact absurd (show c.rest.mode = .insert by rw [hrest]; rfl) hmode

theorem settled_carried (h : ed.Rested) (plan : Plan) : (ed.carried plan).Settled := by
  cases plan with
  | drop => exact (h.congr (s := ed.session.dropPending) rfl).settled
  | commit c => exact settled_committed h.grants c
  | select kind ends column => exact ⟨h.grants.placed _, fun _ => nofun⟩

/-! ## Work -/

/-- The work is never refused and settles the editor. -/
def EndsSettled (work : Attempt Unit) (ed : Editor) : Prop :=
  Ends work ed (fun _ ed => ed.Settled) (fun _ => False)

theorem settled_commit (hg : ed.host.Grants) (c : Commit) : EndsSettled (commit c) ed :=
  ends_commit_granted hg (settled_committed hg c)

theorem settled_carryOutChange (h : ed.Rested) (plan : Plan) (repeatable : Option Repeatable) :
    EndsSettled (carryOutChange plan repeatable) ed :=
  ends_carryOutChange_record (ends_carryOut_granted h.grants (settled_carried h plan).withRecord)

theorem settled_insertText (hg : ed.host.Grants) (text : Text) :
    EndsSettled (insertText text) ed :=
  ends_insertText (ends_commit_granted hg (settled_committed hg _).withRecord)

theorem settled_eraseChar (h : ed.Settled) : EndsSettled eraseChar ed :=
  ends_eraseChar h fun c _ =>
    ends_commit_granted h.grants (settled_committed h.grants c).withRecord

theorem settled_leaveInsert (hg : ed.host.Grants) : EndsSettled leaveInsert ed := by
  refine ends_leaveInsert (settled_commit ?_ _)
  exact hg

theorem settled_replay (h : ed.Rested) (change : Repeatable) (typed : Text) :
    EndsSettled (replay change typed) ed := by
  have hprepared : (ed.prepared change).Rested :=
    h.congr (by rw [Session.prepareRepeat_frame])
  have hcarried := settled_carried hprepared (ed.planOf change)
  refine ends_replay (ends_carryOut_granted hprepared.grants ⟨fun _ => hcarried, ?_, ?_⟩)
  · exact fun _ _ => settled_leaveInsert hcarried.grants
  · intro _
    refine (settled_insertText hcarried.grants typed).mono ?_ fun _ h => h
    exact fun _ _ h => settled_leaveInsert h.grants

/-- Executing a command settles the editor. Undoing does so whatever text comes back, because it
ends in a commit. -/
theorem settled_execute (h : ed.Rested) (command : Command) :
    EndsSettled (execute command) ed := by
  refine ends_execute ?_ ?_ ?_ ?_ ?_
  · intro plan _
    have hnoted : (ed.noted command).Rested := h.congr (by rw [Session.noteCommand_frame])
    exact settled_carryOutChange hnoted plan _
  · exact fun _ _ _ => (h.congr (by rfl)).settled
  · intro count _
    refine ends_bind (ends_undo_granted h.grants (ends_bind (ends_get ?_)))
    refine settled_commit ?_ _
    exact h.grants.undone (max count 1)
  · intro count _
    refine ends_repeatChange (fun _ => (h.congr (by rfl)).settled) fun last _ => ?_
    have hreplaying : ed.replaying.Rested := h.congr rfl
    refine (settled_replay hreplaying _ _).mono ?_ fun _ h => h
    exact fun _ _ h => h.congr rfl rfl
  · exact fun _ _ _ _ => (h.congr (by rfl)).settled

/-! ## Keys -/

/-- Giving a command up collapses a visual selection to a resting index. -/
theorem settled_reset (h : ed.Rested) : ed.reset.Settled := by
  unfold reset
  cases hvisual : ed.session.visual with
  | none => exact ⟨h.grants, fun _ _ => h.rests hvisual⟩
  | some ends =>
    dsimp only
    rw [Host.requestSelection_granted h.grants]
    exact ⟨h.grants.placed _, fun _ _ => ⟨_, rfl, Text.isNormal_restingIndex _ _⟩⟩

theorem settled_commandChar (h : ed.Rested) (c : Char) :
    Ends (commandChar c) ed (fun _ ed => ed.Settled) (fun _ => False) := by
  have hread : ∀ i, (ed.withInput i).Rested := fun i => h.congr rfl
  refine ends_commandChar ?_ ?_ ?_
  · exact fun i _ => (hread i).settled
  · exact fun i _ => settled_reset (hread i)
  · exact fun command i _ => settled_execute (hread i) command

theorem settled_insertStroke (h : ed.Settled) (k : Stroke) : EndsSettled (insertStroke k) ed := by
  cases k with
  | char c => exact settled_insertText h.grants [c]
  | backspace => exact settled_eraseChar h
  | escape => exact settled_leaveInsert h.grants

theorem settled_dispatch (h : ed.Settled) (event : InputEvent) :
    Ends (dispatch event) ed (fun _ ed => ed.Settled) (fun _ => False) := by
  refine ends_dispatch ?_ (fun _ => h) ?_ fun hmode => settled_reset (h.rested hmode)
  · exact fun _ k _ => settled_insertStroke h k
  · exact fun hmode c _ => settled_commandChar (h.rested hmode) c

/-- **Key events keep the editor settled.** -/
theorem settled_press (h : ed.Settled) (event : InputEvent) : (ed.press event).2.Settled :=
  press_of_ends (settled_dispatch h event) fun _ => False.elim

/-! ## Histories -/

theorem settled_happen (h : ed.Settled) {x : Happening} (hx : x.isInput = true) :
    (ed.happen x).Settled := by
  cases x with
  | event e => exact settled_press h e
  | key written =>
    obtain ⟨e, he⟩ := Option.isSome_iff_exists.1 hx
    simp only [happen, pressKey, he]
    exact settled_press h e
  | keys written => exact keeps_keys (P := Settled) (fun _ e h => settled_press h e) h _
  | forward =>
    simp only [happen, forward]
    split
    · exact h
    · exact ⟨⟨h.grants.edits, h.grants.selections, h.grants.undos⟩, h.rests⟩
  | registersChange registers => exact h.congr rfl rfl
  | _ => cases hx

theorem Settled.atRest (h : ed.Settled) (hrest : ed.Resting)
    (hmode : ed.session.mode = .normal ∨ ed.session.mode = .operatorPending) :
    ed.host.AtRest := by
  have hinsert : ed.session.mode ≠ .insert := by rcases hmode with h | h <;> rw [h] <;> nofun
  have hjump : ed.session.mode ≠ .jump := by rcases hmode with h | h <;> rw [h] <;> nofun
  have hvisual : ed.session.mode.isVisual = false := by rcases hmode with h | h <;> rw [h] <;> rfl
  exact h.rests hinsert ((hrest.1.open_of hinsert hjump).visual_eq_none hvisual)

/-- Editors made from new sessions are settled after every run of keys, if they begin at a Normal
position or in Insert mode. -/
theorem settled_happenAll (rest : Rest) {host : Host} (hg : host.Grants) {i : Nat}
    (hselection : host.selection = .cursor i)
    (hstart : rest = .normal ∧ host.text.IsNormal i ∨ rest = .insert ∧ i ≤ host.text.length)
    (config : Config) (clipboard : Option (Option Text)) {history : List Happening}
    (hinput : ∀ x ∈ history, x.isInput = true) :
    ((⟨Session.new rest.mode config clipboard, host⟩ : Editor).happenAll history).Settled := by
  have hnew : (⟨Session.new rest.mode config clipboard, host⟩ : Editor).Settled := by
    refine ⟨hg, fun hmode _ => ?_⟩
    rcases hstart with ⟨-, hi⟩ | ⟨rfl, -⟩
    · exact ⟨i, hselection, hi⟩
    · exact absurd rfl hmode
  exact history_induction (P := Settled) (fun _ _ hx h => settled_happen h hx) hnew history hinput

/-- **The cursor rests at a Normal position** in Normal and OperatorPending mode, after every run of
keys on a host that grants everything and changes nothing by itself. -/
theorem cursor_rests (rest : Rest) {host : Host} (hg : host.Grants) {i : Nat}
    (hselection : host.selection = .cursor i)
    (hstart : rest = .normal ∧ host.text.IsNormal i ∨ rest = .insert ∧ i ≤ host.text.length)
    (config : Config) (clipboard : Option (Option Text)) {history : List Happening}
    (hinput : ∀ x ∈ history, x.isInput = true) {ed : Editor}
    (hed : ed = (⟨Session.new rest.mode config clipboard, host⟩ : Editor).happenAll history)
    (hmode : ed.session.mode = .normal ∨ ed.session.mode = .operatorPending) :
    ∃ j, ed.host.selection = .cursor j ∧ ed.host.text.IsNormal j := by
  have hresting : ed.Resting := hed ▸ resting_happenAll rest config clipboard host history
  have hsettled : ed.Settled :=
    hed ▸ settled_happenAll rest hg hselection hstart config clipboard hinput
  exact hsettled.atRest hresting hmode

/-- Typing in the empty text and leaving Insert mode. -/
theorem cursor_rests_typed :
    ∃ j, ((⟨Session.new .insert {} none, .ofText [] 0⟩ : Editor).happenAll
      [.event (.text 'a'), .event (.plain .escape)]).host.selection = .cursor j ∧
      ((⟨Session.new .insert {} none, .ofText [] 0⟩ : Editor).happenAll
        [.event (.text 'a'), .event (.plain .escape)]).host.text.IsNormal j :=
  cursor_rests .insert ⟨rfl, rfl, rfl⟩ rfl (Or.inr ⟨rfl, Nat.le_refl 0⟩) {} none (by decide) rfl
    (Or.inl (by decide))

end Editor

end ModalEdit
