import ModalEdit.Proofs.Landing
import ModalEdit.Proofs.LineList
import ModalEdit.Proofs.Spelling

/-!
# Putting and opening lines

On the list of lines, putting a register of whole lines and opening a line are insertions: the lines
come in before the cursor's line or after it, all others stay, and the cursor goes to the first of
them (`put_open_lines`).

After the last line there is no line start to insert at. There the line break goes in front of the
lines instead of after them, and opening a line below always does it that way
(`lines_splice_lineEnd`).
-/

namespace ModalEdit

variable {t : Text} {ls : List Text} {l : Nat}

/-- The number of the first line put in above or below a line. -/
def insertedLine (below : Bool) (l : Nat) : Nat :=
  if below then l + 1 else l

namespace Session

variable {s : Session} {sel : Selection}

/-- **Putting lines inserts them into the list of lines.** -/
theorem lines_putLines (hne : ls ≠ []) (h : ∀ line ∈ ls, '\n' ∉ line) (hl : l ≤ t.lastLine)
    (below : Bool) :
    ((putLines t (Text.ofLines ls) below l).1.apply t).lines =
      t.lines.take (insertedLine below l) ++ (ls ++ t.lines.drop (insertedLine below l)) := by
  cases below with
  | false => exact Text.lines_splice_lineStart (Nat.le_refl l) hl h
  | true =>
    rcases Nat.lt_or_eq_of_le hl with hlast | hlast
    · simp only [putLines, Bool.not_true, Bool.false_eq_true, if_false, hlast, if_true]
      exact Text.lines_splice_lineStart (Nat.le_refl (l + 1)) hlast h
    · obtain ⟨u, hu⟩ := Text.ofLines_eq_append_lineBreak hne
      have hlines := Text.lines_splice_lineEnd hl u
      rw [Text.lines_of_append_lineBreak h hu.symm] at hlines
      simp only [putLines, Bool.not_true, Bool.false_eq_true, if_false, hlast, Nat.lt_irrefl, hu,
        List.getLast?_concat, if_true, List.dropLast_concat]
      exact hlast ▸ hlines

theorem putLines_landing (t text : Text) (below : Bool) (l : Nat) :
    (putLines t text below l).2 = .lineText (insertedLine below l) := by
  cases below with
  | false => rfl
  | true =>
    simp only [putLines, Bool.not_true, Bool.false_eq_true, if_false]
    split <;> rfl

theorem planPut_linewise {n : Nat} {text : Text}
    (hread : s.registers.read s.registerName = some ⟨true, text⟩)
    (hfits : text.utf8Length * n ≤ putLimit) (below : Bool) :
    s.planPut t sel n below =
      .commit
        { edit := some (putLines t (text.copies n) below (t.lineOf (s.cursor t sel))).1
          landing := .lineText (insertedLine below (t.lineOf (s.cursor t sel))) } := by
  simp only [planPut, hread, if_pos hfits, if_true, ← putLines_landing t (text.copies n)]

theorem planPut_ofLines {n : Nat}
    (hread : s.registers.read s.registerName = some ⟨true, Text.ofLines ls⟩)
    (hfits : (Text.ofLines ls).utf8Length * n ≤ putLimit) (hne : (List.replicate n ls).flatten ≠ [])
    (h : ∀ line ∈ ls, '\n' ∉ line) (below : Bool) :
    ∃ c, s.planPut t sel n below = .commit c ∧
      (c.edit.elim t (·.apply t)).lines =
        t.lines.take (insertedLine below (t.lineOf (s.cursor t sel))) ++
          ((List.replicate n ls).flatten ++
            t.lines.drop (insertedLine below (t.lineOf (s.cursor t sel)))) ∧
      c.landing = .lineText (insertedLine below (t.lineOf (s.cursor t sel))) ∧
      c.rest = .normal := by
  refine ⟨_, planPut_linewise hread hfits below, ?_, rfl, rfl⟩
  have hcopies : ∀ line ∈ (List.replicate n ls).flatten, '\n' ∉ line := by
    intro line hline
    obtain ⟨copy, hcopy, hline⟩ := List.mem_flatten.1 hline
    exact h line (List.eq_of_mem_replicate hcopy ▸ hline)
  rw [Text.copies_ofLines]
  exact lines_putLines hne hcopies (t.lineOf_le_lastLine _) below

/-- **Opening a line inserts an empty one into the list of lines.** -/
theorem planInsert_open (s : Session) (t : Text) (sel : Selection) (below : Bool) :
    ∃ c, s.planInsert t sel (if below then .openBelow else .openAbove) = .commit c ∧
      (c.edit.elim t (·.apply t)).lines =
        t.lines.take (insertedLine below (t.lineOf (s.cursor t sel))) ++
          ([[]] ++ t.lines.drop (insertedLine below (t.lineOf (s.cursor t sel)))) ∧
      c.landing = .index
        (Text.ofLines (t.lines.take (insertedLine below (t.lineOf (s.cursor t sel))))).length ∧
      c.rest = .insert := by
  have hl := t.lineOf_le_lastLine (s.cursor t sel)
  cases below with
  | false =>
    refine ⟨_, rfl, ?_, ?_, rfl⟩
    · show Text.lines (t.splice _ _ (Text.ofLines [[]])) = _
      exact Text.lines_splice_lineStart (Nat.le_refl _) hl (by simp)
    · exact congrArg Landing.index (Text.lineStart_eq_length hl)
  | true =>
    refine ⟨_, rfl, Text.lines_splice_lineEnd hl [], ?_, rfl⟩
    exact congrArg Landing.index (Text.lineEnd_add_one_eq_length hl)

end Session

namespace Editor

variable {ed : Editor} {k : Nat}

/-- Lines were put in as line `k` and the following ones. -/
def LinesInserted (new : List Text) (k : Nat) (ed after : Editor) : Prop :=
  after.host.text.lines = ed.host.text.lines.take k ++ (new ++ ed.host.text.lines.drop k)

theorem insertedLine_le (below : Bool) (hl : l ≤ t.lastLine) :
    insertedLine below l ≤ t.lastLine + 1 := by
  cases below with
  | false => exact Nat.le_succ_of_le hl
  | true => exact Nat.succ_le_succ hl

theorem cursorAt_put {c : Commit} (hk : k ≤ ed.host.text.lastLine + 1) (hne : ls ≠ [])
    (hlines : LinesInserted ls k ed (ed.committed c)) (hlanding : c.landing = .lineText k)
    (hrest : c.rest = .normal) :
    (ed.committed c).CursorAt .normal ((ed.committed c).host.text.firstNonBlank k) := by
  obtain ⟨hle, -⟩ := Text.lineStart_of_lines hk (List.append_ne_nil_of_left_ne_nil hne _) hlines
  have hcursor : (ed.committed c).CursorAt _ _ := cursorAt_lineText hlanding hrest
  rwa [Nat.min_eq_left hle] at hcursor

theorem cursorAt_open {c : Commit} (hk : k ≤ ed.host.text.lastLine + 1)
    (hlines : LinesInserted [[]] k ed (ed.committed c))
    (hlanding : c.landing = .index (Text.ofLines (ed.host.text.lines.take k)).length)
    (hrest : c.rest = .insert) :
    (ed.committed c).CursorAt .insert ((ed.committed c).host.text.lineStart k) := by
  obtain ⟨-, hstart⟩ := Text.lineStart_of_lines hk (List.cons_ne_nil _ _) hlines
  rw [hstart]
  refine cursorAt_index hlanding hrest ?_
  rw [← hstart]
  exact Text.lineStart_le_length _ _

/-! ## Keys of Normal mode -/

section

variable {event : InputEvent} {below : Bool} {c : Commit}

theorem press_put (hg : ed.host.Grants) (hmode : ed.session.mode = .normal)
    (hlookahead : ed.session.input.lookahead = none)
    (hstroke : event.stroke? = some (.char (if below then 'p' else 'P'))) {n : Nat}
    (hn : ed.session.input.count.getD 1 = n) (hpos : 1 ≤ n)
    (hplan : ed.session.planPut ed.host.text ed.host.selection n below = .commit c) :
    ∃ lastChange recording,
      (ed.press event).2 = (ed.committed c).withChange lastChange recording := by
  have hinsert : ed.session.mode ≠ .insert := by rw [hmode]; nofun
  have hkey : Instant.ofKey (if below then 'p' else 'P') =
      some (.quick (if below then .putAfter else .putBefore)) := by cases below <;> rfl
  have hcompletes := completes_eq hinsert hstroke (Input.read_quickKey hkey hmode hlookahead)
  have hput : (ed.withInput { ed.session.input with count := none }).planOfCommand
      (.instant (.quick (if below then .putAfter else .putBefore)) n) =
      some (ed.session.planPut ed.host.text ed.host.selection (max n 1) below) := by
    cases below <;> rfl
  rw [Nat.max_eq_left hpos, hplan] at hput
  obtain ⟨lastChange, recording, hpress⟩ := press_of_plan hg (hn ▸ hcompletes) hput
  exact ⟨lastChange, recording, congrArg Prod.snd hpress⟩

theorem press_open (hg : ed.host.Grants) (hmode : ed.session.mode = .normal)
    (hlookahead : ed.session.input.lookahead = none)
    (hstroke : event.stroke? = some (.char (if below then 'o' else 'O')))
    (hplan : ed.session.planInsert ed.host.text ed.host.selection
      (if below then .openBelow else .openAbove) = .commit c) :
    ∃ lastChange recording,
      (ed.press event).2 = (ed.committed c).withChange lastChange recording := by
  have hinsert : ed.session.mode ≠ .insert := by rw [hmode]; nofun
  have hkey : Entry.ofKey (if below then 'o' else 'O') =
      some (.insert (if below then .openBelow else .openAbove)) := by cases below <;> rfl
  have hcompletes := completes_eq hinsert hstroke (Input.read_insertKey hkey hmode hlookahead)
  have hopen : (ed.withInput ed.session.input).planOfCommand
      (.enter (.insert (if below then .openBelow else .openAbove))) = some (.commit c) :=
    congrArg some hplan
  obtain ⟨lastChange, recording, hpress⟩ := press_of_plan hg hcompletes hopen
  exact ⟨lastChange, recording, congrArg Prod.snd hpress⟩

end

/-- **Putting and opening lines are insertions into the list of lines.** `p` and `P` put copies of
the lines of a register after or before the cursor's line, as many as the count says, and rest on
the first of them; `o` and `O` open one empty line there and type on it. -/
theorem put_open_lines (hg : ed.host.Grants) (hmode : ed.session.mode = .normal)
    (hlookahead : ed.session.input.lookahead = none) {event : InputEvent} (below : Bool) {k : Nat}
    (hk : k = insertedLine below
      (ed.host.text.lineOf (ed.session.cursor ed.host.text ed.host.selection))) :
    (∀ (ls : List Text) (n : Nat), ls ≠ [] → (∀ line ∈ ls, '\n' ∉ line) →
      ed.session.registers.read ed.session.registerName = some ⟨true, Text.ofLines ls⟩ →
      ed.session.input.count.getD 1 = n → 1 ≤ n →
      n * (Text.ofLines ls).utf8Length ≤ 64 * 1024 * 1024 →
      event.stroke? = some (.char (if below then 'p' else 'P')) →
      LinesInserted (List.replicate n ls).flatten k ed (ed.press event).2 ∧
      (ed.press event).2.CursorAt .normal ((ed.press event).2.host.text.firstNonBlank k)) ∧
    (event.stroke? = some (.char (if below then 'o' else 'O')) →
      LinesInserted [[]] k ed (ed.press event).2 ∧
      (ed.press event).2.CursorAt .insert ((ed.press event).2.host.text.lineStart k)) := by
  have hl := ed.host.text.lineOf_le_lastLine (ed.session.cursor ed.host.text ed.host.selection)
  have hk' : k ≤ ed.host.text.lastLine + 1 := hk ▸ insertedLine_le below hl
  subst hk
  refine ⟨fun ls n hne hls hread hn hpos hfits hstroke => ?_, fun hstroke => ?_⟩
  · rw [Nat.mul_comm] at hfits
    have hcopies : (List.replicate n ls).flatten ≠ [] := by
      obtain ⟨m, rfl⟩ := Nat.exists_eq_add_of_le' hpos
      rw [List.replicate_succ, List.flatten_cons]
      exact List.append_ne_nil_of_left_ne_nil hne _
    obtain ⟨c, hplan, hlines, hlanding, hrest⟩ :=
      Session.planPut_ofLines hread hfits hcopies hls below
    obtain ⟨lastChange, recording, hpress⟩ := press_put hg hmode hlookahead hstroke hn hpos hplan
    have hinserted : LinesInserted (List.replicate n ls).flatten _ ed (ed.committed c) :=
      (congrArg Text.lines (Host.text_committed c ed.host)).trans hlines
    have hcursor := cursorAt_put hk' hcopies hinserted hlanding hrest
    rw [hpress]
    exact ⟨hinserted, hcursor.mode, hcursor.selection⟩
  · obtain ⟨c, hplan, hlines, hlanding, hrest⟩ :=
      ed.session.planInsert_open ed.host.text ed.host.selection below
    obtain ⟨lastChange, recording, hpress⟩ := press_open hg hmode hlookahead hstroke hplan
    have hinserted : LinesInserted [[]] _ ed (ed.committed c) :=
      (congrArg Text.lines (Host.text_committed c ed.host)).trans hlines
    have hcursor := cursorAt_open hk' hinserted hlanding hrest
    rw [hpress]
    exact ⟨hinserted, hcursor.mode, hcursor.selection⟩

/-- Two lines are put twice after the last line, which has no line break, and a line is opened
there. -/
theorem put_open_lines_afterLast :
    let ed := ((⟨.new .normal {} none, .ofText ['u', '\n', '\n', 'b'] 0⟩ : Editor).pressAll
      [.text '2', .text 'y', .text 'y', .text 'j', .text 'j', .text '2']).2
    ed.host.Grants ∧ ed.session.mode = .normal ∧ ed.session.input.lookahead = none ∧
      3 = insertedLine true
        (ed.host.text.lineOf (ed.session.cursor ed.host.text ed.host.selection)) ∧
      ed.session.registers.read ed.session.registerName =
        some ⟨true, Text.ofLines [['u'], []]⟩ ∧
      ed.session.input.count.getD 1 = 2 ∧
      2 * (Text.ofLines [['u'], []]).utf8Length ≤ 64 * 1024 * 1024 ∧
      LinesInserted [['u'], [], ['u'], []] 3 ed (ed.press (.text 'p')).2 ∧
      (ed.press (.text 'p')).2.CursorAt .normal
        ((ed.press (.text 'p')).2.host.text.firstNonBlank 3) ∧
      LinesInserted [[]] 3 ed (ed.press (.text 'o')).2 ∧
      (ed.press (.text 'o')).2.CursorAt .insert
        ((ed.press (.text 'o')).2.host.text.lineStart 3) := by
  intro ed
  have hg : ed.host.Grants := ⟨by decide, by decide, by decide⟩
  have hmode : ed.session.mode = .normal := by decide
  have hlookahead : ed.session.input.lookahead = none := by decide
  have hk : 3 = insertedLine true
      (ed.host.text.lineOf (ed.session.cursor ed.host.text ed.host.selection)) := by decide
  have hread : ed.session.registers.read ed.session.registerName =
      some ⟨true, Text.ofLines [['u'], []]⟩ := by decide
  have hn : ed.session.input.count.getD 1 = 2 := by decide
  have hfits : 2 * (Text.ofLines [['u'], []]).utf8Length ≤ 64 * 1024 * 1024 := by decide
  have hput := (put_open_lines hg hmode hlookahead true hk).1 [['u'], []] 2 (by decide)
    (by decide) hread hn (by decide) hfits (rfl : (InputEvent.text 'p').stroke? = _)
  have hopen := (put_open_lines hg hmode hlookahead true hk).2
    (rfl : (InputEvent.text 'o').stroke? = _)
  exact ⟨hg, hmode, hlookahead, hk, hread, hn, hfits, hput.1, hput.2, hopen.1, hopen.2⟩

end Editor

end ModalEdit
