import ModalEdit.Proofs.Escaping
import ModalEdit.Proofs.Highlighting
import ModalEdit.Proofs.Refusals
import ModalEdit.Proofs.Repeating

/-!
# Keys that do the same

Some keys are shorthands: `x` is `dl`, `S` is `cc`, and so on (`Operator.shorthand`), with any count
and register typed before (`Input.Preface`). The keys are read as other commands, but the ranges
that these operate on have the same region, and a commit is made of the region. So the two runs show
the same (`synonyms_sameView`).

Lines that keys have selected are another way to spell a count: deleting or changing them is `dd` or
`cc` on the first of them with as many lines. Here the ranges differ as well, and only the lines
that they touch are the same. The keys that select, forward or backward, may be any that complete
nothing but motions, text objects and visual selections; those leave the text and the registers
(`selecting_pressAll`).
-/

namespace ModalEdit

/-! ## Counts and registers typed before a command -/

theorem Count.push_le (count : Option Nat) (digit : Nat) : push count digit ≤ limit :=
  Nat.min_le_right _ _

theorem Count.digit?_digitChar : ∀ d < 10, digit? d.digitChar = some d := by decide

namespace Input

variable {t : Text} {config : Config} {command : Command} {i' : Input} {op : Operator}
  {keys : List Char} {count : Option Nat} {register : Option Char}

/-- Keys of Normal mode that select a register and type digits of a count, in any order, and what
they come to. -/
inductive Preface : List Char → Option Nat → Option Char → Prop
  | nil : Preface [] none none
  | digit {keys : List Char} {count : Option Nat} {register : Option Char} {c : Char} {d : Nat} :
      Preface keys count register → Count.digit? c = some d → (count = none → c ≠ '0') →
      Preface (keys ++ [c]) (some (Count.push count d)) register
  | register {keys : List Char} {count : Option Nat} {register : Option Char} {c : Char} :
      Preface keys count register → isRegisterName c = true →
      Preface (keys ++ ['"', c]) count (some c)

theorem preface_toDigits {n : Nat} (h : 0 < n) :
    Preface (Nat.toDigits 10 n) (some (min n Count.limit)) none := by
  induction n using Nat.strongRecOn with
  | ind n ih =>
    rcases Nat.lt_or_ge n 10 with hlt | hge
    · have hzero : n.digitChar ≠ '0' := by
        intro hc
        have hdigit := Count.digit?_digitChar n hlt
        rw [hc] at hdigit
        obtain rfl : 0 = n := Option.some.inj hdigit
        exact absurd h (Nat.lt_irrefl 0)
      have hdigit := Preface.digit .nil (Count.digit?_digitChar n hlt) fun _ => hzero
      rw [Nat.toDigits_of_lt_base hlt]
      simpa [Count.push] using hdigit
    · have hdiv := ih (n / 10) (by omega) (by omega)
      have hdigit := hdiv.digit (Count.digit?_digitChar _ (Nat.mod_lt n (by omega)))
        fun hnone => absurd hnone (Option.some_ne_none _)
      rw [Count.push_min, Nat.div_add_mod'] at hdigit
      rw [Nat.toDigits_of_base_le (by omega) hge]
      exact hdigit

theorem Preface.count_le (h : Preface keys count register) (n : Nat) (hn : count = some n) :
    n ≤ Count.limit := by
  induction h with
  | nil => cases hn
  | digit => cases hn; exact Count.push_le _ _
  | register _ _ ih => exact ih hn

/-- Partial input of Normal mode with a count and a register. -/
def prefaced (count : Option Nat) (register : Option Char) : Input :=
  { mode := .normal, count, register }

/-- An operator waits, with the count and the register typed before it. -/
def waiting (op : Operator) (count : Option Nat) (register : Option Char) : Input :=
  { mode := .operatorPending, operator := some ⟨op, count⟩, register }

theorem read_registerName {c : Char} (h : isRegisterName c = true) :
    { prefaced count register with lookahead := some .register }.read t config c =
      (.incomplete, prefaced count (some c)) :=
  if_pos h

/-- Keys typed before a command are read into partial input, and then the command is read. -/
theorem Preface.completes {pre : List Char} (h : Preface pre count register)
    (hkeys : Completes t config (prefaced count register) keys command i') :
    Completes t config (.idle .normal) (pre ++ keys) command i' := by
  induction h generalizing keys with
  | nil => exact hkeys
  | @digit pre count register c d _ hd hzero ih =>
    have hcounting : (prefaced count register).Counting := ⟨Or.inl rfl, rfl⟩
    rw [List.append_assoc]
    exact ih (.more _ nofun (read_digit hcounting hd hzero) hkeys)
  | register _ hc ih =>
    rw [List.append_assoc]
    exact ih (.more _ nofun rfl (.more _ nofun (read_registerName hc) hkeys))

theorem Preface.composedCount (h : Preface keys count register) (op : Operator) :
    (waiting op count register).composedCount 1 = count.getD 1 := by
  cases count with
  | none => rfl
  | some n =>
    have hle := h.count_le n rfl
    show Count.times 1 n = n
    unfold Count.times
    omega

theorem read_operator (op : Operator) :
    (prefaced count register).read t config op.key =
      (.command (.operator op count), prefaced none register) := by
  cases op <;> rfl

theorem read_operatorTwice (op : Operator) :
    (waiting op count register).read t config op.key =
      (.command (.motion .wholeLines ((waiting op count register).composedCount 1)),
        waiting op count register) := by
  cases op <;> rfl

end Input

/-! ## Shorthands -/

/-- The operator that a key stands for, and the key of the motion it is given. -/
def Operator.shorthand : Char → Option (Operator × Char)
  | 'x' => some (.delete, 'l')
  | 'X' => some (.delete, 'h')
  | 'D' => some (.delete, '$')
  | 'C' => some (.change, '$')
  | 's' => some (.change, 'l')
  | 'S' => some (.change, 'c')
  | 'Y' => some (.yank, 'y')
  | _ => none

/-- A shorthand is read as a command that stands for the operator with the motion it is short
for. -/
theorem Operator.read_shorthand {c k : Char} {op : Operator} (h : shorthand c = some (op, k)) :
    ∃ instant m, instant.operation = some (op, m) ∧
      ∀ (t : Text) (config : Config) (count : Option Nat) (register : Option Char),
        (Input.prefaced count register).read t config c =
          (.command (.instant instant (count.getD 1)), .prefaced none register) ∧
        (Input.waiting op count register).read t config k =
          (.command (.motion m ((Input.waiting op count register).composedCount 1)),
            .waiting op count register) := by
  unfold shorthand at h
  split at h
  all_goals
    cases h
    try exact ⟨_, _, rfl, fun _ _ _ _ => ⟨rfl, rfl⟩⟩

theorem Instant.range_of_operation {instant : Instant} {op : Operator} {m : Motion}
    (h : instant.operation = some (op, m)) (t : Text) (count cursor : Nat) :
    ∃ range, ∀ s : Session, s.motionRange t m count cursor = some range ∧
      m.range t s.motionContext count cursor = some range := by
  have hm : m = .right ∨ m = .left ∨ m = .lineEnd ∨ m = .wholeLines := by
    cases instant with
    | quick edit => cases edit <;> cases h <;> simp
    | yankLine => cases h; simp
    | _ => cases h
  rcases hm with rfl | rfl | rfl | rfl
  · exact ⟨_, fun _ => ⟨rfl, rfl⟩⟩
  · exact ⟨_, fun _ => ⟨rfl, rfl⟩⟩
  · obtain ⟨range, hrange⟩ :=
      Option.isSome_iff_exists.1 (Editor.range_lineEnd_isSome (t := t) {} count cursor)
    exact ⟨range, fun _ => ⟨hrange, hrange⟩⟩
  · exact ⟨_, fun _ => ⟨rfl, rfl⟩⟩

/-! ## Lines counted from the cursor -/

/-- The lines that an operator typed twice takes. -/
def Range.counted (t : Text) (count cursor : Nat) : Range :=
  .linewise (min cursor t.length)
    (t.lineStart (min (t.lineOf cursor + (max count 1 - 1)) t.lastLine))

theorem Motion.range_wholeLines (t : Text) (ctx : MotionContext) (count cursor : Nat) :
    wholeLines.range t ctx count cursor = some (.counted t count cursor) := by
  simp only [range, Position.ofIndex_index, Position.ofIndex_line]
  rfl

namespace Range

theorem firstLine_counted (t : Text) (count cursor : Nat) :
    (counted t count cursor).firstLine t = t.lineOf cursor := by
  have hcursor := t.lineOf_le_lastLine cursor
  have hline : t.lineOf cursor ≤ min (t.lineOf cursor + (max count 1 - 1)) t.lastLine := by omega
  rw [firstLine, counted, linewise, Text.lineOf_min, Text.lineOf_min_length,
    Text.lineOf_lineStart (Nat.min_le_right _ _), Nat.min_eq_left hline]

theorem finalLine_counted (t : Text) (count cursor : Nat) :
    (counted t count cursor).finalLine t =
      min (t.lineOf cursor + (max count 1 - 1)) t.lastLine := by
  have hcursor := t.lineOf_le_lastLine cursor
  have hline : t.lineOf cursor ≤ min (t.lineOf cursor + (max count 1 - 1)) t.lastLine := by omega
  rw [finalLine, counted, linewise, Text.lineOf_max, Text.lineOf_min_length,
    Text.lineOf_lineStart (Nat.min_le_right _ _), Nat.max_eq_right hline]

end Range

/-! ## Plans that move or select -/

/-- Commands that move the cursor or select. -/
def Command.selects : Command → Bool
  | motion _ _ | object _ _ _ | enter (.visual _) => true
  | _ => false

/-- Motions move or select in this mode: no operator waits for them. -/
def Mode.selects : Mode → Bool
  | normal | visual _ => true
  | insert | operatorPending | jump => false

/-- The plan edits nothing, writes nothing and does not enter Insert mode. -/
def Plan.Quiet : Plan → Prop
  | commit c => c.edit = none ∧ c.write = none ∧ c.rest = .normal
  | _ => True

namespace Session

variable {s : Session} {t : Text} {sel : Selection}

theorem quiet_planMotion (h : s.mode ≠ .operatorPending) (m : Motion) (count : Nat) :
    (s.planMotion t sel m count).Quiet := by
  simp only [planMotion]
  split
  · trivial
  · split
    · contradiction
    · trivial
    · exact ⟨rfl, rfl, rfl⟩

theorem quiet_planObject (h : s.mode ≠ .operatorPending) (o : TextObject) (scope : Scope)
    (count : Nat) : (s.planObject t sel o scope count).Quiet := by
  simp only [planObject]
  split
  · trivial
  · split
    · contradiction
    · split <;> trivial
    · trivial

theorem quiet_of_selects (h : s.mode ≠ .operatorPending) {command : Command}
    (hcommand : command.selects = true) :
    ∃ plan, s.planCommand t sel command = some plan ∧ plan.Quiet := by
  cases command with
  | motion m count => exact ⟨_, rfl, quiet_planMotion h m count⟩
  | object o scope count => exact ⟨_, rfl, quiet_planObject h o scope count⟩
  | enter entry =>
    cases entry with
    | insert place => cases hcommand
    | visual kind => exact ⟨_, rfl, trivial⟩
  | _ => cases hcommand

end Session

namespace Editor

variable {ed a b after after' : Editor} {op : Operator} {range range' : Range} {name : Char}
  {cursor cursor' : Nat}

/-! ## What operators come to -/

theorem After.sameView {c c' : Commit} (ha : After c a after) (hb : After c' b after')
    (htext : a.host.text = b.host.text) (hregisters : a.session.registers = b.session.registers)
    (hedit : c.edit = c'.edit) (hwrite : c.write = c'.write) (hrest : c.rest = c'.rest)
    (hcursor : c.cursor after.host.text = c'.cursor after.host.text) : after.SameView after' := by
  have hleft : after.host.text = after'.host.text := by
    rw [ha.host, hb.host, Host.text_committed, Host.text_committed, hedit, htext]
  refine ⟨hleft, ?_, ?_, ?_⟩
  · have hselection : after.host.selection = .cursor (c.cursor after.host.text) := by
      rw [ha.host, Host.selection_committed]
    have hselection' : after'.host.selection = .cursor (c'.cursor after'.host.text) := by
      rw [hb.host, Host.selection_committed]
    rw [hselection, hselection', hcursor, hleft]
  · rw [ha.mode, hb.mode, hrest]
  · rw [ha.registers, hb.registers]
    simp only [Session.committed, Session.settle, Session.afterEdit, Session.begin, hwrite,
      hregisters]

/-- The editor after an operator took a range, into the register of this name. -/
def Operated (op : Operator) (range : Range) (name : Char) (cursor : Nat) (ed after : Editor) :
    Prop :=
  ∃ column, After
    (op.commit ed.host.text (Region.ofRange ed.host.text range) name cursor column) ed after

/-- **Ranges with one region are operated on alike.** -/
theorem Operated.sameView (ha : Operated op range name cursor a after)
    (hb : Operated op range' name cursor b after') (htext : a.host.text = b.host.text)
    (hregisters : a.session.registers = b.session.registers)
    (hregion : Region.ofRange a.host.text range = Region.ofRange a.host.text range') :
    after.SameView after' := by
  obtain ⟨column, ha⟩ := ha
  obtain ⟨column', hb⟩ := hb
  rw [← htext, ← hregion] at hb
  exact ha.sameView hb htext hregisters rfl rfl rfl rfl

/-- Where the cursor was does not matter for lines that are deleted or changed. -/
theorem committed_of_lines (hop : op ≠ .yank) (hlines : range.extent = .linewise) (h : Host)
    (name : Char) (cursor cursor' : Nat) (column : ColumnRule) :
    h.committed (op.commit h.text (Region.ofRange h.text range) name cursor column) =
      h.committed (op.commit h.text (Region.ofRange h.text range) name cursor' column) := by
  cases op with
  | yank => exact absurd rfl hop
  | change => rfl
  | delete =>
    by_cases hvoid : (Region.ofRange h.text range).isVoid = true
    · -- there is no text, so the cursor rests at its start
      have hstart (i : Nat) :
          h.committed (Operator.delete.commit h.text (Region.ofRange h.text range) name i column) =
            h.placed (.cursor 0) := by
        have hcursor (c : Commit) : c.cursor h.text = 0 := by
          rw [(Region.isVoid_linewise_iff hlines).1 hvoid]
          exact Nat.le_zero.1 (c.cursor_le [])
        have hedit : Operator.delete.edit (Region.ofRange h.text range) = none := if_pos hvoid
        simp only [Host.committed, Host.commitEdited, Operator.commit, hedit, hcursor]
      rw [hstart cursor, hstart cursor']
    · simp only [Operator.commit, Operator.landing, if_neg hvoid, Region.linewise_ofRange hlines,
        if_true]

theorem Operated.cursor_of_lines (h : Operated op range name cursor ed after) (hop : op ≠ .yank)
    (hlines : range.extent = .linewise) (cursor' : Nat) :
    Operated op range name cursor' ed after := by
  obtain ⟨column, h⟩ := h
  exact ⟨column, h.host.trans (committed_of_lines hop hlines _ name cursor cursor' column),
    h.registers, h.mode⟩

/-! ## The two ways to type -/

theorem ends_operates {E : Editor → Prop} {command : Command} {i : Input} (hg : ed.host.Grants)
    (hoperates : ((ed.withInput i).noted command).session.Operates ed.host.text ed.host.selection
      command op range)
    (hvisual : i.mode.isVisual = false) :
    Ends (execute command) (ed.withInput i)
      (fun _ => Operated op range (i.register.getD Registers.unnamed)
        (min ed.host.selection.active ed.host.text.length) ed) E := by
  have hmode : ((ed.withInput i).noted command).session.mode.isVisual = false := by
    rw [noted_mode]
    exact hvisual
  obtain ⟨since, hplan⟩ := hoperates.plan fun _ => hmode
  obtain ⟨column, hcommit⟩ := Session.planOperator_eq ((ed.withInput i).noted command).session
    ed.host.text ed.host.selection op range since
  rw [hcommit, Session.cursor_eq hmode, noted_registerName] at hplan
  exact ends_execute_after hg hplan fun _ hafter => ⟨column, hafter⟩

section Typed

variable {pre : List Char} {count : Option Nat} {register : Option Char}

theorem types_short (h : ed.Ready) (hpre : Input.Preface pre count register) {c : Char}
    {instant : Instant} {m : Motion} (hinstant : instant.operation = some (op, m))
    (hread : (Input.prefaced count register).read ed.host.text ed.session.config c =
      (.command (.instant instant (count.getD 1)), .prefaced none register))
    (hrange : ∀ s : Session, m.range ed.host.text s.motionContext (count.getD 1)
      (min ed.host.selection.active ed.host.text.length) = some range) :
    Types ed ((pre ++ [c]).map .char) (Operated op range (register.getD Registers.unnamed)
      (min ed.host.selection.active ed.host.text.length) ed) := by
  have htypes := types_completes (hpre.completes (.last nofun hread))
    (ends_operates h.grants (.key hinstant (hrange _)) rfl)
  rwa [withInput_idle h.input] at htypes

theorem types_operatorKey (h : ed.session.input = .idle .normal)
    (hpre : Input.Preface pre count register) (op : Operator) :
    Types ed ((pre ++ [op.key]).map .char) (· = ed.withInput (.waiting op count register)) := by
  have htypes := types_completes (P := (· = ed.withInput (.waiting op count register)))
    (hpre.completes (.last nofun (Input.read_operator op)))
    (ends_bind (ends_get (ends_update rfl)))
  rwa [withInput_idle h] at htypes

theorem types_long (h : ed.Ready) (hpre : Input.Preface pre count register) {k : Char} {m : Motion}
    (hread : (Input.waiting op count register).read ed.host.text ed.session.config k =
      (.command (.motion m ((Input.waiting op count register).composedCount 1)),
        .waiting op count register))
    (hrange : ∀ s : Session, s.motionRange ed.host.text m (count.getD 1)
      (min ed.host.selection.active ed.host.text.length) = some range) :
    Types ed ((pre ++ [op.key, k]).map .char) (Operated op range (register.getD Registers.unnamed)
      (min ed.host.selection.active ed.host.text.length) ed) := by
  rw [hpre.composedCount op] at hread
  have hoperates : ((ed.withInput (.waiting op count register)).noted
      (.motion m (count.getD 1))).session.Operates ed.host.text ed.host.selection
        (.motion m (count.getD 1)) op range := by
    unfold noted
    rw [Session.noteCommand_frame]
    exact .motion rfl (hrange _)
  have hmotion : Types (ed.withInput (.waiting op count register)) ([k].map .char)
      (Operated op range (register.getD Registers.unnamed)
        (min ed.host.selection.active ed.host.text.length) ed) := by
    refine types_completes (.last ?_ hread) (ends_operates h.grants hoperates rfl)
    nofun
  have htypes := (types_operatorKey h.input hpre op).append fun _ hed => hed ▸ hmotion
  simpa using htypes

end Typed

/-! ## Selecting lines -/

section Selecting

variable {start : Editor} {register : Option Char}

/-- The text and the registers are those of the start, and the mode that partial input goes back to
is one where motions move or select. -/
structure Selecting (start ed : Editor) : Prop where
  rests : ed.RestsShowing
  text : ed.host.text = start.host.text
  registers : ed.session.registers = start.session.registers
  standing : ed.session.input.standing.selects = true

theorem Idle.selecting (h : ed.Idle) (hg : ed.host.Grants) : ed.Selecting ed := by
  refine ⟨⟨h.resting, shows_of_visual_none hg h.visual_eq_none⟩, rfl, rfl, ?_⟩
  rw [h.input]
  rfl

theorem carried_of_quiet {plan : Plan} (h : plan.Quiet) (ed : Editor) :
    (ed.carried plan).host.text = ed.host.text ∧
      (ed.carried plan).session.registers = ed.session.registers ∧
      (ed.carried plan).session.input.standing.selects = true := by
  cases plan with
  | drop =>
    refine ⟨rfl, rfl, ?_⟩
    show (if ed.session.mode.isVisual then ed.session.mode else Mode.normal).selects = true
    cases ed.session.mode <;> rfl
  | commit c =>
    obtain ⟨hedit, hwrite, hrest⟩ := h
    refine ⟨?_, ?_, ?_⟩
    · show (ed.host.committed c).text = _
      rw [Host.text_committed, hedit]
      rfl
    · show (ed.session.committed c).registers = _
      simp only [Session.committed, Session.settle, Session.afterEdit, Session.begin, hwrite]
    · show c.rest.mode.selects = true
      rw [hrest]
      rfl
  | select kind ends column => exact ⟨rfl, rfl, rfl⟩

/-- **An event that moves or selects leaves the text and the registers.** -/
theorem selecting_press (h : start.Selecting ed) {event : InputEvent}
    (honly : ∀ command i, ed.completes event = some (command, i) → command.selects = true) :
    start.Selecting (ed.press event).2 := by
  have hrests := restsShowing_press h.rests event
  have hsound := h.rests.1.1.input
  have hstanding := h.standing
  have hmode : ed.session.mode ≠ .insert := by
    refine hsound.mode_ne_insert fun hinsert => ?_
    rw [hinsert] at hstanding
    cases hstanding
  rcases press_cases hsound hmode event with ⟨i, -, hsame, hpress⟩ | ⟨i, hpress⟩ |
    ⟨command, i, hcompletes, -, hsame⟩
  · rw [hpress] at hrests ⊢
    exact ⟨hrests, h.text, h.registers, hsame.symm ▸ hstanding⟩
  · rw [hpress] at hrests ⊢
    refine ⟨hrests, ?_, h.registers, rfl⟩
    rw [reset_host]
    split
    · exact h.text
    · exact (Host.text_after_requestSelection _ _).trans h.text
  · -- the command waits for nothing, so its plan moves or selects
    have hpending : ((ed.withInput i).noted command).session.mode ≠ .operatorPending := by
      rw [noted_mode]
      show i.mode ≠ .operatorPending
      rw [hsame]
      intro hpending
      rw [hpending] at hstanding
      cases hstanding
    obtain ⟨plan, hplan, hquiet⟩ := Session.quiet_of_selects hpending (honly command i hcompletes)
    obtain ⟨lastChange, recording, hpress⟩ := press_of_plan h.rests.2.grants hcompletes hplan
    obtain ⟨htext, hregisters, hleft⟩ :=
      carried_of_quiet hquiet ((ed.withInput i).noted command)
    rw [hpress] at hrests ⊢
    refine ⟨hrests, htext.trans h.text, hregisters.trans ?_, hleft⟩
    rw [noted_registers]
    exact h.registers

/-- **A run of events that move or select leaves the text and the registers.** -/
theorem selecting_pressAll (h : start.Selecting ed) {events : List InputEvent}
    (honly : ed.CompletesOnly (·.selects = true) events) :
    start.Selecting (ed.pressAll events).2 := by
  induction events generalizing ed with
  | nil => exact h
  | cons event events ih => exact ih (selecting_press h honly.1) honly.2

/-- The lines from `first` to `final` are selected, with a register for the command to come. -/
structure LinesSelected (first final : Nat) (register : Option Char) (ed : Editor) : Prop where
  mode : ed.session.mode = .visual .linewise
  lookahead : ed.session.input.lookahead = none
  register : ed.session.input.register = register
  lines : ∃ ends, ed.session.visual = some ends ∧
    min (ed.host.text.lineOf ends.anchor) (ed.host.text.lineOf ends.cursor) = first ∧
    max (ed.host.text.lineOf ends.anchor) (ed.host.text.lineOf ends.cursor) = final

end Selecting

/-! ## Shorthands and selected lines -/

section

variable {pre : List Char} {count : Option Nat} {register : Option Char}

/-- A shorthand and what it is short for come to the same operator on one range. -/
theorem sameView_shorthand (h : ed.Ready) (hpre : Input.Preface pre count register) {c k : Char}
    (hc : Operator.shorthand c = some (op, k)) {short long : List InputEvent}
    (hshort : short.map (·.stroke?) = ((pre ++ [c]).map .char).map some)
    (hlong : long.map (·.stroke?) = ((pre ++ [op.key, k]).map .char).map some) :
    SameView (ed.pressAll short).2 (ed.pressAll long).2 := by
  obtain ⟨instant, m, hinstant, hread⟩ := Operator.read_shorthand hc
  obtain ⟨hreadShort, hreadLong⟩ := hread ed.host.text ed.session.config count register
  obtain ⟨range, hrange⟩ := Instant.range_of_operation hinstant ed.host.text (count.getD 1)
    (min ed.host.selection.active ed.host.text.length)
  have htypesShort := types_short h hpre hinstant hreadShort fun s => (hrange s).2
  have htypesLong := types_long h hpre hreadLong fun s => (hrange s).1
  exact (htypesShort short hshort).sameView (htypesLong long hlong) rfl rfl rfl

theorem types_selectedLines {first final : Nat} (hg : ed.host.Grants)
    (h : ed.LinesSelected first final register) (hop : op ≠ .yank) (cursor : Nat) :
    ∃ range, range.extent = .linewise ∧ range.firstLine ed.host.text = first ∧
      range.finalLine ed.host.text = final ∧
      Types ed [.char op.key]
        (Operated op range (register.getD Registers.unnamed) cursor ed) := by
  obtain ⟨hmode, hlookahead, hregister, ends, hends, hfirst, hfinal⟩ := h
  have hselects : ed.Selects .linewise ends := ⟨hg, hmode, hlookahead, hends⟩
  have hname : ed.session.registerName = register.getD Registers.unnamed :=
    congrArg (Option.getD · Registers.unnamed) hregister
  have hkey : ∃ command, SelectionCommand.ofKey op.key = some command ∧
      command.operator? = some (op, false) := by
    cases op with
    | yank => exact absurd rfl hop
    | delete => exact ⟨.delete, rfl, rfl⟩
    | change => exact ⟨.change, rfl, rfl⟩
  obtain ⟨command, hc, hcommand⟩ := hkey
  refine ⟨ends.range .linewise, rfl, ?_, ?_, ?_⟩
  · rw [Endpoints.firstLine_range, hfirst]
  · rw [Endpoints.finalLine_range, hfinal]
  · refine types_operateSelection hselects hc hcommand fun column after hafter => ?_
    rw [hname] at hafter
    exact Operated.cursor_of_lines ⟨column, hafter⟩ hop rfl cursor

/-- Selected lines are operated on as the same lines counted from the first of them. -/
theorem sameView_selectedLines (hg : a.host.Grants) (hb : b.Ready)
    (htext : a.host.text = b.host.text) (hregisters : a.session.registers = b.session.registers)
    (hpre : Input.Preface pre count register)
    (hlines : a.LinesSelected (b.host.text.lineOf b.host.selection.active)
      (b.host.text.lineOf b.host.selection.active + (count.getD 1 - 1)) register)
    (hop : op ≠ .yank) {key : InputEvent} {keys : List InputEvent}
    (hkey : key.stroke? = some (.char op.key))
    (hkeys : keys.map (·.stroke?) = ((pre ++ [op.key, op.key]).map .char).map some) :
    SameView (a.press key).2 (b.pressAll keys).2 := by
  let cursor := min b.host.selection.active b.host.text.length
  obtain ⟨range, hlinewise, hfirst, hfinal, hselected⟩ :=
    types_selectedLines hg hlines hop cursor
  have hcounted := types_long hb hpre (Input.read_operatorTwice op)
    fun s => Motion.range_wholeLines b.host.text s.motionContext (count.getD 1) cursor
  have hregion : Region.ofRange a.host.text range =
      Region.ofRange a.host.text (.counted b.host.text (count.getD 1) cursor) := by
    have hlast := range.finalLine_le_lastLine a.host.text
    rw [htext] at hfirst hfinal hlast ⊢
    refine Region.ofRange_congr_lines hlinewise rfl ?_ ?_
    · rw [hfirst, Range.firstLine_counted, Text.lineOf_min_length]
    · rw [Range.finalLine_counted, Text.lineOf_min_length]
      omega
  exact (hselected [key] (by simp [hkey])).sameView (hcounted keys hkeys) htext hregisters hregion

end

/-- **Keys that do the same show the same.**

A shorthand shows what the operator with the motion it is short for does, in every state of Normal
mode without partial input, with any count and register typed before.

From such a state, events that only move and select, and end with lines selected, leave lines to
delete or change. That shows what the operator typed twice on the first of them does, with as many
lines for its count, and the register that is selected. -/
theorem synonyms_sameView :
    (∀ ed : Editor, ed.Ready → ∀ (pre : List Char) (count : Option Nat) (register : Option Char),
      Input.Preface pre count register → ∀ (c k : Char) (op : Operator),
      Operator.shorthand c = some (op, k) → ∀ short long : List InputEvent,
      short.map (·.stroke?) = ((pre ++ [c]).map .char).map some →
      long.map (·.stroke?) = ((pre ++ [op.key, k]).map .char).map some →
        SameView (ed.pressAll short).2 (ed.pressAll long).2) ∧
    ∀ start : Editor, start.Idle → start.host.Grants → ∀ selecting : List InputEvent,
      start.CompletesOnly (·.selects = true) selecting →
      let selected := (start.pressAll selecting).2
      ∀ ed : Editor, ed.Ready → ed.host.text = start.host.text →
      ed.session.registers = start.session.registers →
      ∀ (pre : List Char) (count : Option Nat) (register : Option Char),
      Input.Preface pre count register →
      let line := ed.host.text.lineOf ed.host.selection.active
      selected.LinesSelected line (line + (count.getD 1 - 1)) register →
      ∀ (op : Operator) (key : InputEvent) (keys : List InputEvent), op ≠ .yank →
      key.stroke? = some (.char op.key) →
      keys.map (·.stroke?) = ((pre ++ [op.key, op.key]).map .char).map some →
        SameView (selected.press key).2 (ed.pressAll keys).2 := by
  refine ⟨?_, ?_⟩
  · intro ed hready pre count register hpre c k op hc short long hshort hlong
    exact sameView_shorthand hready hpre hc hshort hlong
  · intro start hidle hg selecting honly selected ed hready htext hregisters pre count register
      hpre line hlines op key keys hop hkey hkeys
    have hselecting := selecting_pressAll (hidle.selecting hg) honly
    exact sameView_selectedLines hselecting.rests.2.grants hready
      (hselecting.text.trans htext.symm) (hselecting.registers.trans hregisters.symm) hpre hlines
      hop hkey hkeys

/-- Two characters are deleted into a register, and two lines are changed that were selected
upwards. -/
theorem synonyms_sameView_twice :
    let text : Text := ['a', 'b', 'c', '\n', 'd', '\n', 'e']
    let start : Editor := ⟨Session.new .normal {} none, .ofText text 4⟩
    let ed : Editor := ⟨Session.new .normal {} none, .ofText text 1⟩
    SameView (ed.pressAll [.text '2', .text '"', .text 'q', .text 'x']).2
        (ed.pressAll [.text '2', .text '"', .text 'q', .text 'd', .text 'l']).2 ∧
      SameView ((start.pressAll [.text 'V', .text 'k']).2.press (.text 'c')).2
        (ed.pressAll [.text '2', .text 'c', .text 'c']).2 := by
  intro text start ed
  obtain ⟨hshort, hlines⟩ := synonyms_sameView
  have htwo : Input.Preface ['2'] (some 2) none := Input.preface_toDigits (n := 2) (by decide)
  have hready : ed.Ready := ⟨rfl, rfl, rfl, rfl, rfl⟩
  have hidle : start.Idle := ⟨⟨Session.sound_new .normal {} none, rfl⟩, rfl⟩
  have hg : start.host.Grants := ⟨rfl, rfl, rfl⟩
  refine ⟨?_, ?_⟩
  · have hregister : Input.isRegisterName 'q' = true := by decide
    exact hshort ed hready _ _ _ (htwo.register hregister) 'x' 'l' .delete rfl _ _ rfl rfl
  · have hselects : start.CompletesOnly (·.selects = true) [.text 'V', .text 'k'] :=
      completesOnly_of_answers ((hidle.selecting hg).rests.answersAll _) (by decide)
    have hselected : (start.pressAll [.text 'V', .text 'k']).2.LinesSelected 0 1 none := by
      refine ⟨by decide, by decide, by decide, ⟨4, 0⟩, by decide, by decide, by decide⟩
    exact hlines start hidle hg _ hselects ed hready rfl rfl _ _ _ htwo hselected
      .change _ _ (by decide) rfl rfl

end Editor

end ModalEdit
