import ModalEdit.Proofs.LinewiseOperators
import ModalEdit.Proofs.OtherRegisters

/-!
# The clipboard as a register

The clipboard keeps a text and not whether it is of whole lines, which is told by its last character
when it is put. Whole lines always end in a line break, so the two registers are put alike but for
characters that end in one: these come back from the clipboard as lines (`clipboard_like_named`).
-/

namespace ModalEdit

/-! ## Reading keys with another register selected -/

namespace Input

variable {i : Input} {name : Option Char}

theorem readJump_selecting (i : Input) (name : Option Char) (step : JumpStep) (resume : Mode) :
    (i.selecting name).readJump step resume =
      ((i.readJump step resume).1, (i.readJump step resume).2.selecting name) := by
  cases step <;> rfl

theorem readArgument_selecting {l : Lookahead} (hl : l ≠ .register) (i : Input)
    (name : Option Char) (t : Text) (config : Config) (c : Char) :
    (i.selecting name).readArgument t config c l =
      ((i.readArgument t config c l).1, (i.readArgument t config c l).2.selecting name) := by
  have hmode : (i.selecting name).mode = i.mode := rfl
  have hedit : (i.selecting name).canEdit = i.canEdit := rfl
  cases l with
  | find kind | gotoMark linewise => rfl
  | g =>
    simp only [readArgument, hmode]
    split
    · rfl
    · split <;> rfl
  | replace | setMark =>
    simp only [readArgument, hedit]
    split <;> rfl
  | register => exact absurd rfl hl
  | object scope =>
    simp only [readArgument]
    split <;> rfl
  | jumpSearch | jumpLabel resume => exact readJump_selecting i name _ _

theorem readInMode_selecting (i : Input) (name : Option Char) (c : Char) :
    (i.selecting name).readInMode c = ((i.readInMode c).1, (i.readInMode c).2.selecting name) := by
  have hmode : (i.selecting name).mode = i.mode := rfl
  simp only [readInMode, hmode]
  repeat' split
  all_goals rfl

theorem readKey_selecting (i : Input) (name : Option Char) (c : Char) :
    (i.selecting name).readKey c = ((i.readKey c).1, (i.readKey c).2.selecting name) := by
  have hmode : (i.selecting name).mode = i.mode := rfl
  have hdoubles : (i.selecting name).doublesOperator c = i.doublesOperator c := rfl
  have hdigit : (i.selecting name).digit? c = i.digit? c := rfl
  simp only [readKey, hmode, hdoubles, hdigit]
  split
  · rfl
  split
  · rfl
  split
  · rfl
  split
  · rfl
  split
  · rfl
  · exact readInMode_selecting i name c

/-- Which register is selected does not matter to reading a key, unless the key names one. -/
theorem read_selecting (hl : i.lookahead ≠ some .register) (name : Option Char) (t : Text)
    (config : Config) (c : Char) :
    (i.selecting name).read t config c =
      ((i.read t config c).1, (i.read t config c).2.selecting name) := by
  have hlookahead : (i.selecting name).lookahead = i.lookahead := rfl
  unfold read
  rw [hlookahead]
  cases hc : i.lookahead with
  | none => exact readKey_selecting i name c
  | some l =>
    have hne : l ≠ .register := fun h => hl (by rw [hc, h])
    exact readArgument_selecting hne { i with lookahead := none } name t config c

theorem read_quote (h : i.lookahead = none) {t : Text} {config : Config} :
    i.read t config '"' = i.await .register := by
  have hdoubles : i.doublesOperator '"' = false :=
    not_doublesOperator fun op hop => by cases op <;> cases hop
  have hdigit : i.digit? '"' = none := rfl
  unfold read
  rw [h]
  simp only [readKey, hdoubles, hdigit]
  cases i.mode.isVisual <;> rfl

end Input

namespace Editor

variable {ed : Editor} {event : InputEvent} {command : Command} {i : Input} {name : Option Char}

theorem completes_selecting (h : ed.completes event = some (command, i)) (name : Option Char) :
    (ed.selecting name).completes event = some (command, i.selecting name) := by
  obtain ⟨hmode, c, hc, hread⟩ := completes_cases h
  have hlookahead : ed.session.input.lookahead ≠ some .register := by
    intro hl
    simp only [Input.read, hl, Input.readArgument] at hread
    split at hread <;> cases hread
  refine completes_eq hmode hc ?_
  show (ed.session.input.selecting name).read ed.host.text ed.session.config c = _
  rw [Input.read_selecting hlookahead, hread]

theorem types_selecting {c : Char} (hmode : ed.session.mode ≠ .insert)
    (hlookahead : ed.session.input.lookahead = none) (hc : Input.isRegisterName c = true) :
    Types ed [.char '"', .char c] (· = ed.selecting (some c)) := by
  have hquote : ed.session.input.read ed.host.text ed.session.config '"' =
      ed.session.input.await .register := Input.read_quote hlookahead
  have hname : (ed.withInput { ed.session.input with lookahead := some .register }).session.mode ≠
      .insert := hmode
  refine (types_incomplete (P := (· = ed.withInput { ed.session.input with
    lookahead := some .register })) hmode hquote rfl).append ?_
  rintro _ rfl
  refine types_incomplete hname (if_pos hc) ?_
  show ed.withInput { ed.session.input with lookahead := none, register := some c } = _
  rw [← hlookahead]
  rfl

/-- A register is chosen: `"` and its name are typed where no argument is awaited, or its name was
typed before the keys that wait for one. -/
inductive Chosen (ed : Editor) (name : Char) : Editor → Prop
  | typed {events : List InputEvent} : ed.session.input.lookahead = none →
      Input.isRegisterName name = true →
      events.map (·.stroke?) = [Stroke.char '"', .char name].map some →
      Chosen ed name (ed.pressAll events).2
  | before : Chosen ed name (ed.selecting (some name))

theorem Operates.mode_ne_insert {op : Operator} {range : Range} (h : ed.Operates event op range) :
    ed.session.mode ≠ .insert := by
  cases h with
  | command hcompletes => exact (completes_cases hcompletes).1
  | repeated _ hcompletes => exact (completes_cases hcompletes).1

theorem Chosen.eq_selecting {name : Char} {after : Editor} (h : ed.Chosen name after)
    (hmode : ed.session.mode ≠ .insert) : after = ed.selecting (some name) := by
  cases h with
  | typed hlookahead hname hevents => exact types_selecting hmode hlookahead hname _ hevents
  | before => rfl

end Editor

/-! ## Taking into one register or another -/

theorem Plan.withWrite_withWrite (plan : Plan) (w w' : Option (Char × Register)) :
    (plan.withWrite w).withWrite w' = plan.withWrite w' := by
  cases plan <;> rfl

namespace Session

variable {s : Session} {t : Text} {sel : Selection} {op : Operator} {range : Range}
  {command : Command}

/-- The session with another register selected. -/
def selecting (s : Session) (name : Option Char) : Session :=
  { s with input := s.input.selecting name }

theorem planPut_congr {s' : Session}
    (hread : s.registers.read s.registerName = s'.registers.read s'.registerName)
    (hcursor : s.cursor t sel = s'.cursor t sel) (count : Nat) (after : Bool) :
    s.planPut t sel count after = s'.planPut t sel count after := by
  simp only [planPut, hread, hcursor]

/-- An operator writes to the register that is selected, and does all else whatever it is. -/
theorem planOperator_selecting (s : Session) (t : Text) (sel : Selection) (op : Operator)
    (range : Range) (since : Stage) (name : Option Char) :
    (s.selecting name).planOperator t sel op range since =
      (s.planOperator t sel op range since).withWrite
        ((Region.ofRange t range).write? t (name.getD Registers.unnamed)) := by
  have hcursor : (s.selecting name).cursor t sel = s.cursor t sel := rfl
  have hname : (s.selecting name).registerName = name.getD Registers.unnamed := rfl
  simp only [planOperator, hcursor, hname, Region.write?]
  cases hvoid : (Region.ofRange t range).isVoid with
  | true => cases op <;> rfl
  | false => cases op <;> rfl

theorem write_withWrite_planOperator (s : Session) (t : Text) (sel : Selection) (op : Operator)
    (range : Range) (since : Stage) (w : Option (Char × Register)) :
    ((s.planOperator t sel op range since).withWrite w).write? = w := by
  obtain ⟨column, hplan⟩ := s.planOperator_eq t sel op range since
  rw [hplan]
  rfl

theorem Operates.selecting (h : s.Operates t sel command op range) (name : Option Char) :
    (s.selecting name).Operates t sel command op range := by
  cases h with
  | motion hwaiting hrange => exact .motion hwaiting hrange
  | object hwaiting hrange => exact .object hwaiting hrange
  | key hinstant hrange => exact .key hinstant hrange
  | selection hc hrange => exact .selection hc hrange

theorem Operates.planned_selecting (h : s.Operates t sel command op range)
    (hnormal : command.isNormalOnly = true → s.mode.isVisual = false) (name : Option Char) :
    (s.selecting name).planCommand t sel command =
      some ((s.planOperator t sel op range (forgetsSince command)).withWrite
        ((Region.ofRange t range).write? t (name.getD Registers.unnamed))) := by
  rw [← planOperator_selecting]
  exact (h.selecting name).planned hnormal

end Session

namespace Editor

variable {ed : Editor} {event : InputEvent} {op : Operator} {range : Range}
  {R : Registers → Registers → Prop}

/-- What the region of a range leaves in the register of this name, or the unnamed one. -/
def taking (ed : Editor) (range : Range) (name : Option Char) : Registers :=
  ed.session.registers.written
    ((Region.ofRange ed.host.text range).write? ed.host.text (name.getD Registers.unnamed))

/-- Two plans of one operator that write to registers of their own differ in their write only. -/
theorem planOperator_taking (s : Session) (since : Stage) (n n' : Option Char) {plan plan' : Plan}
    (hplan : plan = (s.planOperator ed.host.text ed.host.selection op range since).withWrite
      ((Region.ofRange ed.host.text range).write? ed.host.text (n.getD Registers.unnamed)))
    (hplan' : plan' = (s.planOperator ed.host.text ed.host.selection op range since).withWrite
      ((Region.ofRange ed.host.text range).write? ed.host.text (n'.getD Registers.unnamed))) :
    plan' = plan.withWrite plan'.write? ∧
      ed.session.registers.written plan.write? = ed.taking range n ∧
      ed.session.registers.written plan'.write? = ed.taking range n' := by
  subst hplan hplan'
  rw [Session.write_withWrite_planOperator, Session.write_withWrite_planOperator,
    Plan.withWrite_withWrite]
  exact ⟨rfl, rfl, rfl⟩

theorem planOfCommand_selecting {command : Command} (hoperates : (ed.noted command).session.Operates
      ed.host.text ed.host.selection command op range)
    (hnormal : command.isNormalOnly = true → (ed.noted command).session.mode.isVisual = false)
    (name : Option Char) :
    (ed.selecting name).planOfCommand command =
      some (((ed.noted command).session.planOperator ed.host.text ed.host.selection op range
        (Session.forgetsSince command)).withWrite
          ((Region.ofRange ed.host.text range).write? ed.host.text
            (name.getD Registers.unnamed))) := by
  unfold planOfCommand
  rw [noted_selecting]
  exact hoperates.planned_selecting hnormal name

theorem planOf_selecting {change : Repeatable} (hoperates : (ed.prepared change).session.Operates
      ed.host.text ed.host.selection change.command op range)
    (hvisual : (ed.prepared change).session.mode.isVisual = false) (name : Option Char) :
    (ed.selecting name).planOf change =
      ((ed.prepared change).session.planOperator ed.host.text ed.host.selection op range
        (Session.forgetsSince change.command)).withWrite
          ((Region.ofRange ed.host.text range).write? ed.host.text
            (name.getD Registers.unnamed)) := by
  have hplan := hoperates.planned_selecting (fun _ => hvisual) name
  rw [Session.planCommand_command] at hplan
  unfold planOf
  rw [prepared_selecting]
  exact Option.some.inj hplan

/-- **An event that takes a range does so alike into any register.** -/
theorem endAlike_taking (hresting : ed.Resting) (hoperates : ed.Operates event op range)
    (n n' : Option Char) :
    EndAlike (fun _ _ => True) (fun r r' => r = ed.taking range n ∧ r' = ed.taking range n')
      (dispatch event) (dispatch event) (ed.selecting n) (ed.selecting n') := by
  cases hoperates with
  | @command command i hcompletes hcommand =>
    refine endAlike_dispatch_of_completes (completes_selecting hcompletes n)
      (completes_selecting hcompletes n') ?_
    obtain ⟨hnormal, -⟩ := planned_of_completes hresting hcompletes
    have hplan := planOfCommand_selecting hcommand hnormal
    obtain ⟨hwrite, htaken⟩ := planOperator_taking _ _ n n' rfl rfl
    exact @endAlike_execute_of_plan _ _ (ed.withInput i) ed.session.registers ed.session.registers
      command _ _ n n' (hplan n) (hplan n') hwrite trivial trivial htaken
  | @repeated count i last change hcompletes hlast hchange hcommand =>
    refine endAlike_dispatch_of_completes (completes_selecting hcompletes n)
      (completes_selecting hcompletes n') (endAlike_repeatChange hlast hlast ?_)
    obtain ⟨hvisual, -⟩ := prepared_of_completes hresting hcompletes change
    have hplan := planOf_selecting hcommand hvisual
    obtain ⟨hwrite, htaken⟩ := planOperator_taking _ _ n n' rfl rfl
    have hreplaying : ∀ name, ((ed.withInput i).selecting name).replaying.planOf change = _ :=
      fun name => (planOf_replaying _ change).trans (hplan name)
    rw [← hchange]
    exact @endAlike_replay_of_plan _ _ (ed.withInput i).replaying ed.session.registers
      ed.session.registers change _ _ n n' (hreplaying n) (hreplaying n') hwrite trivial htaken
      (fun _ => trivial) last.typed

/-! ## Putting from one register or another -/

/-- The document and the mode are the same. -/
structure SameScreen (a b : Editor) : Prop where
  text : a.host.text = b.host.text
  selection : a.host.selection = b.host.selection
  mode : a.session.mode = b.session.mode

theorem Alike.sameScreen {a b : Editor} (h : Alike R a b) : a.SameScreen b := by
  obtain ⟨ed, r, r', -, rfl, rfl⟩ := h
  exact ⟨rfl, rfl, rfl⟩

/-- **Two registers that hold the same are put alike.** -/
theorem sameScreen_put {edit : QuickEdit} {count : Nat} {r r' : Registers} {n n' : Option Char}
    (hedit : edit = .putAfter ∨ edit = .putBefore)
    (hcompletes : ed.completes event = some (.instant (.quick edit) count, i))
    (hread : r.read (n.getD Registers.unnamed) = r'.read (n'.getD Registers.unnamed)) :
    SameScreen (((ed.selecting n).withRegisters r).press event).2
      (((ed.selecting n').withRegisters r').press event).2 := by
  have hselected : ∀ n r, ((ed.selecting n).withRegisters r).completes event =
      some (.instant (.quick edit) count, i.selecting n) :=
    fun n _ => completes_selecting hcompletes n
  let s := (((ed.withInput i).selecting n).withRegisters r).session
  let s' := (((ed.withInput i).selecting n').withRegisters r').session
  have hcursor : s'.cursor ed.host.text ed.host.selection =
      s.cursor ed.host.text ed.host.selection := rfl
  have hput : ∀ after, s'.planPut ed.host.text ed.host.selection (max count 1) after =
      s.planPut ed.host.text ed.host.selection (max count 1) after :=
    Session.planPut_congr hread.symm hcursor (max count 1)
  have hplan : s'.planQuick ed.host.text ed.host.selection edit count =
      s.planQuick ed.host.text ed.host.selection edit count := by
    rcases hedit with rfl | rfl
    · exact hput true
    · exact hput false
  have hends : EndAlike (fun _ _ => True) (fun _ _ => True) (dispatch event) (dispatch event)
      ((ed.selecting n).withRegisters r) ((ed.selecting n').withRegisters r') := by
    refine endAlike_dispatch_of_completes (hselected n r) (hselected n' r') ?_
    exact @endAlike_execute_of_plan _ _ (ed.withInput i) r r' (.instant (.quick edit) count) _ _ n
      n' rfl (congrArg some hplan) (Plan.withWrite_self _) trivial trivial trivial
  exact (endAlike_press hends).2.elim Alike.sameScreen fun h => h.2.sameScreen

end Editor

/-! ## The same in the clipboard and under a name -/

namespace Registers

variable {r r' : Registers} {named name : Char} {reg : Register}

theorem read_write_ne (hname : isClipboard name = false) {k : Char} (hne : name ≠ k) :
    (r.write k reg).read name = r.read name := by
  simp [read, write, hname, Named.get?_set, hne]

/-- The name is neither one of the clipboard nor this one. -/
def IsOther (named name : Char) : Prop :=
  isClipboard name = false ∧ name ≠ named

/-- The clipboard is attached to the first registers, the second ones hold `reg` under a name, and
all others are the same. -/
structure Apart (named : Char) (reg : Register) (r r' : Registers) : Prop where
  attached : r.attached = true
  held : r'.read named = some reg
  others : ∀ name, IsOther named name → r.read name = r'.read name

theorem hides_apart (hnamed : isClipboard named = false) (reg : Register) :
    Hides (IsOther named) (Apart named reg) where
  read h hname := h.others _ hname
  write {r r' name} written h hname := by
    refine ⟨h.attached, ?_, fun other hother => ?_⟩
    · rw [read_write_ne hnamed hname.2.symm]
      exact h.held
    · by_cases hsame : other = name
      · rw [hsame, read_write r written hname.1, read_write r' written hname.1]
      · rw [read_write_ne hother.1 hsame, read_write_ne hother.1 hsame]
        exact h.others other hother

theorem apart_write (hattached : r.attached = true) {clip : Char}
    (hclip : isClipboard clip = true) (hnamed : isClipboard named = false) (reg : Register) :
    Apart named reg (r.write clip reg) (r.write named reg) where
  attached := hattached
  held := read_write r reg hnamed
  others name hname := by
    have hne : name ≠ clip := by
      rintro rfl
      rw [hname.1] at hclip
      cases hclip
    rw [read_write_ne hname.1 hne, read_write_ne hname.1 hname.2]

theorem clipboard_write (hattached : r.attached = true) (hclip : isClipboard name = true)
    (reg : Register) : (r.write name reg).clipboard = some reg.text := by
  simp [write, reachesClipboard, hattached, hclip]

theorem read_clipboard (hattached : r.attached = true) (hclip : isClipboard name = true)
    {text : Text} (hcell : r.clipboard = some text) : r.read name = some (ofClipboard text) := by
  simp [read, hattached, hclip, hcell]

end Registers

/-- A region of whole lines ends in a line break as a register keeps it, so the clipboard takes it
for lines. Characters it takes for characters unless they end in one. -/
theorem Region.register_eq_ofClipboard {t : Text} {range : Range}
    (h : (ofRange t range).linewise = false →
      ((ofRange t range).registerText t).getLast? ≠ some '\n') :
    (ofRange t range).register t = Registers.ofClipboard ((ofRange t range).registerText t) := by
  unfold register Registers.ofClipboard
  cases hl : (ofRange t range).linewise with
  | false =>
    rw [beq_false_of_ne (h hl)]
  | true =>
    have hextent : range.extent = .linewise := by
      simp only [ofRange] at hl
      split at hl
      · assumption
      · cases hl
      · cases hl
    obtain ⟨u, hu⟩ := Text.ofLines_eq_append_lineBreak (range.touchedLines_ne_nil t)
    rw [registerText_linewise hextent, hu, List.getLast?_concat]
    rfl

namespace Editor

/-- **A clipboard register behaves like a named one, but for characters that end in a line break.**
From any state with a clipboard attached, an event takes a range once into a clipboard register and
once into a named one, each chosen by typing `"` and its name:

* text, cursor and mode are the same, and remain so through any history in which no command is given
  one of these registers;
* as long as the clipboard keeps the text, putting it is putting the named register, unless the text
  is characters that end in a line break;
* in any case it is putting a register that holds the text as lines if it ends in a line break. -/
theorem clipboard_like_named (rest : Rest) (config : Config) (cell : Option (Option Text))
    (host : Host) (before : List Happening) {ed : Editor}
    (hed : ed = (⟨Session.new rest.mode config cell, host⟩ : Editor).happenAll before)
    (hattached : ed.session.registers.attached = true) {clip named : Char}
    (hclip : Registers.isClipboard clip = true) (hnamed : Registers.isClipboard named = false)
    {event : InputEvent} {op : Operator} {range : Range} (hoperates : ed.Operates event op range)
    (hvoid : (Region.ofRange ed.host.text range).isVoid = false) {c n : Editor}
    (hc : ed.Chosen clip c) (hn : ed.Chosen named n) {command : Command} {a b : Editor}
    (ha : c.press event = (some command, a)) (hb : (n.press event).2 = b)
    {history : List Happening} (hhistory : a.HappensOnly (Registers.IsOther named) history)
    {a' b' : Editor} (ha' : a.happenAll history = a') (hb' : b.happenAll history = b')
    (hcell : a'.session.registers.clipboard = a.session.registers.clipboard) {put : InputEvent}
    {edit : QuickEdit} {count : Nat} {j : Input} (hedit : edit = .putAfter ∨ edit = .putBefore)
    (hput : a'.completes put = some (.instant (.quick edit) count, j)) {reg : Register}
    (hreg : reg = (Region.ofRange ed.host.text range).register ed.host.text) {c' : Editor}
    (hc' : a'.Chosen clip c') :
    a.SameScreen b ∧ a'.SameScreen b' ∧
      (reg.linewise = true ∨ reg.text.getLast? ≠ some '\n' →
        ∀ n', b'.Chosen named n' → SameScreen (c'.press put).2 (n'.press put).2) ∧
      ∀ n', (b'.withRegisters (b'.session.registers.write named
          (Registers.ofClipboard reg.text))).Chosen named n' →
        SameScreen (c'.press put).2 (n'.press put).2 := by
  have hresting : ed.Resting := hed ▸ resting_happenAll rest config cell host before
  obtain rfl := hc.eq_selecting hoperates.mode_ne_insert
  obtain rfl := hn.eq_selecting hoperates.mode_ne_insert
  have htaking : ∀ name, ed.taking range (some name) = ed.session.registers.write name reg := by
    intro name
    unfold taking Region.write?
    rw [hvoid, hreg]
    rfl
  -- the two runs differ in one register, and a history that leaves it alone keeps them so
  obtain ⟨-, htaken⟩ := endAlike_press
    (endAlike_taking hresting hoperates (some clip) (some named))
  rw [ha, hb, htaking, htaking] at htaken
  obtain ⟨x, r, r', ⟨rfl, rfl⟩, rfl, rfl⟩ := htaken.resolve_right fun h => by cases h.1
  have halike : Alike (Registers.Apart named reg) (x.withRegisters _) (x.withRegisters _) :=
    ⟨x, _, _, Registers.apart_write hattached hclip hnamed reg, rfl, rfl⟩
  have hlater := alike_happenAll (Registers.hides_apart hnamed reg) halike hhistory
  rw [ha', hb'] at hlater
  obtain ⟨y, q, q', hapart, rfl, rfl⟩ := hlater
  obtain ⟨hmode, -⟩ := completes_cases hput
  obtain rfl := hc'.eq_selecting hmode
  have hread : q.read clip = some (Registers.ofClipboard reg.text) :=
    Registers.read_clipboard hapart.attached hclip
      (hcell.trans (Registers.clipboard_write hattached hclip reg))
  -- a put shows the same wherever the two registers read alike
  have hputs : ∀ {q₀ : Registers}, q₀.read named = q.read clip →
      ∀ n', (y.withRegisters q₀).Chosen named n' →
        SameScreen (((y.selecting (some clip)).withRegisters q).press put).2 (n'.press put).2 := by
    intro q₀ h n' hn'
    obtain rfl := hn'.eq_selecting hmode
    exact sameScreen_put hedit hput h.symm
  refine ⟨halike.sameScreen, ⟨rfl, rfl, rfl⟩, fun htext => hputs ?_, hputs ?_⟩
  · have hkept : reg = Registers.ofClipboard reg.text := by
      rw [hreg] at htext ⊢
      refine Region.register_eq_ofClipboard fun hchars => htext.resolve_left fun hlines => ?_
      exact Bool.noConfusion (hchars.symm.trans hlines)
    exact hapart.held.trans ((congrArg some hkept).trans hread.symm)
  · exact (Registers.read_write q' (Registers.ofClipboard reg.text) hnamed).trans hread.symm

/-- Two lines are taken into `+`, a character is deleted further down, and the lines are put. -/
theorem clipboard_like_named_lines :
    let ed : Editor := (⟨Session.new .normal { followUnnamed := false } (some none),
      .ofText ['a', 'b', '\n', 'c', 'd', '\n', 'e', 'f'] 0⟩ : Editor).happenAll
        [.event (.text 'y')]
    let choosing (name : Char) (ed : Editor) : Editor := (ed.pressAll [.text '"', .text name]).2
    let history : List Happening := [.event (.text 'j'), .event (.text 'x')]
    let a := ((choosing '+' ed).press (.text 'j')).2
    let b := ((choosing 'a' ed).press (.text 'j')).2
    let a' := a.happenAll history
    let b' := b.happenAll history
    a'.host.text = ['a', 'b', '\n', 'd', '\n', 'e', 'f'] ∧
      SameScreen ((choosing '+' a').press (.text 'p')).2
        ((choosing 'a' b').press (.text 'p')).2 := by
  intro ed choosing history a b a' b'
  have hj : ed.completes (.text 'j') = some (.motion .down 1, .pending .yank none none) := by
    decide
  have hoperates : ed.Operates (.text 'j') .yank (.linewise 0 3) :=
    .command hj (.motion (by decide) (by decide))
  have hpress : (choosing '+' ed).press (.text 'j') = (some (.motion .down 1), a) := by
    decide
  have hother : Registers.IsOther 'a' Registers.unnamed := ⟨rfl, by decide⟩
  have hdown : a.completes (.text 'j') = some (.motion .down 1, .idle .normal) := by decide
  have hx : (a.press (.text 'j')).2.completes (.text 'x') =
      some (.instant (.quick .deleteChar) 1, .idle .normal) := by decide
  have hhistory : a.HappensOnly (Registers.IsOther 'a') history := by
    refine ⟨⟨fun command i h => ?_, trivial⟩, ⟨fun command i h => ?_, trivial⟩, trivial⟩
    · cases hdown.symm.trans h
      exact hother
    · cases hx.symm.trans h
      exact hother
  have hp : a'.completes (.text 'p') = some (.instant (.quick .putAfter) 1, .idle .normal) := by
    decide
  have hchosen (name : Char) (x : Editor) (hlookahead : x.session.input.lookahead = none)
      (hname : Input.isRegisterName name = true) : x.Chosen name (choosing name x) :=
    .typed hlookahead hname rfl
  obtain ⟨-, -, hputs, -⟩ := clipboard_like_named .normal { followUnnamed := false } (some none)
    (.ofText ['a', 'b', '\n', 'c', 'd', '\n', 'e', 'f'] 0) [.event (.text 'y')] rfl (by decide)
    (by decide) (by decide) hoperates (by decide) (hchosen '+' ed (by decide) (by decide))
    (hchosen 'a' ed (by decide) (by decide)) hpress rfl hhistory rfl rfl (by decide)
    (Or.inl rfl) hp rfl (hchosen '+' a' (by decide) (by decide))
  exact ⟨by decide, hputs (Or.inl (by decide)) _ (hchosen 'a' b' (by decide) (by decide))⟩

/-- A clipboard that is attached is not put as a named register is:

* characters that end in a line break come back as lines;
* what is deleted in between reaches the clipboard as well, if it follows the unnamed register;
* a register that is taken into in between is not the one that was taken into before;
* and where nothing is taken the registers keep what they held. -/
theorem clipboard_unlike_named :
    let after (t : Text) (cursor : Nat) (keys : List Char) : Text :=
      ((⟨Session.new .normal {} (some none), .ofText t cursor⟩ : Editor).pressAll
        (keys.map .text)).2.host.text
    after ['a', 'b', '\n', '\n'] 3 ['v', '"', '+', 'y', 'k', '"', '+', 'p'] =
        ['a', 'b', '\n', '\n', '\n'] ∧
      after ['a', 'b', '\n', '\n'] 3 ['v', '"', 'a', 'y', 'k', '"', 'a', 'p'] =
        ['a', '\n', 'b', '\n', '\n'] ∧
      after ['a', 'b'] 0 ['"', '+', 'y', 'l', 'l', 'x', '"', '+', 'p'] = ['a', 'b'] ∧
      after ['a', 'b'] 0 ['"', 'a', 'y', 'l', 'l', 'x', '"', 'a', 'p'] = ['a', 'a'] ∧
      after ['a', 'b'] 0 ['"', '+', 'y', 'l', 'l', '"', 'a', 'y', 'l', '"', '+', 'p'] =
        ['a', 'b', 'a'] ∧
      after ['a', 'b'] 0 ['"', 'a', 'y', 'l', 'l', '"', 'a', 'y', 'l', '"', 'a', 'p'] =
        ['a', 'b', 'b'] ∧
      after ['a', '\n'] 0 ['"', 'a', 'y', 'l', 'j', '"', '+', 'y', 'l', '"', '+', 'p'] =
        ['a', '\n'] ∧
      after ['a', '\n'] 0 ['"', 'a', 'y', 'l', 'j', '"', 'a', 'y', 'l', '"', 'a', 'p'] =
        ['a', '\n', 'a'] := by
  decide

end Editor

end ModalEdit
