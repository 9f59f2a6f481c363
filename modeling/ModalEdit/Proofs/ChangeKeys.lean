import ModalEdit.Proofs.OtherRegisters
import ModalEdit.Proofs.Synonyms

/-!
# Changes typed with a register

The keys of a change are taken by what they are read as (`Input.ReadsChange`), not by how they are
written: a register may be selected anywhere among them, and the labels of a jump are keys of its
motion as far as they lead to the same place. Whatever else is typed before the command is complete,
only the register matters: such keys carry the change out as on an editor with nothing but that
register selected (`types_readsChange`).
-/

namespace ModalEdit

namespace Input

variable {t : Text} {config : Config} {keys : List Char} {command : Command} {i i' : Input}
  {op : Operator} {outer : Option Nat} {change : Repeatable} {name : Option Char}

/-! ## Keys that are read as a change -/

/-- These keys of Normal mode, typed with no partial input, are read as this change, and this
register is selected when they are complete. An operator is read first, and then what it waits
for. -/
inductive ReadsChange (t : Text) (config : Config) :
    List Char → Repeatable → Option Char → Prop
  | quick {keys : List Char} {edit : QuickEdit} {count : Nat} {i : Input} :
      Completes t config (.idle .normal) keys (.instant (.quick edit) count) i →
      ReadsChange t config keys (.quick edit count) i.register
  | motion {first rest : List Char} {op : Operator} {outer : Option Nat} {m : Motion} {count : Nat}
      {j i : Input} : Completes t config (.idle .normal) first (.operator op outer) j →
      op ≠ .yank → Completes t config (j.awaitMotion op outer) rest (.motion m count) i →
      ReadsChange t config (first ++ rest) (.operateMotion op m count) i.register
  | object {first rest : List Char} {op : Operator} {outer : Option Nat} {o : TextObject}
      {scope : Scope} {count : Nat} {j i : Input} :
      Completes t config (.idle .normal) first (.operator op outer) j → op ≠ .yank →
      Completes t config (j.awaitMotion op outer) rest (.object o scope count) i →
      ReadsChange t config (first ++ rest) (.operateObject op o scope count) i.register

theorem operator_readArgument (i : Input) (t : Text) (config : Config) (c : Char)
    (lookahead : Lookahead) : (i.readArgument t config c lookahead).2.operator = i.operator := by
  cases lookahead with
  | find kind | gotoMark linewise => rfl
  | g =>
    simp only [readArgument]
    split
    · rfl
    · split <;> rfl
  | replace | setMark | register | object scope =>
    simp only [readArgument]
    split <;> rfl
  | jumpSearch | jumpLabel resume =>
    simp only [readArgument, readJump]
    split <;> rfl

theorem operator_read (i : Input) (t : Text) (config : Config) (c : Char) :
    (i.read t config c).2.operator = i.operator := by
  unfold read
  split
  · exact operator_readArgument _ t config c _
  · simp only [readKey, readInMode]
    repeat' split
    all_goals rfl

/-- **Keys that complete a command leave open input of the mode they began in**, with the operator
that waited. -/
theorem Completes.opened (h : Completes t config i keys command i') (hi : i.Sound) :
    i'.Open ∧ i'.mode = i.standing ∧ i'.operator = i.operator := by
  induction h with
  | @last i i' c command hmode hread =>
    have hsound := read_sound hi hmode t config c
    have hoperator := operator_read i t config c
    rw [hread] at hsound hoperator
    exact ⟨hsound.1, hsound.2, hoperator⟩
  | @more i i'' c keys command i' hmode hread _ ih =>
    have hsound := read_sound hi hmode t config c
    have hoperator := operator_read i t config c
    rw [hread] at hsound hoperator
    obtain ⟨hopen, hstanding, hkept⟩ := ih hsound.1
    exact ⟨hopen, hstanding.trans hsound.2, hkept.trans hoperator⟩

/-- Nothing but a count, an argument and a register can be typed in Normal mode. -/
theorem Completes.eq_normal (h : Completes t config (.idle .normal) keys command i) :
    ∃ lookahead count, i = { mode := .normal, lookahead, count, register := i.register } := by
  obtain ⟨hopen, hmode, hoperator⟩ := h.opened (.opened open_idle_normal)
  obtain ⟨mode, lookahead, count, operator, register, groups⟩ := i
  obtain rfl : mode = .normal := hmode
  obtain rfl : operator = none := hoperator
  obtain rfl : groups = [] := hopen.no_groups
  exact ⟨lookahead, count, rfl⟩

theorem Completes.waitsOver {j : Input} {first rest : List Char}
    (hfirst : Completes t config (.idle .normal) first (.operator op outer) j)
    (hrest : Completes t config (j.awaitMotion op outer) rest command i) :
    WaitsOver op (prefaced none i.register) i := by
  obtain ⟨hopen, -⟩ := hfirst.opened (.opened open_idle_normal)
  have hwaiting : (j.awaitMotion op outer).Open :=
    ⟨nofun, nofun, not_awaitsLabel rfl, hopen.no_groups, by simp [awaitMotion, switch]⟩
  obtain ⟨hopen, hmode, hoperator⟩ := hrest.opened (.opened hwaiting)
  obtain ⟨mode, lookahead, count, operator, register, groups⟩ := i
  obtain rfl : mode = .operatorPending := hmode
  obtain rfl : operator = some ⟨op, outer⟩ := hoperator
  obtain rfl : groups = [] := hopen.no_groups
  exact ⟨lookahead, count, outer, rfl⟩

/-! ### Keys as they are written -/

/-- The keys of a change, with a count and a register typed before its command. A `0` is a motion
only where it is no digit. -/
inductive SpellsWith : List Char → Repeatable → Option Char → Prop
  | quick {pre : List Char} {count : Option Nat} {name : Option Char} {c : Char}
      {edit : QuickEdit} : Preface pre count name → Instant.ofKey c = some (.quick edit) →
      SpellsWith (pre ++ [c]) (.quick edit (count.getD 1)) name
  | motion {pre inner keys : List Char} {count : Option Nat} {name : Option Char} {op : Operator}
      {m : Motion} : Preface pre count name → op ≠ .yank → Count.Spelled inner →
      MotionKeys op keys m → (keys = ['0'] → inner = []) →
      SpellsWith (pre ++ [op.key] ++ (inner ++ keys))
        (.operateMotion op m
          ((pending op count (Count.ofDigits inner)).composedCount m.defaultCount)) name
  | object {pre inner keys : List Char} {count : Option Nat} {name : Option Char} {op : Operator}
      {o : TextObject} {scope : Scope} : Preface pre count name → op ≠ .yank →
      Count.Spelled inner → ObjectKeys keys o scope →
      SpellsWith (pre ++ [op.key] ++ (inner ++ keys))
        (.operateObject op o scope
          ((pending op count (Count.ofDigits inner)).composedCount 1)) name

theorem Preface.completesOperator {pre : List Char} (hpre : Preface pre outer name)
    (op : Operator) :
    Completes t config (.idle .normal) (pre ++ [op.key]) (.operator op outer)
      (prefaced none name) :=
  hpre.completes (.last nofun (read_operator op))

theorem SpellsWith.readsChange (h : SpellsWith keys change name) :
    ReadsChange t config keys change name := by
  cases h with
  | quick hpre hc => exact .quick (hpre.completes (.last nofun (read_quickKey hc rfl rfl)))
  | @motion _ _ _ count _ op _ hpre hop hinner hkeys hzero =>
    have hcounting : (waiting op count name).Counting := ⟨Or.inr rfl, rfl⟩
    refine .motion (hpre.completesOperator op) hop (completes_digits hcounting rfl hinner
      (completes_motion ⟨Or.inr rfl, rfl⟩ hkeys (fun hk => ?_) fun _ => ?_))
    · rw [hzero hk]
      rfl
    · cases op <;> rfl
  | @object _ _ _ count _ op _ _ hpre hop hinner hkeys =>
    have hcounting : (waiting op count name).Counting := ⟨Or.inr rfl, rfl⟩
    exact .object (hpre.completesOperator op) hop (completes_digits hcounting rfl hinner
      (completes_object hkeys rfl rfl))

end Input

namespace Editor

variable {ed : Editor} {change : Repeatable} {name : Option Char} {i : Input}
  {keys : List Char} {P : Editor → Prop}

/-! ## Typing with a register -/

theorem Ready.selecting_eq (h : ed.Ready) (name : Option Char) :
    ed.selecting name = ed.withInput (.prefaced none name) := by
  unfold selecting
  rw [h.input]
  rfl

theorem planOf_typed (ed : Editor) (lookahead : Option Lookahead) (count : Option Nat)
    (name : Option Char) (change : Repeatable) :
    (ed.withInput { mode := .normal, lookahead, count, register := name }).planOf change =
      (ed.withInput (.prefaced none name)).planOf change := by
  cases change with
  | operateMotion op m count => cases m <;> rfl
  | quick edit count => cases edit <;> rfl
  | insert place => cases place <;> rfl
  | _ => rfl

theorem applied_typed (ed : Editor) (lookahead : Option Lookahead) (count : Option Nat)
    (name : Option Char) (change : Repeatable) :
    (ed.withInput { mode := .normal, lookahead, count, register := name }).applied change =
      (ed.withInput (.prefaced none name)).applied change := by
  unfold applied
  rw [planOf_typed]
  generalize planOf change _ = plan
  cases change with
  | operateMotion op m count => cases m <;> cases plan <;> rfl
  | _ => cases plan <;> rfl

theorem changed_typed (ed : Editor) (lookahead : Option Lookahead) (count : Option Nat)
    (name : Option Char) (change : Repeatable) :
    (ed.withInput { mode := .normal, lookahead, count, register := name }).changed change =
      (ed.withInput (.prefaced none name)).changed change := by
  have happlied := applied_typed ed lookahead count name change
  unfold changed remembered
  unfold applied at happlied
  rw [happlied, planOf_typed]

theorem types_operated (h : ed.Ready) {op : Operator} {outer : Option Nat} {first rest : List Char}
    {command : Command} {j : Input}
    (hfirst : Input.Completes ed.host.text ed.session.config (.idle .normal) first
      (.operator op outer) j)
    (hrest : Input.Completes ed.host.text ed.session.config (j.awaitMotion op outer) rest command i)
    (hexecute : Input.WaitsOver op (.prefaced none i.register) i →
      Ends (execute command) (ed.withInput i) (fun _ => P) fun _ => False) :
    Types ed ((first ++ rest).map .char) P := by
  have hoperator := types_completes (P := (· = ed.withInput (j.awaitMotion op outer))) hfirst
    (ends_bind (ends_get (ends_update rfl)))
  rw [withInput_idle h.input] at hoperator
  rw [List.map_append]
  exact hoperator.append fun _ hed =>
    hed ▸ types_completes hrest (hexecute (hfirst.waitsOver hrest))

/-- **Keys that are read as a change carry it out** with the register they select. -/
theorem types_readsChange (h : ed.Ready)
    (hkeys : Input.ReadsChange ed.host.text ed.session.config keys change name) :
    Types ed (keys.map .char) (· = (ed.selecting name).changed change) := by
  rw [h.selecting_eq]
  cases hkeys with
  | @quick _ edit count i hkeys =>
    obtain ⟨lookahead, digits, hi⟩ := hkeys.eq_normal
    have hexecute := @ends_execute_quick (ed.withInput i) h.grants (by rw [hi]; rfl) edit count
    have htypes := types_completes hkeys hexecute
    rw [hi] at htypes
    rwa [changed_typed, withInput_idle h.input] at htypes
  | @motion _ _ op _ m count _ i hfirst hop hrest =>
    exact types_operated h hfirst hrest fun hwaits =>
      @ends_execute_motion (ed.withInput (.prefaced none i.register)) op i h.grants hwaits hop m
        count
  | @object _ _ op _ o scope count _ i hfirst hop hrest =>
    exact types_operated h hfirst hrest fun hwaits =>
      @ends_execute_object (ed.withInput (.prefaced none i.register)) op i h.grants hwaits hop o
        scope count

/-- Keys that are read as `.` repeat the last change with the register they select. -/
theorem types_repeatKeys (h : ed.Ready)
    (hkeys : Input.Completes ed.host.text ed.session.config (.idle .normal) keys
      (.instant .repeatChange 0) i)
    (hrepeat : Ends (execute (.instant .repeatChange 0)) (ed.withInput i) (fun _ => P)
      fun _ => False) : Types ed (keys.map .char) P := by
  have htypes := types_completes hkeys hrepeat
  rwa [withInput_idle h.input] at htypes

end Editor

end ModalEdit
