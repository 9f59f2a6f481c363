import ModalEdit.Input.Read
import ModalEdit.Session.Basic

/-!
# The keys of a change

`Spells keys change` says that a repeatable change is typed by these keys, with the counts it may be
given and no register selected. Keys are read one at a time: `Input.Completes` says that all but the
last of some keys leave partial input and that the last one completes a command. The change with an
operator is read as two commands, the operator and its motion or text object; `Input.pending` is the
partial input between them.
-/

namespace ModalEdit

/-! ## Counts -/

namespace Count

/-- The count after some more digits are typed. -/
def pushAll (count : Option Nat) (digits : List Char) : Option Nat :=
  digits.foldl (fun count c => some (push count ((digit? c).getD 0))) count

/-- The count that digits come to. -/
def ofDigits (digits : List Char) : Option Nat :=
  pushAll none digits

/-- Digits typed as a count, perhaps none. No zero comes first. -/
def Spelled (digits : List Char) : Prop :=
  (∀ c ∈ digits, (digit? c).isSome = true) ∧ digits.head? ≠ some '0'

instance (digits : List Char) : Decidable (Spelled digits) :=
  decidable_of_iff (digits.all (fun c => (digit? c).isSome) = true ∧ digits.head? ≠ some '0')
    (and_congr_left' List.all_eq_true)

theorem spelled_nil : Spelled [] := ⟨nofun, nofun⟩

theorem eq_zero_of_digit? {c : Char} (h : digit? c = some 0) : c = '0' := by
  simp only [digit?, Option.ite_none_right_eq_some, Option.some.injEq] at h
  obtain ⟨⟨hle, -⟩, hzero⟩ := h
  have hle : '0'.toNat ≤ c.toNat := hle
  refine Char.toNat_inj.1 ?_
  omega

end Count

/-- A change whose command enters Insert mode, given a target. -/
def Repeatable.entersInsert : Repeatable → Bool
  | operateMotion op _ _ | operateObject op _ _ _ => op == .change
  | quick edit _ => edit == .changeToLineEnd || edit == .substituteLine || edit == .substituteChar
  | replace _ _ => false
  | insert _ => true

namespace Input

/-- An operator waits, with the count typed before it and the one typed after it. -/
def pending (op : Operator) (outer inner : Option Nat) : Input :=
  { mode := .operatorPending, count := inner, operator := some ⟨op, outer⟩ }

end Input

/-! ## Keys -/

/-- The keys of a motion after an operator, other than a jump. -/
inductive MotionKeys (op : Operator) : List Char → Motion → Prop
  | key {c : Char} {m : Motion} : Motion.ofKey c = some m → MotionKeys op [c] m
  | find {k : Char} {kind : FindKind} (c : Char) :
      FindKind.ofKey k = some kind → MotionKeys op [k, c] (.find ⟨kind, c⟩)
  | gotoFirst : MotionKeys op ['g', 'g'] .gotoFirst
  | markLine (name : Char) : MotionKeys op ['\'', name] (.mark name true)
  | mark (name : Char) : MotionKeys op ['\x60', name] (.mark name false)
  | wholeLines : MotionKeys op [op.key] .wholeLines

/-- The keys of a text object after an operator. -/
inductive ObjectKeys : List Char → TextObject → Scope → Prop
  | inner {c : Char} {o : TextObject} : TextObject.ofKey c = some o → ObjectKeys ['i', c] o .inner
  | around {c : Char} {o : TextObject} : TextObject.ofKey c = some o → ObjectKeys ['a', c] o .around

/-- The keys of a change. A `0` is a motion only where it is no digit. -/
inductive Spells : List Char → Repeatable → Prop
  | operateMotion {outer inner keys : List Char} {op : Operator} {m : Motion} :
      Count.Spelled outer → Count.Spelled inner → op ≠ .yank → MotionKeys op keys m →
      (keys = ['0'] → inner = []) →
      Spells (outer ++ op.key :: (inner ++ keys))
        (.operateMotion op m ((Input.pending op (Count.ofDigits outer)
          (Count.ofDigits inner)).composedCount m.defaultCount))
  | operateObject {outer inner keys : List Char} {op : Operator} {o : TextObject} {scope : Scope} :
      Count.Spelled outer → Count.Spelled inner → op ≠ .yank → ObjectKeys keys o scope →
      Spells (outer ++ op.key :: (inner ++ keys))
        (.operateObject op o scope ((Input.pending op (Count.ofDigits outer)
          (Count.ofDigits inner)).composedCount 1))
  | quick {outer : List Char} {c : Char} {edit : QuickEdit} :
      Count.Spelled outer → Instant.ofKey c = some (.quick edit) →
      Spells (outer ++ [c]) (.quick edit ((Count.ofDigits outer).getD 1))
  | replace {outer : List Char} (c : Char) :
      Count.Spelled outer → Spells (outer ++ ['r', c]) (.replace c ((Count.ofDigits outer).getD 1))
  | insert {outer : List Char} {c : Char} {place : Insertion} :
      Count.Spelled outer → Entry.ofKey c = some (.insert place) →
      Spells (outer ++ [c]) (.insert place)
  | insertLineStart {outer : List Char} :
      Count.Spelled outer → Spells (outer ++ ['g', 'I']) (.insert .lineStart)

/-! ## Reading the keys -/

namespace Input

variable {i i' i'' : Input} {t : Text} {config : Config} {command : Command} {c : Char}
  {keys : List Char} {op : Operator} {outer inner : Option Nat}

/-- All but the last of the keys leave partial input, and the last one completes the command. -/
inductive Completes (t : Text) (config : Config) : Input → List Char → Command → Input → Prop
  | last {i i' : Input} {c : Char} {command : Command} : i.mode ≠ .insert →
      i.read t config c = (.command command, i') → Completes t config i [c] command i'
  | more {i i'' : Input} {c : Char} {keys : List Char} {command : Command} (i' : Input) :
      i.mode ≠ .insert → i.read t config c = (.incomplete, i') →
      Completes t config i' keys command i'' → Completes t config i (c :: keys) command i''

/-- Keys are counted in Normal mode and where an operator waits. -/
structure Counting (i : Input) : Prop where
  mode : i.mode = .normal ∨ i.mode = .operatorPending
  no_lookahead : i.lookahead = none

theorem Counting.mode_ne_insert (h : i.Counting) : i.mode ≠ .insert := by
  rcases h.mode with hm | hm <;> rw [hm] <;> nofun

theorem Counting.not_visual (h : i.Counting) : i.mode.isVisual = false := by
  rcases h.mode with hm | hm <;> rw [hm] <;> rfl

theorem counting_normal (count : Option Nat) : { mode := .normal, count : Input }.Counting :=
  ⟨Or.inl rfl, rfl⟩

theorem counting_pending (op : Operator) (outer inner : Option Nat) :
    (pending op outer inner).Counting :=
  ⟨Or.inr rfl, rfl⟩

theorem not_doublesOperator (h : ∀ op : Operator, op.key ≠ c) : i.doublesOperator c = false := by
  have hkey : ∀ op : Operator, (op.key == c) = false := fun op => beq_false_of_ne (h op)
  cases hop : i.operator <;> simp [doublesOperator, hop, hkey]

theorem not_doublesOperator_of_digit {d : Nat} (h : Count.digit? c = some d) :
    i.doublesOperator c = false := by
  refine not_doublesOperator fun op hc => ?_
  rw [← hc] at h
  cases op <;> cases h

/-- A digit adds to the count. -/
theorem read_digit (h : i.Counting) {d : Nat} (hd : Count.digit? c = some d)
    (hzero : i.count = none → c ≠ '0') :
    i.read t config c = (.incomplete, { i with count := some (Count.push i.count d) }) := by
  have hdigit : i.digit? c = some d := by
    simp only [digit?, hd, Option.filter_some]
    by_cases hleading : d = 0 ∧ i.count = none
    · rw [hleading.1] at hd
      exact absurd (Count.eq_zero_of_digit? hd) (hzero hleading.2)
    · refine if_pos ?_
      cases hcount : i.count <;> simp_all
  simp [read, h.no_lookahead, readKey, not_doublesOperator_of_digit hd, h.not_visual, hdigit]

/-- The key of a motion is no other key: it is read as the motion. A zero is one where no digits
stand before it. -/
theorem read_ofKey {m : Motion} (h : i.Counting) (hm : Motion.ofKey c = some m)
    (hzero : c = '0' → i.count = none) : i.read t config c = i.readMotion m := by
  have hdoubles : i.doublesOperator c = false := by
    refine not_doublesOperator fun op hc => ?_
    rw [← hc] at hm
    cases op <;> cases hm
  have hdigit : i.digit? c = none := by
    cases hd : Count.digit? c with
    | none => simp [digit?, hd]
    | some d =>
      have hc : c = '0' := by
        unfold Motion.ofKey at hm
        split at hm
        · rfl
        all_goals
          cases hm
          try cases hd
      subst hc
      cases hd
      simp [digit?, Count.digit?, hzero rfl]
  simp [read, h.no_lookahead, readKey, hdoubles, h.not_visual, hdigit, hm]

/-- A key that waits for its argument is no other key either. -/
theorem read_ofLookahead {l : Lookahead} (h : i.Counting) (hl : Lookahead.ofKey c = some l) :
    i.read t config c = i.await l := by
  have hdoubles : i.doublesOperator c = false := by
    refine not_doublesOperator fun op hc => ?_
    rw [← hc] at hl
    cases op <;> cases hl
  have hother : Count.digit? c = none ∧ Motion.ofKey c = none := by
    cases hkind : FindKind.ofKey c with
    | some kind =>
      unfold FindKind.ofKey at hkind
      split at hkind
      all_goals
        cases hkind
        try exact ⟨rfl, rfl⟩
    | none =>
      unfold Lookahead.ofKey at hl
      rw [hkind] at hl
      split at hl
      · rename_i hfind
        cases hfind
      all_goals
        cases hl
        try exact ⟨rfl, rfl⟩
  simp [read, h.no_lookahead, readKey, hdoubles, h.not_visual, digit?, hother, hl]

/-- Digits are read into the count, and then the keys after them are read. Only the first digit of
all may not be a zero. -/
theorem completes_pushAll {digits : List Char} (h : i.Counting)
    (hdigits : ∀ c ∈ digits, (Count.digit? c).isSome = true)
    (hzero : i.count = none → digits.head? ≠ some '0')
    (hkeys : Completes t config { i with count := Count.pushAll i.count digits } keys command i') :
    Completes t config i (digits ++ keys) command i' := by
  induction digits generalizing i with
  | nil => exact hkeys
  | cons c digits ih =>
    obtain ⟨d, hd⟩ := Option.isSome_iff_exists.1 (hdigits c (by simp))
    refine .more _ h.mode_ne_insert (read_digit h hd fun hn hc => hzero hn (by rw [hc]; rfl)) ?_
    refine ih ⟨h.mode, h.no_lookahead⟩ (fun x hx => hdigits x (by simp [hx])) nofun ?_
    simpa [Count.pushAll, hd] using hkeys

theorem completes_digits {digits : List Char} (h : i.Counting) (hcount : i.count = none)
    (hdigits : Count.Spelled digits)
    (hkeys : Completes t config { i with count := Count.ofDigits digits } keys command i') :
    Completes t config i (digits ++ keys) command i' := by
  refine completes_pushAll h hdigits.1 (fun _ => hdigits.2) ?_
  rw [hcount]
  exact hkeys

/-- The argument of a lookahead that is a motion's completes the motion. -/
theorem completes_argument {l : Lookahead} {m : Motion} {k : Char} (h : i.Counting)
    (hl : Lookahead.ofKey k = some l)
    (hargument : ∀ i : Input, i.readArgument t config c l = i.readMotion m) :
    Completes t config i [k, c] (.motion m (i.composedCount m.defaultCount))
      { i with count := none } := by
  have hlookahead := h.no_lookahead
  refine .more { i with lookahead := some l } h.mode_ne_insert (read_ofLookahead h hl)
    (.last h.mode_ne_insert ?_)
  obtain ⟨mode, lookahead, count, operator, register, groups⟩ := i
  obtain rfl : lookahead = none := hlookahead
  exact hargument _

/-- The keys of a motion complete it where keys are counted. The key of an operator is one where
that operator waits. -/
theorem completes_motion {m : Motion} (h : i.Counting) (hkeys : MotionKeys op keys m)
    (hzero : keys = ['0'] → i.count = none)
    (hwhole : m = .wholeLines → i.doublesOperator op.key = true) :
    Completes t config i keys (.motion m (i.composedCount m.defaultCount))
      { i with count := none } := by
  cases hkeys with
  | @key c _ hkey =>
    exact .last h.mode_ne_insert (read_ofKey h hkey fun hc => hzero (by rw [hc]))
  | @find k kind c hkind =>
    refine completes_argument h (l := .find kind) ?_ fun _ => rfl
    unfold Lookahead.ofKey
    rw [hkind]
  | gotoFirst => exact completes_argument h (l := .g) rfl fun _ => rfl
  | markLine name => exact completes_argument h (l := .gotoMark true) rfl fun _ => rfl
  | mark name => exact completes_argument h (l := .gotoMark false) rfl fun _ => rfl
  | wholeLines =>
    have hread : i.read t config op.key = i.readMotion .wholeLines := by
      simp only [read, h.no_lookahead, readKey, hwhole rfl, if_true]
    exact .last h.mode_ne_insert hread

/-- The keys of a text object complete it where an operator waits. -/
theorem completes_object {o : TextObject} {scope : Scope} (hkeys : ObjectKeys keys o scope)
    (hmode : i.mode = .operatorPending) (hlookahead : i.lookahead = none) :
    Completes t config i keys (.object o scope (i.composedCount 1)) { i with count := none } := by
  obtain ⟨mode, lookahead, count, operator, register, groups⟩ := i
  obtain rfl : mode = .operatorPending := hmode
  obtain rfl : lookahead = none := hlookahead
  let i : Input := { mode := .operatorPending, count, operator, register, jumpGroups := groups }
  have hread (scope : Scope) : i.read t config (if scope = .inner then 'i' else 'a') =
      i.await (.object scope) := by
    cases operator with
    | none => cases scope <;> rfl
    | some waiting =>
      obtain ⟨op, outer⟩ := waiting
      cases op <;> cases scope <;> rfl
  cases hkeys with
  | inner ho =>
    refine .more _ nofun (hread .inner) (.last nofun ?_)
    simp only [read, readArgument, ho]
    rfl
  | around ho =>
    refine .more _ nofun (hread .around) (.last nofun ?_)
    simp only [read, readArgument, ho]
    rfl

/-! ### After an operator -/

theorem completes_motionKeys {m : Motion} (h : MotionKeys op keys m)
    (hzero : keys = ['0'] → inner = none) :
    Completes t config (pending op outer inner) keys
      (.motion m ((pending op outer inner).composedCount m.defaultCount))
      (pending op outer none) := by
  refine completes_motion (counting_pending op outer inner) h hzero fun _ => ?_
  cases op <;> rfl

theorem completes_objectKeys {o : TextObject} {scope : Scope} (h : ObjectKeys keys o scope) :
    Completes t config (pending op outer inner) keys
      (.object o scope ((pending op outer inner).composedCount 1)) (pending op outer none) :=
  completes_object h rfl rfl

/-! ### In Normal mode -/

theorem read_operatorKey (op : Operator) (count : Option Nat) :
    { mode := .normal, count : Input }.read t config op.key =
      (.command (.operator op count), idle .normal) := by
  cases op <;> rfl

theorem read_quickKey {edit : QuickEdit} (h : Instant.ofKey c = some (.quick edit))
    (hmode : i.mode = .normal) (hlookahead : i.lookahead = none) :
    i.read t config c =
      (.command (.instant (.quick edit) (i.count.getD 1)), { i with count := none }) := by
  obtain ⟨mode, lookahead, count, operator, register, groups⟩ := i
  obtain rfl : mode = .normal := hmode
  obtain rfl : lookahead = none := hlookahead
  unfold Instant.ofKey at h
  split at h
  all_goals
    cases h
    try rfl

theorem read_insertKey {place : Insertion} (h : Entry.ofKey c = some (.insert place))
    (hmode : i.mode = .normal) (hlookahead : i.lookahead = none) :
    i.read t config c = (.command (.enter (.insert place)), i) := by
  obtain ⟨mode, lookahead, count, operator, register, groups⟩ := i
  obtain rfl : mode = .normal := hmode
  obtain rfl : lookahead = none := hlookahead
  unfold Entry.ofKey at h
  split at h
  all_goals
    cases h
    try rfl

end Input

end ModalEdit
