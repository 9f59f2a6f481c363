import ModalEdit.Proofs.Escaping

/-!
# Composed counts

A count may be typed before an operator and another one before its motion or text object. The
operator keeps the first, and the motion is given the product of the two, up to the limit. A count
that is not typed is one there, and if neither is typed the motion has its own default
(`Count.product`).

Counts are kept up to the limit digit by digit, and `Count.value` is cut off only once, when all the
digits are there. The two agree because a number that was cut off comes to no less than the limit
when a digit is added (`pushAll_min`).

Digits, the key of an operator, and keys that wait for an argument only change partial input, so the
host is asked nothing before the last key, and what is completed is no matter of the host
(`Editor.Yields`). Whether the last command is answered is: one that grants everything has it
answered.
-/

namespace ModalEdit

namespace Count

/-! ## The number that digits spell -/

/-- The number that digits spell, up to the limit, if there are any digits. -/
def value (digits : List Char) : Option Nat :=
  if digits = [] then none else some (min (Nat.ofDigitChars 10 digits 0) limit)

/-- What two counts come to, with a default if neither is typed. -/
def product (outer inner : List Char) (default : Nat) : Nat :=
  if outer = [] ∧ inner = [] then default
  else min ((value outer).getD 1 * (value inner).getD 1) limit

theorem digit?_eq_some {c : Char} {d : Nat} (h : digit? c = some d) : d = c.toNat - '0'.toNat := by
  simp only [digit?, Option.ite_none_right_eq_some, Option.some.injEq] at h
  exact h.2.symm

theorem pushAll_min {digits : List Char} (hdigits : ∀ c ∈ digits, (digit? c).isSome = true)
    (n : Nat) :
    pushAll (some (min n limit)) digits = some (min (Nat.ofDigitChars 10 digits n) limit) := by
  induction digits generalizing n with
  | nil => rfl
  | cons c digits ih =>
    obtain ⟨d, hd⟩ := Option.isSome_iff_exists.1 (hdigits c List.mem_cons_self)
    have hpush : push (some (min n limit)) d = min (10 * n + (c.toNat - '0'.toNat)) limit := by
      rw [push_min, digit?_eq_some hd, Nat.mul_comm]
    have hcons : pushAll (some (min n limit)) (c :: digits) =
        pushAll (some (push (some (min n limit)) d)) digits := by
      simp only [pushAll, List.foldl_cons, hd, Option.getD_some]
    rw [hcons, hpush, ih fun x hx => hdigits x (List.mem_cons_of_mem c hx),
      Nat.ofDigitChars_cons]

/-- **Digits come to the number they spell**, up to the limit. -/
theorem ofDigits_eq_value {digits : List Char} (h : Spelled digits) :
    ofDigits digits = value digits := by
  cases digits with
  | nil => rfl
  | cons c digits =>
    -- the first digit is pushed on no count as it is on a count of zero
    have hzero : ofDigits (c :: digits) = pushAll (some (min 0 limit)) (c :: digits) := rfl
    rw [hzero, pushAll_min h.1, value, if_neg (List.cons_ne_nil c digits)]

theorem product_nil (digits : List Char) (default : Nat) :
    product [] digits default = (value digits).getD default := by
  cases digits with
  | nil => rfl
  | cons c digits =>
    simp only [product, value, List.cons_ne_nil, and_false, if_false, if_true, Option.getD_none,
      Option.getD_some, Nat.one_mul, Nat.min_assoc, Nat.min_self]

end Count

namespace Input

theorem composedCount_eq_product {i : Input} {outer inner : List Char}
    (houter : i.operator.bind (·.count) = Count.value outer) (hinner : i.count = Count.value inner)
    (default : Nat) : i.composedCount default = Count.product outer inner default := by
  have htimes : ∀ a b : Nat, Count.times b a = min (a * b) Count.limit := fun a b =>
    congrArg (min · Count.limit) (Nat.mul_comm b a)
  unfold composedCount
  rw [houter, hinner]
  cases outer with
  | nil =>
    cases inner with
    | nil => rfl
    | cons d inner => exact htimes _ _
  | cons c outer => cases inner <;> exact htimes _ _

end Input

namespace Editor

variable {ed : Editor} {event : InputEvent} {c : Char} {keys : List Char} {i i' : Input}
  {command : Command} {commands : List Command}

/-! ## What keys complete -/

/-- The commands that events complete, in order, whatever the host makes of them. -/
def completed (ed : Editor) : List InputEvent → List Command
  | [] => []
  | event :: events =>
    ((ed.completes event).map Prod.fst).toList ++ completed (ed.press event).2 events

/-- These characters, whatever events they arrive as, complete exactly these commands. A host that
grants everything has exactly these answered. -/
def Yields (ed : Editor) (keys : List Char) (commands : List Command) : Prop :=
  ∀ events : List InputEvent, events.map (·.stroke?) = keys.map (fun c => some (.char c)) →
    ed.completed events = commands ∧ (ed.host.Grants → (ed.pressAll events).1 = commands)

theorem yields_cons (answer : Option Command)
    (hkey : ∀ event : InputEvent, event.stroke? = some (.char c) →
      (ed.completes event).map Prod.fst = answer ∧ ed.press event = (answer, ed.withInput i))
    (h : (ed.withInput i).Yields keys commands) :
    ed.Yields (c :: keys) (answer.toList ++ commands) := by
  intro events hevents
  obtain ⟨event, rest, rfl, hevent, hrest⟩ := List.map_eq_cons_iff.1 hevents
  obtain ⟨hcompleted, hanswered⟩ := h rest hrest
  obtain ⟨hcompletes, hpress⟩ := hkey event hevent
  refine ⟨?_, fun hg => ?_⟩
  · rw [completed, hcompletes, hpress, hcompleted]
  · rw [pressAll_cons, hpress, hanswered hg]

theorem yields_incomplete (hmode : ed.session.mode ≠ .insert)
    (hread : ed.session.input.read ed.host.text ed.session.config c = (.incomplete, i))
    (h : (ed.withInput i).Yields keys commands) : ed.Yields (c :: keys) commands := by
  refine yields_cons none (fun event hevent => ⟨?_, press_of_dispatch ?_⟩) h
  · unfold completes
    rw [if_neg hmode, hevent]
    dsimp only
    rw [hread]
    rfl
  · simp only [dispatch, hevent, stroke, commandChar, bind_apply, get_apply, update_apply,
      if_neg hmode, hread]
    rfl

/-- The key of an operator yields the operator, and the keys after it are read where it waits. -/
theorem yields_operator {op : Operator} {count : Option Nat} (hmode : ed.session.mode ≠ .insert)
    (hread : ed.session.input.read ed.host.text ed.session.config c =
      (.command (.operator op count), i))
    (h : (ed.withInput (i.awaitMotion op count)).Yields keys commands) :
    ed.Yields (c :: keys) (.operator op count :: commands) := by
  refine yields_cons (some (.operator op count)) (fun event hevent => ?_) h
  have hcompletes := completes_eq hmode hevent hread
  refine ⟨by rw [hcompletes]; rfl, press_of_dispatch ?_⟩
  rw [dispatch_of_completes hcompletes]
  rfl

theorem yields_planned (hmode : ed.session.mode ≠ .insert)
    (hread : ed.session.input.read ed.host.text ed.session.config c = (.command command, i))
    {plan : Plan} (hplan : (ed.withInput i).planOfCommand command = some plan) :
    ed.Yields [c] [command] := by
  intro events hevents
  obtain ⟨event, rest, rfl, hevent, hrest⟩ := List.map_eq_cons_iff.1 hevents
  obtain rfl := List.map_eq_nil_iff.1 hrest
  have hcompletes := completes_eq hmode hevent hread
  refine ⟨?_, fun hg => ?_⟩
  · rw [completed, hcompletes]
    rfl
  · obtain ⟨lastChange, recording, hpress⟩ := press_of_plan hg hcompletes hplan
    rw [pressAll_cons, hpress]
    rfl

/-! ## Keys that complete a command -/

theorem yields_completes
    (h : Input.Completes ed.host.text ed.session.config i keys command i')
    (hplan : ∀ ed : Editor, ∃ plan, ed.planOfCommand command = some plan) :
    (ed.withInput i).Yields keys [command] := by
  induction h with
  | last hmode hread =>
    obtain ⟨plan, hplan⟩ := hplan _
    exact yields_planned hmode hread hplan
  | more i' hmode hread _ ih => exact yields_incomplete hmode hread (ih hplan)

theorem yields_completes_operator {op : Operator} {count : Option Nat} {rest : List Char}
    (h : Input.Completes ed.host.text ed.session.config i keys (.operator op count) i')
    (hrest : (ed.withInput (i'.awaitMotion op count)).Yields rest commands) :
    (ed.withInput i).Yields (keys ++ rest) (.operator op count :: commands) := by
  generalize hcommand : Command.operator op count = command at h
  induction h with
  | last hmode hread =>
    subst hcommand
    exact yields_operator hmode hread hrest
  | more i' hmode hread _ ih => exact yields_incomplete hmode hread (ih hrest hcommand)

section

variable {outer inner : List Char} {op : Operator}

theorem yields_operatorKey (h : ed.session.input = .idle .normal) (houter : Count.Spelled outer)
    (hrest : (ed.withInput (.pending op (Count.ofDigits outer) none)).Yields keys commands) :
    ed.Yields (outer ++ op.key :: keys) (.operator op (Count.value outer) :: commands) := by
  have hcompletes : Input.Completes ed.host.text ed.session.config (.idle .normal)
      (outer ++ [op.key]) (.operator op (Count.ofDigits outer)) (.idle .normal) :=
    Input.completes_digits (Input.counting_normal none) rfl houter
      (.last nofun (Input.read_operatorKey op _))
  have hyields := yields_completes_operator hcompletes hrest
  rwa [withInput_idle h, Count.ofDigits_eq_value houter, List.append_assoc] at hyields

/-- **Counts compose.** From Normal mode with no partial input, with digits typed before an operator
and digits typed after it, either perhaps none:

* the keys of a motion yield the operator with the count before it, and the motion with the product;
* so do the keys of a text object, with a default of one;
* without an operator, the keys of a motion yield it with the count before them, or its default.

A motion's default is one, but zero for `G`, `gg` and `%`, which do something else when no count is
typed. -/
theorem yields_composedCounts (h : ed.session.input = .idle .normal) (op : Operator)
    (houter : Count.Spelled outer) (hinner : Count.Spelled inner) :
    (∀ m, MotionKeys op keys m → (keys = ['0'] → inner = []) →
      ed.Yields (outer ++ op.key :: (inner ++ keys))
        [.operator op (Count.value outer), .motion m (Count.product outer inner
          (if m = .gotoLast ∨ m = .gotoFirst ∨ m = .percent then 0 else 1))]) ∧
    (∀ o scope, ObjectKeys keys o scope →
      ed.Yields (outer ++ op.key :: (inner ++ keys))
        [.operator op (Count.value outer), .object o scope (Count.product outer inner 1)]) ∧
    ∀ m, MotionKeys op keys m → m ≠ .wholeLines → (keys = ['0'] → outer = []) →
      ed.Yields (outer ++ keys) [.motion m ((Count.value outer).getD
        (if m = .gotoLast ∨ m = .gotoFirst ∨ m = .percent then 0 else 1))] := by
  have hdefault : ∀ m : Motion,
      m.defaultCount = if m = .gotoLast ∨ m = .gotoFirst ∨ m = .percent then 0 else 1 := by
    intro m
    cases m <;> rfl
  have hpending := Input.counting_pending op (Count.ofDigits outer) none
  have hcomposed : ∀ default, (Input.pending op (Count.ofDigits outer)
      (Count.ofDigits inner)).composedCount default = Count.product outer inner default :=
    Input.composedCount_eq_product (Count.ofDigits_eq_value houter) (Count.ofDigits_eq_value hinner)
  refine ⟨?_, ?_, ?_⟩
  · intro m hm hzero
    rw [← hdefault, ← hcomposed]
    refine yields_operatorKey h houter (yields_completes (Input.completes_digits hpending rfl hinner
      (Input.completes_motionKeys hm fun hk => ?_)) fun _ => ⟨_, rfl⟩)
    rw [hzero hk]
    rfl
  · intro o scope ho
    rw [← hcomposed]
    exact yields_operatorKey h houter (yields_completes (Input.completes_digits hpending rfl hinner
      (Input.completes_objectKeys ho)) fun _ => ⟨_, rfl⟩)
  · intro m hm hwhole hzero
    -- without an operator the count before the keys is the one of the motion
    rw [← hdefault, ← Count.product_nil]
    have hnormal := Input.counting_normal (Count.ofDigits outer)
    have hcount : Input.composedCount { mode := .normal, count := Count.ofDigits outer }
        m.defaultCount = Count.product [] outer m.defaultCount :=
      Input.composedCount_eq_product rfl (Count.ofDigits_eq_value houter) _
    rw [← hcount, ← withInput_idle h]
    refine yields_completes (Input.completes_digits (Input.counting_normal none) rfl houter
      (Input.completes_motion hnormal hm (fun hk => ?_) fun hm => absurd hm hwhole))
      fun _ => ⟨_, rfl⟩
    rw [hzero hk]
    rfl

/-- `2d3w` and `2d3iw` count six, and `4294967296G` counts as the limit. -/
theorem yields_composedCounts_six :
    let ed : Editor := ⟨Session.new .normal {} none, .ofText ['a'] 0⟩
    ed.Yields ['2', 'd', '3', 'w'] [.operator .delete (some 2), .motion (.nextWord false) 6] ∧
      ed.Yields ['2', 'd', '3', 'i', 'w']
        [.operator .delete (some 2), .object (.word false) .inner 6] ∧
      ed.Yields ['4', '2', '9', '4', '9', '6', '7', '2', '9', '6', 'G']
        [.motion .gotoLast 4294967295] := by
  intro ed
  have htwo : Count.Spelled ['2'] := by decide
  have hthree : Count.Spelled ['3'] := by decide
  have hlarge : Count.Spelled ['4', '2', '9', '4', '9', '6', '7', '2', '9', '6'] := by decide
  have hword : MotionKeys .delete ['w'] (.nextWord false) := .key rfl
  have hobject : ObjectKeys ['i', 'w'] (.word false) .inner := .inner rfl
  have hlast : MotionKeys .delete ['G'] .gotoLast := .key rfl
  refine ⟨?_, ?_, ?_⟩
  · exact (yields_composedCounts rfl .delete htwo hthree).1 _ hword nofun
  · exact (yields_composedCounts rfl .delete htwo hthree).2.1 _ _ hobject
  · exact (yields_composedCounts rfl .delete hlarge Count.spelled_nil).2.2 _ hlast nofun nofun

end

end Editor

end ModalEdit
