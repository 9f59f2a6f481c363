import ModalEdit.Input.Read
import ModalEdit.Proofs.Jump

/-!
# What a key is read as

Partial input is *sound* when it is of one of three kinds: none at all in Insert mode; *open*, with
an operator exactly while one waits and no labels; or labels shown, which cover open input of the
mode the jump goes back to. Reading a key of sound input leaves sound input of the same standing
mode, or completes a command over open input (`read_sound`). That labels are never shown for fewer
than two matches is `Jump.two_le_of_settle`.
-/

namespace ModalEdit

/-- The command begins with a key of Normal mode only. -/
def Command.isNormalOnly : Command → Bool
  | enter _ | operator _ _ => true
  | instant (.selection _) _ | instant (.setMark _) _ => false
  | instant _ _ => true
  | _ => false

namespace Input

variable {i : Input}

/-- The mode that a jump goes back to, and otherwise the mode. -/
def standing (i : Input) : Mode :=
  match i.lookahead with
  | some (.jumpLabel resume) => resume
  | _ => i.mode

/-- The next key is a label. -/
def AwaitsLabel (i : Input) : Prop := ∃ resume, i.lookahead = some (.jumpLabel resume)

/-- Partial input of Normal, Visual or OperatorPending mode with no labels shown. -/
structure Open (i : Input) : Prop where
  mode_ne_insert : i.mode ≠ .insert
  mode_ne_jump : i.mode ≠ .jump
  no_label : ¬i.AwaitsLabel
  no_groups : i.jumpGroups = []
  operator_iff : i.operator.isSome = true ↔ i.mode = .operatorPending

/-- The partial input that the labels of a jump cover. -/
def underLabels (i : Input) (resume : Mode) : Input :=
  { i with mode := resume, lookahead := none, jumpGroups := [] }

/-- Partial input as it comes about. -/
inductive Sound : Input → Prop
  | insert : Sound (.idle .insert)
  | opened {i : Input} : i.Open → Sound i
  | labels {i : Input} {resume : Mode} : i.mode = .jump → i.lookahead = some (.jumpLabel resume) →
      2 ≤ (Jump.targets i.jumpGroups).length → (i.underLabels resume).Open → Sound i

/-! ## Open input -/

theorem not_awaitsLabel (h : i.lookahead = none) : ¬i.AwaitsLabel := by
  intro hlabel
  obtain ⟨resume, hl⟩ := hlabel
  rw [h] at hl
  cases hl

theorem standing_of_lookahead (h : ¬i.AwaitsLabel) : i.standing = i.mode := by
  cases hl : i.lookahead with
  | none => simp [standing, hl]
  | some lookahead =>
    cases lookahead with
    | jumpLabel resume => exact absurd ⟨resume, hl⟩ h
    | _ => simp [standing, hl]

theorem Open.standing (h : i.Open) : i.standing = i.mode :=
  standing_of_lookahead h.no_label

/-- Counts, registers and lookaheads other than a label leave input open. -/
theorem Open.congr {i' : Input} (h : i.Open) (hmode : i'.mode = i.mode)
    (hlabel : ¬i'.AwaitsLabel) (hgroups : i'.jumpGroups = i.jumpGroups)
    (hoperator : i'.operator = i.operator) : i'.Open where
  mode_ne_insert := hmode ▸ h.mode_ne_insert
  mode_ne_jump := hmode ▸ h.mode_ne_jump
  no_label := hlabel
  no_groups := hgroups.trans h.no_groups
  operator_iff := by rw [hoperator, hmode]; exact h.operator_iff

theorem Open.taken (h : i.Open) : { i with lookahead := none }.Open :=
  h.congr rfl (not_awaitsLabel rfl) rfl rfl

theorem Open.counted (h : i.Open) (count : Option Nat) : { i with count }.Open :=
  h.congr rfl h.no_label rfl rfl

theorem open_idle_normal : (idle .normal).Open where
  mode_ne_insert := nofun
  mode_ne_jump := nofun
  no_label := not_awaitsLabel rfl
  no_groups := rfl
  operator_iff := by simp [idle]

theorem Sound.open_of (h : i.Sound) (hinsert : i.mode ≠ .insert) (hjump : i.mode ≠ .jump) :
    i.Open := by
  cases h with
  | insert => exact absurd rfl hinsert
  | opened h => exact h
  | labels hmode => exact absurd hmode hjump

theorem Sound.eq_idle (h : i.Sound) (hmode : i.mode = .insert) : i = .idle .insert := by
  cases h with
  | insert => rfl
  | opened h => exact absurd hmode h.mode_ne_insert
  | labels hjump => rw [hmode] at hjump; cases hjump

theorem sound_idle (rest : Mode) (h : rest = .normal ∨ rest = .insert) : (idle rest).Sound := by
  rcases h with rfl | rfl
  · exact .opened open_idle_normal
  · exact .insert

/-! ## Readings -/

/-- `P` of the input while more keys are needed, and `C` of the command and the input when it is
complete. -/
def Reads (P : Input → Prop) (C : Command → Input → Prop) : Reading × Input → Prop
  | (.incomplete, i) => P i
  | (.command c, i) => C c i
  | (.rejected, _) => True

/-! ### In Normal mode -/

/-- A command of Normal mode only is completed in Normal mode. -/
def ReadsInNormal : Reading × Input → Prop :=
  Reads (fun _ => True) fun command i => command.isNormalOnly = true → i.mode = .normal

theorem readsInNormal_jump (i : Input) (step : JumpStep) (resume : Mode) :
    ReadsInNormal (i.readJump step resume) := by
  cases step with
  | resolved target => simp [ReadsInNormal, Reads, readJump, readMotion, Command.isNormalOnly]
  | narrowed | aborted => trivial

theorem readsInNormal_argument (i : Input) (t : Text) (config : Config) (c : Char)
    (lookahead : Lookahead) : ReadsInNormal (i.readArgument t config c lookahead) := by
  cases lookahead with
  | g =>
    simp only [readArgument]
    by_cases hI : c = 'I' ∧ i.mode = .normal
    · rw [if_neg (by rw [hI.1]; decide), if_pos hI]
      exact fun _ => hI.2
    · rw [if_neg hI]
      split <;> simp [ReadsInNormal, Reads, readMotion, Command.isNormalOnly]
  | jumpSearch | jumpLabel => exact readsInNormal_jump i _ _
  | find | gotoMark =>
    simp [ReadsInNormal, Reads, readArgument, readMotion, Command.isNormalOnly]
  | replace | setMark | register | object =>
    simp only [readArgument]
    split <;> simp [ReadsInNormal, Reads, readInstant, Command.isNormalOnly]

theorem readsInNormal_inMode (i : Input) (c : Char) : ReadsInNormal (i.readInMode c) := by
  simp only [readInMode]
  split
  · rename_i hmode
    split
    · exact fun _ => hmode
    · exact fun _ => hmode
    · exact fun _ => hmode
    · trivial
  · split
    · trivial
    · split <;> trivial
  · split
    · trivial
    · split <;> trivial
  · trivial
  · trivial

theorem readsInNormal_key (i : Input) (c : Char) : ReadsInNormal (i.readKey c) := by
  simp only [readKey]
  split
  · simp [ReadsInNormal, Reads, readMotion, Command.isNormalOnly]
  split
  · simp [ReadsInNormal, Reads, readInstant, Command.isNormalOnly]
  split
  · trivial
  split
  · simp [ReadsInNormal, Reads, readMotion, Command.isNormalOnly]
  split
  · trivial
  · exact readsInNormal_inMode i c

/-- **Commands of Normal mode only are completed in Normal mode.** -/
theorem read_inNormal (i : Input) (t : Text) (config : Config) (c : Char) :
    ReadsInNormal (i.read t config c) := by
  simp only [read]
  split
  · exact readsInNormal_argument _ t config c _
  · exact readsInNormal_key i c

/-! ### Over open input -/

/-- The reading leaves sound input of a standing mode, or completes a command over open input of
that mode. -/
def ReadsSoundly (mode : Mode) : Reading × Input → Prop :=
  Reads (fun i => i.Sound ∧ i.standing = mode) fun _ i => i.Open ∧ i.mode = mode

theorem readsSoundly_motion (h : i.Open) (m : Motion) :
    ReadsSoundly i.mode (i.readMotion m) :=
  ⟨h.counted none, rfl⟩

theorem readsSoundly_instant (h : i.Open) (c : Instant) :
    ReadsSoundly i.mode (i.readInstant c) :=
  ⟨h.counted none, rfl⟩

theorem readsSoundly_await (h : i.Open) {lookahead : Lookahead}
    (hl : ∀ resume, lookahead ≠ .jumpLabel resume) : ReadsSoundly i.mode (i.await lookahead) := by
  have hlabel : ¬{ i with lookahead := some lookahead }.AwaitsLabel := by
    intro hlabel
    obtain ⟨resume, hr⟩ := hlabel
    exact hl resume (Option.some.inj hr)
  exact ⟨.opened (h.congr rfl hlabel rfl rfl), standing_of_lookahead hlabel⟩

/-- A step of a jump shows labels over the input it began with, or goes back to it. -/
theorem readsSoundly_jump {resume : Mode} (h : (i.underLabels resume).Open)
    (hl : i.lookahead = none) (labels : List Char) (targets : List Nat) :
    ReadsSoundly resume (i.readJump (Jump.settle labels targets) resume) := by
  unfold readJump
  cases hs : Jump.settle labels targets with
  | aborted => exact trivial
  | resolved target =>
    exact ⟨h.congr rfl (not_awaitsLabel hl) rfl rfl, rfl⟩
  | narrowed groups => exact ⟨.labels rfl rfl (Jump.two_le_of_settle hs) h, rfl⟩

theorem advance_eq (groups : List JumpGroup) (key : Char) (labels : List Char) :
    Jump.advance groups key labels =
      Jump.settle labels ((groups.find? (Jump.labelMatches ·.label key)).elim [] (·.targets)) := by
  unfold Jump.advance
  cases groups.find? (Jump.labelMatches ·.label key) <;> rfl

theorem Open.underLabels (h : i.Open) : (i.underLabels i.mode).Open :=
  h.congr rfl (not_awaitsLabel rfl) h.no_groups.symm rfl

/-- An argument is read over open input. The argument of a label jump is read for itself. -/
theorem readsSoundly_argument (h : i.Open) (hl : i.lookahead = none) (t : Text) (config : Config)
    (c : Char) {lookahead : Lookahead} (hne : ∀ resume, lookahead ≠ .jumpLabel resume) :
    ReadsSoundly i.mode (i.readArgument t config c lookahead) := by
  cases lookahead with
  | find kind => exact readsSoundly_motion h _
  | gotoMark linewise => exact readsSoundly_motion h _
  | g =>
    simp only [readArgument]
    split
    · exact readsSoundly_motion h _
    · split
      · exact ⟨h, rfl⟩
      · trivial
  | replace =>
    simp only [readArgument]
    split
    · exact ⟨h.counted none, rfl⟩
    · trivial
  | setMark =>
    simp only [readArgument]
    split
    · exact readsSoundly_instant h _
    · trivial
  | register =>
    simp only [readArgument]
    split
    · exact ⟨.opened (h.congr rfl h.no_label rfl rfl), h.standing⟩
    · trivial
  | object scope =>
    simp only [readArgument]
    split
    · exact ⟨h.counted none, rfl⟩
    · trivial
  | jumpSearch => exact readsSoundly_jump h.underLabels hl _ _
  | jumpLabel resume => exact absurd rfl (hne resume)

theorem readsSoundly_inMode (h : i.Open) (c : Char) : ReadsSoundly i.mode (i.readInMode c) := by
  have hobject : ReadsSoundly i.mode
      (if c = 'i' then i.await (.object .inner)
        else if c = 'a' then i.await (.object .around) else (.rejected, i)) := by
    split
    · exact readsSoundly_await h (by simp)
    · split
      · exact readsSoundly_await h (by simp)
      · trivial
  simp only [readInMode]
  split
  · split
    · exact ⟨h, rfl⟩
    · exact ⟨h.counted none, rfl⟩
    · exact readsSoundly_instant h _
    · trivial
  · exact hobject
  · exact hobject
  · trivial
  · trivial

theorem lookahead_ofKey_ne_jumpLabel {c : Char} {lookahead : Lookahead}
    (h : Lookahead.ofKey c = some lookahead) (resume : Mode) : lookahead ≠ .jumpLabel resume := by
  intro heq
  rw [heq] at h
  unfold Lookahead.ofKey at h
  split at h <;> simp at h

theorem readsSoundly_key (h : i.Open) (c : Char) : ReadsSoundly i.mode (i.readKey c) := by
  simp only [readKey]
  split
  · exact readsSoundly_motion h _
  split
  · exact readsSoundly_instant h _
  split
  · exact ⟨.opened (h.counted _), h.standing⟩
  split
  · exact readsSoundly_motion h _
  cases hl : Lookahead.ofKey c with
  | some lookahead => exact readsSoundly_await h (lookahead_ofKey_ne_jumpLabel hl)
  | none => exact readsSoundly_inMode h c

/-- **Reading keeps input sound.** -/
theorem read_sound (h : i.Sound) (hmode : i.mode ≠ .insert) (t : Text) (config : Config)
    (c : Char) : ReadsSoundly i.standing (i.read t config c) := by
  simp only [read]
  cases h with
  | insert => exact absurd rfl hmode
  | opened h =>
    rw [h.standing]
    cases hl : i.lookahead with
    | some lookahead =>
      refine readsSoundly_argument h.taken rfl t config c fun resume heq => ?_
      exact h.no_label ⟨resume, heq ▸ hl⟩
    | none => exact readsSoundly_key h c
  | @labels _ resume hjump hl htwo hunder =>
    have hstanding : i.standing = resume := by simp [standing, hl]
    rw [hstanding, hl]
    simp only [readArgument, advance_eq]
    exact readsSoundly_jump (i := { i with lookahead := none }) hunder rfl _ _

end Input

end ModalEdit
