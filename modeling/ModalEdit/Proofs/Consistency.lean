import ModalEdit.Proofs.Soundness

/-!
# Consistent sessions

The state of a session is spread over the partial input, the labels of a jump and what is remembered
of the last change. `Session.Consistent` says clause by clause how these parts agree, and
`consistent_happenAll` that they do after every history: with refusals at any request, texts and
selections that change at any time, and reports of anything. Each clause is read off the soundness
of the session, in one of its three kinds: typing, open input, or labels over open input.
-/

namespace ModalEdit

namespace Input

variable {i : Input}

/-- The labels shown are those of a jump that goes back to this mode. -/
def JumpsTo (i : Input) (resume : Mode) : Prop :=
  i.mode = .jump ∧ i.lookahead = some (.jumpLabel resume)

theorem Open.not_jumpsTo (h : i.Open) (resume : Mode) : ¬i.JumpsTo resume :=
  fun hj => h.mode_ne_jump hj.1

theorem not_jumpsTo_insert (resume : Mode) : ¬(idle .insert).JumpsTo resume := by
  intro h
  cases h.1

/-- The standing mode is the mode, or the one that a jump goes back to. -/
theorem Sound.standing_eq_iff (h : i.Sound) {mode : Mode} (hmode : mode ≠ .jump) :
    i.standing = mode ↔ i.mode = mode ∨ i.JumpsTo mode := by
  cases h with
  | insert => exact ⟨Or.inl, fun h => h.resolve_right (not_jumpsTo_insert mode)⟩
  | opened h =>
    rw [h.standing]
    exact ⟨Or.inl, fun hm => hm.resolve_right (h.not_jumpsTo mode)⟩
  | @labels _ resume hjump hl =>
    have hstanding : i.standing = resume := by simp [standing, hl]
    rw [hstanding]
    constructor
    · intro hm
      exact Or.inr ⟨hjump, hm ▸ hl⟩
    · intro hm
      rcases hm with hm | ⟨-, hr⟩
      · exact absurd (hm.symm.trans hjump) hmode
      · rw [hl] at hr
        cases hr
        rfl

theorem Sound.operator_iff (h : i.Sound) :
    i.operator.isSome = true ↔ i.standing = .operatorPending := by
  cases h with
  | insert => simp [idle, standing]
  | opened h => rw [h.standing]; exact h.operator_iff
  | @labels _ resume _ hl _ hunder =>
    have hstanding : i.standing = resume := by simp [standing, hl]
    rw [hstanding]
    exact hunder.operator_iff

theorem Sound.jump_iff_label (h : i.Sound) : i.mode = .jump ↔ i.AwaitsLabel := by
  cases h with
  | insert => exact ⟨nofun, fun hl => absurd hl (not_awaitsLabel rfl)⟩
  | opened h => exact ⟨fun hm => absurd hm h.mode_ne_jump, fun hl => absurd hl h.no_label⟩
  | labels hjump hl => exact ⟨fun _ => ⟨_, hl⟩, fun _ => hjump⟩

theorem ne_nil_of_two_le {groups : List JumpGroup} (h : 2 ≤ (Jump.targets groups).length) :
    groups ≠ [] := by
  intro hnil
  rw [hnil] at h
  cases h

theorem Sound.jump_iff_groups (h : i.Sound) : i.mode = .jump ↔ i.jumpGroups ≠ [] := by
  cases h with
  | insert => exact ⟨nofun, fun hg => absurd rfl hg⟩
  | opened h => exact ⟨fun hm => absurd hm h.mode_ne_jump, fun hg => absurd h.no_groups hg⟩
  | labels hjump _ htwo => exact ⟨fun _ => ne_nil_of_two_le htwo, fun _ => hjump⟩

theorem Sound.two_le_targets (h : i.Sound) (hg : i.jumpGroups ≠ []) :
    2 ≤ (Jump.targets i.jumpGroups).length := by
  cases h with
  | insert => exact absurd rfl hg
  | opened h => exact absurd h.no_groups hg
  | labels _ _ htwo => exact htwo

end Input

/-- The parts of a session agree. -/
structure Session.Consistent (s : Session) : Prop where
  /-- An operator waits exactly when the mode says so, or labels cover that mode. -/
  operator_iff : s.input.operator.isSome = true ↔
    s.mode = .operatorPending ∨ s.input.JumpsTo .operatorPending
  /-- The next key is a label exactly in Jump mode. -/
  jump_iff_label : s.mode = .jump ↔ ∃ resume, s.input.lookahead = some (.jumpLabel resume)
  /-- Labels are shown exactly in Jump mode. -/
  jump_iff_groups : s.mode = .jump ↔ s.input.jumpGroups ≠ []
  /-- Labels are never shown for fewer than two matches. -/
  two_le_targets : s.input.jumpGroups ≠ [] → 2 ≤ (Jump.targets s.input.jumpGroups).length
  /-- A visual selection has its ends exactly in Visual mode, or when labels cover that mode. -/
  visual_iff : s.visual.isSome = true ↔
    ∃ kind, s.mode = .visual kind ∨ s.input.JumpsTo (.visual kind)
  /-- What is typed is recorded in Insert mode only, and extends a change. -/
  recording : s.recording = true → s.mode = .insert ∧ s.lastChange.isSome = true
  /-- Nothing is being repeated. -/
  not_replaying : s.replaying = false
  /-- There is no partial input in Insert mode. -/
  insert : s.mode = .insert → s.input.count = none ∧ s.input.operator = none ∧
    s.input.register = none ∧ s.input.lookahead = none

theorem Mode.isVisual_iff {mode : Mode} : mode.isVisual = true ↔ ∃ kind, mode = .visual kind := by
  cases mode <;> simp [Mode.isVisual]

namespace Session

variable {s : Session}

theorem Sound.consistent (h : s.Sound) (hr : s.replaying = false) : s.Consistent where
  operator_iff := h.input.operator_iff.trans (h.input.standing_eq_iff nofun)
  jump_iff_label := h.input.jump_iff_label
  jump_iff_groups := h.input.jump_iff_groups
  two_le_targets := h.input.two_le_targets
  visual_iff := by
    rw [h.visual_iff, Mode.isVisual_iff]
    exact exists_congr fun kind => h.input.standing_eq_iff nofun
  recording := h.recording
  not_replaying := hr
  insert hmode := by
    rw [h.input.eq_idle hmode]
    exact ⟨rfl, rfl, rfl, rfl⟩

end Session

namespace Editor

/-- **The parts of a session agree after every history.** -/
theorem consistent_happenAll (rest : Rest) (config : Config) (clipboard : Option (Option Text))
    (host : Host) (history : List Happening) :
    ((⟨Session.new rest.mode config clipboard, host⟩ : Editor).happenAll
      history).session.Consistent := by
  obtain ⟨hs, hr⟩ := resting_happenAll rest config clipboard host history
  exact hs.consistent hr

end Editor

end ModalEdit
