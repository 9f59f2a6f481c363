import Mathlib.Data.List.Nodup
import ModalEdit.Proofs.Narrowing

/-!
# Labels that agree, and a single label

The labels of a jump are a setting, and any list of characters can be set. From two labels on that
are distinct, every match can be reached (`every_match_reached`). This module is about all lists.

**Selecting.** A key selects the first group whose label it agrees with (`advance_of_first`). The
groups that are shown have no match in common, so a group is selected by its own label exactly if no
label before it agrees (`Deals.selects_iff_first`), and all groups are exactly if the labels shown
are distinct.

**Progress.** Out of `n` matches a group has at most `⌈n / k⌉`. From two labels on these are fewer,
and a jump is over after `⌈log_k n⌉` labels, whichever are typed (`Narrows.length_lt`). A single
label has all the matches and is shown for them again, as often as it is typed
(`Deals.advance_singleton`).

Main result: `label_keys_narrow`.
-/

namespace ModalEdit.Jump

/-- The keys agree each with a label that is shown when it is typed, and narrow the groups down to
those left in the end. -/
inductive Narrows (labels : List Char) : List JumpGroup → List Char → List JumpGroup → Prop
  | nil (groups : List JumpGroup) : Narrows labels groups [] groups
  | cons {groups next rest : List JumpGroup} {g : JumpGroup} {key : Char} {keys : List Char}
      (shown : g ∈ groups) (agrees : labelMatches g.label key = true)
      (step : advance groups key labels = .narrowed next)
      (narrows : Narrows labels next keys rest) : Narrows labels groups (key :: keys) rest

/-- The groups are two matches or more, each of them once, dealt onto the labels. -/
structure Deals (labels : List Char) (l : List Nat) (groups : List JumpGroup) : Prop where
  labels_ne_nil : labels ≠ []
  nodup : l.Nodup
  two_le : 2 ≤ l.length
  eq_deal : groups = deal labels l

variable {labels : List Char} {t : Text} {search key label : Char} {ignoreCase : Bool}
  {l : List Nat} {groups rest before after : List JumpGroup} {g : JumpGroup} {keys : List Char}

/-! ## The groups shown -/

theorem deals_of_settle (hl : l.Nodup) (h : settle labels l = .narrowed groups) :
    Deals labels l groups := by
  obtain ⟨hlabels, hdeal⟩ := exists_deal_of_settle h
  have htwo := two_le_of_settle h
  rw [hdeal, (targets_deal_perm hlabels l).length_eq] at htwo
  exact ⟨hlabels, hl, htwo, hdeal⟩

theorem Deals.perm (h : Deals labels l groups) : (targets groups).Perm l := by
  rw [h.eq_deal]
  exact targets_deal_perm h.labels_ne_nil l

theorem Deals.disjoint (h : Deals labels l groups) :
    (∀ g ∈ groups, g.targets.Nodup) ∧
      groups.Pairwise fun g other => g.targets.Disjoint other.targets :=
  List.nodup_flatMap.1 (h.perm.nodup_iff.2 h.nodup)

theorem Deals.targets_ne_nil (h : Deals labels l groups) (hg : g ∈ groups) : g.targets ≠ [] := by
  rw [h.eq_deal] at hg
  obtain ⟨_, -, -, hne⟩ := mem_deal.1 hg
  exact hne

theorem Deals.length_le (h : Deals labels l groups) (hg : g ∈ groups) :
    g.targets.length ≤ (l.length + labels.length - 1) / labels.length := by
  rw [h.eq_deal] at hg
  exact (length_of_mem_deal hg).2

theorem exists_deals_of_shows (h : Shows t search ignoreCase labels groups) :
    ∃ l, Deals labels l groups := by
  induction h with
  | start step => exact ⟨_, deals_of_settle nodup_matchIndices step⟩
  | @advance groups _ key _ step ih =>
    obtain ⟨l, hdeals⟩ := ih
    unfold advance at step
    split at step
    · rename_i g hfind
      have hg := List.mem_of_find?_eq_some hfind
      exact ⟨g.targets, deals_of_settle (hdeals.disjoint.1 g hg) step⟩
    · cases step

/-! ## Selecting a group -/

theorem exists_first (hg : g ∈ groups) (hkey : labelMatches g.label key = true) :
    ∃ before first after, groups = before ++ first :: after ∧
      (∀ other ∈ before, labelMatches other.label key = false) ∧
      labelMatches first.label key = true := by
  obtain ⟨first, hfind⟩ := Option.isSome_iff_exists.1
    ((List.find?_isSome (p := (labelMatches ·.label key))).2 ⟨g, hg, hkey⟩)
  obtain ⟨hfirst, before, after, hgroups, hbefore⟩ := List.find?_eq_some_iff_append.1 hfind
  exact ⟨before, first, after, hgroups, fun other ho => by simpa using hbefore other ho, hfirst⟩

theorem exists_selected (hg : g ∈ groups) (hkey : labelMatches g.label key = true)
    (labels : List Char) :
    ∃ selected ∈ groups, advance groups key labels = settle labels selected.targets := by
  obtain ⟨before, first, after, rfl, hbefore, hfirst⟩ := exists_first hg hkey
  exact ⟨first, by simp, advance_of_first hbefore hfirst⟩

theorem Deals.selects_iff_first (h : Deals labels l (before ++ g :: after)) :
    (advance (before ++ g :: after) g.label labels).remaining.Perm g.targets ↔
      ∀ other ∈ before, labelMatches other.label g.label = false := by
  constructor
  · intro hselects other hother
    by_contra hagrees
    obtain ⟨front, first, back, rfl, hfront, hfirst⟩ :=
      exists_first hother (eq_true_of_ne_false hagrees)
    have hfirst_mem : first ∈ front ++ first :: back := by simp
    have hdisjoint : first.targets.Disjoint g.targets :=
      (List.pairwise_append.1 h.disjoint.2).2.2 first hfirst_mem g List.mem_cons_self
    rw [List.append_assoc, List.cons_append, advance_of_first hfront hfirst] at hselects
    -- The first group that agrees is selected, and it has no match of `g`.
    have hperm : first.targets.Perm g.targets :=
      (remaining_settle h.labels_ne_nil first.targets).symm.trans hselects
    obtain ⟨target, htarget⟩ := List.exists_mem_of_ne_nil _ (h.targets_ne_nil (by simp : first ∈ _))
    exact hdisjoint htarget (hperm.mem_iff.1 htarget)
  · intro hfirst
    rw [advance_of_first hfirst (labelMatches_self _)]
    exact remaining_settle h.labels_ne_nil _

/-- **Every group is selected by its own label exactly if no two labels shown agree.** -/
theorem Deals.selects_iff (h : Deals labels l groups) :
    (∀ g ∈ groups, (advance groups g.label labels).remaining.Perm g.targets) ↔
      Distinct (groups.map (·.label)) := by
  rw [Distinct, List.pairwise_map]
  constructor
  · intro hselects
    refine List.pairwise_iff_forall_sublist.2 fun {other g} hsublist => ?_
    obtain ⟨before, after, rfl, hother, hg⟩ := List.cons_sublist_iff.1 hsublist
    obtain ⟨between, behind, rfl⟩ := List.append_of_mem (List.singleton_sublist.1 hg)
    rw [← List.append_assoc] at h hselects
    have hself := hselects g (List.mem_append_right _ List.mem_cons_self)
    exact h.selects_iff_first.1 hself other (List.mem_append_left _ hother)
  · intro hdistinct g hg
    rw [advance_of_mem hdistinct hg (labelMatches_self _)]
    exact remaining_settle h.labels_ne_nil _

/-! ## Progress -/

/-- **From two labels on, each key that agrees leaves fewer matches.** -/
theorem Deals.remaining_lt (h : Deals labels l groups) (hlabels : 2 ≤ labels.length)
    (hg : g ∈ groups) (hkey : labelMatches g.label key = true) :
    (advance groups key labels).remaining.length < (targets groups).length := by
  obtain ⟨selected, hselected, hadvance⟩ := exists_selected hg hkey labels
  rw [hadvance, (remaining_settle h.labels_ne_nil _).length_eq, h.perm.length_eq]
  exact (h.length_le hselected).trans_lt (ceil_div_lt hlabels h.two_le)

theorem everyNth_one (l : List Nat) : everyNth 1 0 l.toArray = l := by
  simp only [everyNth_eq, Nat.div_one, Nat.zero_add, Nat.mul_one, List.map_id', List.range_succ,
    List.filterMap_append, filterMap_range_getElem?]
  simp

/-- **A single label shows the same matches again.** -/
theorem Deals.advance_singleton (h : Deals [label] l groups) (hg : g ∈ groups)
    (hkey : labelMatches g.label key = true) : advance groups key [label] = .narrowed groups := by
  obtain ⟨selected, hselected, hadvance⟩ := exists_selected hg hkey [label]
  rw [h.eq_deal] at hselected
  obtain ⟨i, hi, htargets, -⟩ := mem_deal.1 hselected
  obtain rfl : i = 0 := by
    obtain ⟨hlt, -⟩ := List.getElem?_eq_some_iff.1 hi
    simpa using hlt
  rw [List.length_singleton, everyNth_one] at htargets
  rw [hadvance, htargets, settle_of_two_le h.labels_ne_nil h.two_le, h.eq_deal]

/-- **From two labels on, the labels to type are no more than the logarithm of the number of
matches**, one of them left for the key that resolves. -/
theorem Narrows.length_lt (h : Narrows labels groups keys rest) (hdeals : Deals labels l groups)
    (hlabels : 2 ≤ labels.length) : keys.length < Nat.clog labels.length l.length := by
  induction h generalizing l with
  | nil => exact Nat.clog_pos hlabels hdeals.two_le
  | @cons groups next rest g key keys hg hkey hstep _ ih =>
    obtain ⟨selected, hselected, hadvance⟩ := exists_selected hg hkey labels
    have hnext : Deals labels selected.targets next :=
      deals_of_settle (hdeals.disjoint.1 selected hselected) (hadvance.symm.trans hstep)
    have hclog : Nat.clog labels.length l.length =
        Nat.clog labels.length ((l.length + labels.length - 1) / labels.length) + 1 :=
      Nat.clog_of_two_le hlabels hdeals.two_le
    calc keys.length + 1 < Nat.clog labels.length selected.targets.length + 1 :=
          Nat.add_lt_add_right (ih hnext) 1
      _ ≤ Nat.clog labels.length l.length :=
          hclog ▸ Nat.add_le_add_right (Nat.clog_mono_right _ (hdeals.length_le hselected)) 1

/-! ## The whole jump -/

/-- **What label keys do, whatever the labels are.** At any point of a jump, a key keeps the matches
of the first group whose label it agrees with, so that all groups are selected by their own labels
exactly if the labels that are shown are distinct. A key that agrees with a label never aborts, and
it leaves fewer matches exactly if there are two labels or more; a single label shows what it has
shown before. From two labels on, fewer than `⌈log_k m⌉` keys in a row narrow `m` matches down
without resolving. -/
theorem label_keys_narrow (hshows : Shows t search ignoreCase labels groups) :
    (∀ before g after key, groups = before ++ g :: after →
        (∀ other ∈ before, labelMatches other.label key = false) →
        labelMatches g.label key = true →
        (advance groups key labels).remaining.Perm g.targets) ∧
      ((∀ g ∈ groups, (advance groups g.label labels).remaining.Perm g.targets) ↔
        Distinct (groups.map (·.label))) ∧
      (∀ g ∈ groups, ∀ key, labelMatches g.label key = true →
        advance groups key labels ≠ .aborted ∧
          ((advance groups key labels).remaining.length < (targets groups).length ↔
            2 ≤ labels.length)) ∧
      (labels.length = 1 → ∀ g ∈ groups, ∀ key, labelMatches g.label key = true →
        advance groups key labels = .narrowed groups) ∧
      (2 ≤ labels.length → ∀ keys rest, Narrows labels groups keys rest →
        keys.length < Nat.clog labels.length (targets groups).length) := by
  obtain ⟨l, hdeals⟩ := exists_deals_of_shows hshows
  have hsingle : labels.length = 1 → ∀ g ∈ groups, ∀ key, labelMatches g.label key = true →
      advance groups key labels = .narrowed groups := by
    intro hone g hg key hkey
    obtain ⟨label, rfl⟩ := List.length_eq_one_iff.1 hone
    exact hdeals.advance_singleton hg hkey
  refine ⟨fun before g after key hgroups hbefore hkey => ?keeps, hdeals.selects_iff,
    fun g hg key hkey => ⟨?goes_on, ?fewer⟩, hsingle, fun hlabels keys rest hnarrows => ?bounded⟩
  case keeps =>
    rw [hgroups, advance_of_first hbefore hkey]
    exact remaining_settle hdeals.labels_ne_nil _
  case goes_on =>
    -- a jump is aborted only with no matches left, and every group that is shown has one
    intro haborted
    obtain ⟨selected, hselected, hadvance⟩ := exists_selected hg hkey labels
    have hperm := remaining_settle hdeals.labels_ne_nil selected.targets
    rw [← hadvance, haborted] at hperm
    exact hdeals.targets_ne_nil hselected hperm.nil_eq.symm
  case fewer =>
    refine ⟨fun hlt => ?_, fun hlabels => hdeals.remaining_lt hlabels hg hkey⟩
    by_contra hfew
    have hpos : 0 < labels.length := List.length_pos_iff.2 hdeals.labels_ne_nil
    rw [hsingle (by omega) g hg key hkey] at hlt
    exact Nat.lt_irrefl _ hlt
  case bounded =>
    rw [hdeals.perm.length_eq]
    exact hnarrows.length_lt hdeals hlabels

/-- Three matches under the labels `A` and `B`: two are left after the key `a`, and no second label
narrows them. -/
theorem label_keys_narrow_three :
    Shows ['x', 'x', 'x'] 'x' false ['A', 'B'] [⟨'A', [0, 2]⟩, ⟨'B', [1]⟩] ∧
      (advance [⟨'A', [0, 2]⟩, ⟨'B', [1]⟩] 'a' ['A', 'B']).remaining.length < 3 ∧
      ∀ keys rest, Narrows ['A', 'B'] [⟨'A', [0, 2]⟩, ⟨'B', [1]⟩] keys rest →
        keys.length < Nat.clog 2 3 := by
  have hshows : Shows ['x', 'x', 'x'] 'x' false ['A', 'B'] [⟨'A', [0, 2]⟩, ⟨'B', [1]⟩] :=
    .start (by decide)
  obtain ⟨-, -, hfewer, -, hbounded⟩ := label_keys_narrow hshows
  exact ⟨hshows, (hfewer ⟨'A', [0, 2]⟩ (by decide) 'a' (by decide)).2.2 (by decide),
    hbounded (by decide)⟩

/-- Where both `A` and `a` are labels, the key `a` selects the group of `A`. Where `A` is the only
label, it shows two matches again and again. -/
theorem label_keys_stuck :
    (¬ ∀ labels t search ignoreCase groups, Shows t search ignoreCase labels groups →
        ∀ g ∈ groups, (advance groups g.label labels).remaining.Perm g.targets) ∧
      ¬ ∀ labels t search ignoreCase groups, Shows t search ignoreCase labels groups →
        ∀ g ∈ groups, (∃ target, advance groups g.label labels = .resolved target) ∨
          (advance groups g.label labels).remaining.length < (targets groups).length := by
  constructor
  · intro h
    have hkeeps := h ['A', 'a'] ['x', 'x'] 'x' false [⟨'A', [0]⟩, ⟨'a', [1]⟩] (.start (by decide))
      ⟨'a', [1]⟩ (by decide)
    exact absurd hkeeps (by decide)
  · intro h
    rcases h ['A'] ['x', 'x'] 'x' false [⟨'A', [0, 1]⟩] (.start (by decide)) ⟨'A', [0, 1]⟩
      (by decide) with ⟨target, hresolved⟩ | hlt
    · cases hresolved
    · exact absurd hlt (by decide)

end ModalEdit.Jump
