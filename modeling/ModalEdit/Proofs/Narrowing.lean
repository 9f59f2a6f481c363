import Mathlib.Data.Nat.Log
import ModalEdit.Proofs.Jump

/-!
# Narrowing a jump down to one match

Out of `n` matches, the label at place `i` is dealt those at the places `i`, `i + k`, `i + 2k`, …,
which are `(n + (k - 1 - i)) / k` (`length_everyNth`). Between the first label and the last this
falls from `⌈n / k⌉` to `⌊n / k⌋`, so that the sizes of two groups differ by at most one.

**Selecting.** No two labels agree up to the case of ASCII letters (`Distinct`). A key that agrees
with a label that is shown selects its group, then, and no other: what is left are the matches of
that group (`advance_of_mem`, `remaining_settle`).

**Reaching.** A match is in one of the groups. Typing its label leaves `⌈n / k⌉` matches at most,
and `⌈log_k n⌉ = ⌈log_k ⌈n / k⌉⌉ + 1`, so that each label pays for one of the logarithm
(`exists_resolves`). A single match is never shown under a label: starting the jump resolves it.

Main result: `every_match_reached`.
-/

namespace ModalEdit

/-- The matches that are left after a step. -/
def JumpStep.remaining : JumpStep → List Nat
  | resolved target => [target]
  | narrowed groups => Jump.targets groups
  | aborted => []

namespace Jump

/-- No two labels agree up to the case of ASCII letters. -/
def Distinct (labels : List Char) : Prop :=
  labels.Pairwise fun label other => labelMatches label other = false

instance (labels : List Char) : Decidable (Distinct labels) :=
  inferInstanceAs (Decidable (labels.Pairwise _))

/-- The keys are labels, each of a group that is shown when it is typed. All but the last narrow
the groups down, and the last resolves to the target. -/
inductive Resolves (labels : List Char) (target : Nat) : List JumpGroup → List Char → Prop
  | last {groups : List JumpGroup} {g : JumpGroup} (shown : g ∈ groups)
      (step : advance groups g.label labels = .resolved target) :
      Resolves labels target groups [g.label]
  | more {groups rest : List JumpGroup} {g : JumpGroup} {keys : List Char} (shown : g ∈ groups)
      (step : advance groups g.label labels = .narrowed rest)
      (resolves : Resolves labels target rest keys) :
      Resolves labels target groups (g.label :: keys)

/-- The groups are shown at some point of a jump. -/
inductive Shows (t : Text) (search : Char) (ignoreCase : Bool) (labels : List Char) :
    List JumpGroup → Prop
  | start {groups : List JumpGroup}
      (step : start t search labels ignoreCase = .narrowed groups) :
      Shows t search ignoreCase labels groups
  | advance {groups rest : List JumpGroup} {key : Char}
      (shows : Shows t search ignoreCase labels groups)
      (step : advance groups key labels = .narrowed rest) : Shows t search ignoreCase labels rest

variable {labels : List Char} {t : Text} {search key : Char} {ignoreCase : Bool} {l : List Nat}
  {groups : List JumpGroup} {g other : JumpGroup} {n k i target : Nat}

/-! ## The sizes of the groups -/

theorem countP_lt_range {m : Nat} (h : m ≤ n) : (List.range n).countP (· < m) = m := by
  obtain ⟨rest, rfl⟩ := Nat.exists_eq_add_of_le h
  have hbelow : (List.range m).countP (· < m) = m := by
    rw [List.countP_eq_length.2 fun round hr => decide_eq_true (List.mem_range.1 hr),
      List.length_range]
  have hpast : ((List.range rest).map (m + ·)).countP (· < m) = 0 :=
    List.countP_eq_zero.2 fun round hr => by
      obtain ⟨_, -, rfl⟩ := List.mem_map.1 hr
      simp
  rw [List.range_add, List.countP_append, hbelow, hpast, Nat.add_zero]

theorem length_everyNth (hi : i < k) (l : List Nat) :
    (everyNth k i l.toArray).length = (l.length + (k - 1 - i)) / k := by
  have hk : 0 < k := Nat.zero_lt_of_lt hi
  have hrounds : (l.length + (k - 1 - i)) / k ≤ l.length / k + 1 := by
    rw [← Nat.add_div_right _ hk]
    exact Nat.div_le_div_right (by omega)
  rw [everyNth_eq, List.length_filterMap_eq_countP, List.countP_map]
  refine (List.countP_congr fun round _ => ?_).trans (countP_lt_range hrounds)
  have hfits : i + round * k < l.length ↔ round < (l.length + (k - 1 - i)) / k := by
    rw [← Nat.succ_le_iff (m := round), Nat.le_div_iff_mul_le hk, Nat.succ_mul]
    omega
  rw [Function.comp_apply, isSome_getElem?, decide_eq_true_iff]
  exact hfits

theorem mem_deal : g ∈ deal labels l ↔
    ∃ i, labels[i]? = some g.label ∧ g.targets = everyNth labels.length i l.toArray ∧
      g.targets ≠ [] := by
  simp only [deal, List.mem_filter, List.mem_map, Prod.exists, List.mem_zipIdx_iff_getElem?,
    Bool.not_eq_true', List.isEmpty_eq_false_iff]
  constructor
  · rintro ⟨⟨label, i, hi, rfl⟩, hne⟩
    exact ⟨i, hi, rfl, hne⟩
  · rintro ⟨i, hi, htargets, hne⟩
    exact ⟨⟨g.label, i, hi, by rw [← htargets]⟩, hne⟩

theorem length_of_mem_deal (h : g ∈ deal labels l) :
    l.length / labels.length ≤ g.targets.length ∧
      g.targets.length ≤ (l.length + labels.length - 1) / labels.length := by
  obtain ⟨i, hi, htargets, -⟩ := mem_deal.1 h
  obtain ⟨hlt, -⟩ := List.getElem?_eq_some_iff.1 hi
  rw [htargets, length_everyNth hlt]
  exact ⟨Nat.div_le_div_right (by omega), Nat.div_le_div_right (by omega)⟩

/-- **The sizes of two groups differ by at most one.** -/
theorem length_le_of_mem_deal (h : g ∈ deal labels l) (hother : other ∈ deal labels l) :
    g.targets.length ≤ other.targets.length + 1 := by
  obtain ⟨i, hi, -⟩ := mem_deal.1 h
  have hk : 0 < labels.length := List.length_pos_of_mem (List.mem_of_getElem? hi)
  have hceil : (l.length + labels.length - 1) / labels.length ≤ l.length / labels.length + 1 := by
    rw [← Nat.add_div_right _ hk]
    exact Nat.div_le_div_right (by omega)
  have hle := (length_of_mem_deal h).2
  have hge := (length_of_mem_deal hother).1
  omega

/-! ## Selecting a group -/

theorem pairwise_deal (hdistinct : Distinct labels) (l : List Nat) :
    (deal labels l).Pairwise fun g other => labelMatches g.label other.label = false := by
  have hlabels : (labels.zipIdx.map Prod.fst).Pairwise fun a b => labelMatches a b = false := by
    rw [List.zipIdx_map_fst]
    exact hdistinct
  exact List.Pairwise.filter _ (List.pairwise_map.2 (List.pairwise_map.1 hlabels))

theorem advance_of_first {before after : List JumpGroup}
    (hbefore : ∀ other ∈ before, labelMatches other.label key = false)
    (hkey : labelMatches g.label key = true) :
    advance (before ++ g :: after) key labels = settle labels g.targets := by
  have hfind : (before ++ g :: after).find? (labelMatches ·.label key) = some g :=
    List.find?_eq_some_iff_append.2
      ⟨hkey, before, after, rfl, fun other ho => by rw [hbefore other ho]; rfl⟩
  rw [advance, hfind]

theorem advance_of_mem
    (hgroups : groups.Pairwise fun g other => labelMatches g.label other.label = false)
    (h : g ∈ groups) (hkey : labelMatches g.label key = true) :
    advance groups key labels = settle labels g.targets := by
  obtain ⟨before, after, rfl⟩ := List.append_of_mem h
  refine advance_of_first (fun other ho => ?_) hkey
  have hne := (List.pairwise_append.1 hgroups).2.2 other ho g List.mem_cons_self
  rw [labelMatches, beq_iff_eq] at hkey
  rwa [labelMatches, hkey, ← labelMatches] at hne

theorem labelMatches_self (label : Char) : labelMatches label label = true :=
  beq_self_eq_true _

theorem settle_of_two_le (hlabels : labels ≠ []) (h : 2 ≤ l.length) :
    settle labels l = .narrowed (deal labels l) := by
  match l, h with
  | _ :: _ :: _, _ => simp [settle, hlabels]

/-- **No match is lost, and none is made up.** -/
theorem remaining_settle (hlabels : labels ≠ []) (l : List Nat) :
    (settle labels l).remaining.Perm l := by
  match l with
  | [] => exact List.Perm.refl _
  | [_] => exact List.Perm.refl _
  | first :: second :: rest =>
    have htwo : 2 ≤ (first :: second :: rest).length := Nat.le_add_left 2 rest.length
    rw [settle_of_two_le hlabels htwo]
    exact targets_deal_perm hlabels _

theorem exists_deal_of_settle (h : settle labels l = .narrowed groups) :
    labels ≠ [] ∧ groups = deal labels l := by
  match l with
  | [] => cases h
  | [_] => cases h
  | _ :: _ :: _ =>
    by_cases hlabels : labels = []
    · simp [settle, hlabels] at h
    · exact ⟨hlabels, by simpa [settle, hlabels] using h.symm⟩

theorem exists_deal_of_shows (h : Shows t search ignoreCase labels groups) :
    labels ≠ [] ∧ ∃ l, groups = deal labels l := by
  cases h with
  | start step => exact (exists_deal_of_settle step).imp_right fun hdeal => ⟨_, hdeal⟩
  | advance _ step =>
    rw [advance] at step
    split at step
    · exact (exists_deal_of_settle step).imp_right fun hdeal => ⟨_, hdeal⟩
    · cases step

/-! ## Reaching a match -/

theorem ceil_div_lt (hk : 2 ≤ k) (hn : 2 ≤ n) : (n + k - 1) / k < n := by
  obtain ⟨rest, rfl⟩ := Nat.exists_eq_add_of_le hk
  have hround : 2 * (1 + rest) ≤ n * (1 + rest) := Nat.mul_le_mul_right _ hn
  rw [Nat.div_lt_iff_lt_mul (by omega)]
  calc n + (2 + rest) - 1 < n + 2 * (1 + rest) := by omega
    _ ≤ n + n * (1 + rest) := Nat.add_le_add_left hround n
    _ = n * (2 + rest) := by simp only [Nat.mul_add]; omega

/-- **The labels to type are no more than the logarithm of the number of matches.** -/
theorem exists_resolves (hlabels : 2 ≤ labels.length) (hdistinct : Distinct labels)
    (hl : 2 ≤ l.length) (h : target ∈ l) :
    ∃ keys, keys.length ≤ Nat.clog labels.length l.length ∧
      Resolves labels target (deal labels l) keys := by
  have hne : labels ≠ [] := List.length_pos_iff.1 (by omega)
  -- The group of the target has fewer matches, by `ceil_div_lt`.
  induction hn : l.length using Nat.strong_induction_on generalizing l with
  | _ n ih =>
  obtain ⟨g, hg, htarget⟩ : ∃ g ∈ deal labels l, target ∈ g.targets :=
    List.mem_flatMap.1 ((targets_deal_perm hne l).mem_iff.2 h)
  have hadvance : advance (deal labels l) g.label labels = settle labels g.targets :=
    advance_of_mem (pairwise_deal hdistinct l) hg (labelMatches_self _)
  have hpos : 0 < g.targets.length := List.length_pos_of_mem htarget
  have hsize : g.targets.length ≤ (n + labels.length - 1) / labels.length :=
    hn ▸ (length_of_mem_deal hg).2
  have hclog : Nat.clog labels.length n =
      Nat.clog labels.length ((n + labels.length - 1) / labels.length) + 1 :=
    Nat.clog_of_two_le hlabels (hn ▸ hl)
  by_cases hone : g.targets.length = 1
  · obtain ⟨only, honly⟩ := List.length_eq_one_iff.1 hone
    obtain rfl : target = only := by simpa [honly] using htarget
    refine ⟨[g.label], hclog ▸ Nat.le_add_left 1 _, .last hg ?_⟩
    rw [hadvance, honly, settle]
  · have hlt : g.targets.length < n := hsize.trans_lt (ceil_div_lt hlabels (hn ▸ hl))
    obtain ⟨keys, hkeys, hresolves⟩ := ih _ hlt (by omega) htarget rfl
    have hnarrowed := hadvance.trans (settle_of_two_le hne (by omega))
    refine ⟨g.label :: keys, ?_, .more hg hnarrowed hresolves⟩
    calc keys.length + 1 ≤ Nat.clog labels.length g.targets.length + 1 :=
          Nat.add_le_add_right hkeys 1
      _ ≤ Nat.clog labels.length n :=
          hclog ▸ Nat.add_le_add_right (Nat.clog_mono_right _ hsize) 1

/-! ## The whole jump -/

theorem mem_matchIndices : i ∈ matchIndices t search ignoreCase ↔
    ∃ c, t[i]? = some c ∧ matchesChar ignoreCase search c = true := by
  simp [matchIndices, List.mem_zipIdx_iff_getElem?]

theorem nodup_matchIndices : (matchIndices t search ignoreCase).Nodup := by
  have hindices : (t.zipIdx.map Prod.snd).Pairwise (· ≠ ·) := by
    rw [List.zipIdx_map_snd]
    exact List.nodup_range'
  rw [matchIndices, List.Nodup, List.pairwise_filterMap]
  refine (List.pairwise_map.1 hindices).imp fun {a b} hne x hx y hy hxy => hne ?_
  simp only [Option.ite_none_right_eq_some, Option.some.injEq] at hx hy
  rw [hx.2, hy.2, hxy]

/-- **Every match can be reached.** The indices that match are collected, each once. From two of
them on, starting a jump shows them in groups whose sizes differ by at most one, and each is reached
by typing at most `⌈log_k m⌉` labels, `m` being the number of matches and `k` that of labels; with
one match the jump resolves to it at once, and with none it aborts. At any point of a jump, a key
that agrees with a label that is shown keeps the matches of its group. -/
theorem every_match_reached (hlabels : 2 ≤ labels.length) (hdistinct : Distinct labels) (t : Text)
    (search : Char) (ignoreCase : Bool) :
    (∀ i, i ∈ matchIndices t search ignoreCase ↔
        ∃ c, t[i]? = some c ∧ matchesChar ignoreCase search c = true) ∧
      (matchIndices t search ignoreCase).Nodup ∧
      (2 ≤ (matchIndices t search ignoreCase).length →
        ∃ groups, start t search labels ignoreCase = .narrowed groups ∧
          (targets groups).Perm (matchIndices t search ignoreCase) ∧
          (∀ g ∈ groups, ∀ other ∈ groups, g.targets.length ≤ other.targets.length + 1) ∧
          ∀ target ∈ matchIndices t search ignoreCase, ∃ keys,
            keys.length ≤
              Nat.clog labels.length (matchIndices t search ignoreCase).length ∧
            Resolves labels target groups keys) ∧
      (∀ target, matchIndices t search ignoreCase = [target] →
        start t search labels ignoreCase = .resolved target) ∧
      (matchIndices t search ignoreCase = [] → start t search labels ignoreCase = .aborted) ∧
      ∀ groups, Shows t search ignoreCase labels groups → ∀ g ∈ groups, ∀ key,
        labelMatches g.label key = true → (advance groups key labels).remaining.Perm g.targets := by
  have hne : labels ≠ [] := List.length_pos_iff.1 (by omega)
  refine ⟨fun i => mem_matchIndices, nodup_matchIndices, fun htwo => ?several,
    fun target hone => ?one, fun hnone => ?none, fun groups hshows g hg key hkey => ?keeps⟩
  case several =>
    exact ⟨_, settle_of_two_le hne htwo, targets_deal_perm hne _,
      fun g hg other hother => length_le_of_mem_deal hg hother,
      fun target htarget => exists_resolves hlabels hdistinct htwo htarget⟩
  case one => rw [start, hone, settle]
  case none => rw [start, hnone, settle]
  case keeps =>
    obtain ⟨-, l, rfl⟩ := exists_deal_of_shows hshows
    rw [advance_of_mem (pairwise_deal hdistinct l) hg hkey]
    exact remaining_settle hne _

/-- The last of three matches takes two of the labels `A` and `B`. -/
theorem three_matches_reached :
    2 ≤ ['A', 'B'].length ∧ Distinct ['A', 'B'] ∧
      ∃ groups, start ['x', 'o', 'x', 'x'] 'x' ['A', 'B'] false = .narrowed groups ∧
        ∃ keys, keys.length ≤ Nat.clog 2 3 ∧ Resolves ['A', 'B'] 3 groups keys := by
  obtain ⟨-, -, hseveral, -⟩ :=
    @every_match_reached ['A', 'B'] (by decide) (by decide) ['x', 'o', 'x', 'x'] 'x' false
  obtain ⟨groups, hstart, -, -, hreach⟩ := hseveral (by decide)
  exact ⟨by decide, by decide, groups, hstart, hreach 3 (by decide)⟩

/-- A single match is in no group: the jump has resolved to it. -/
theorem single_match_in_no_group :
    ¬ ∀ labels : List Char, 2 ≤ labels.length → Distinct labels → ∀ t search ignoreCase,
      (targets (start t search labels ignoreCase).groups).Perm
        (matchIndices t search ignoreCase) := fun h =>
  absurd (h ['A', 'B'] (by decide) (by decide) ['a'] 'a' false).length_eq (by decide)

end Jump

end ModalEdit
