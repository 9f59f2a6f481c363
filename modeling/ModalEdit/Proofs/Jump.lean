import ModalEdit.Jump
import Mathlib.Data.List.Basic

/-!
# Dealing matches onto labels

Dealing loses no match and makes none up: the groups hold the matches in another order
(`targets_deal_perm`). The places `i`, `i + k`, `i + 2k`, … of the labels `i < k` are all the places
there are, each of them once, because a place below the number of matches has one remainder and one
quotient by `k`.
-/

namespace ModalEdit.Jump

/-- All matches under some labels. -/
def targets (groups : List JumpGroup) : List Nat :=
  groups.flatMap (·.targets)

/-- The places that `k` labels are dealt, out of `n` places and perhaps some past them. -/
def places (k n : Nat) : List Nat :=
  (List.range k).flatMap fun i => (List.range (n / k + 1)).map fun round => i + round * k

theorem mem_places {k n j : Nat} (hk : 0 < k) (hj : j < n) : j ∈ places k n := by
  simp only [places, List.mem_flatMap, List.mem_range, List.mem_map]
  refine ⟨j % k, Nat.mod_lt j hk, j / k, ?_, ?_⟩
  · have := Nat.div_le_div_right (c := k) (Nat.le_of_lt hj)
    omega
  · rw [Nat.mul_comm]; exact Nat.mod_add_div j k

theorem nodup_places {k n : Nat} : (places k n).Nodup := by
  have hmod : ∀ {i r : Nat}, i < k → (i + r * k) % k = i := fun hi => by
    rw [Nat.add_mul_mod_self_right, Nat.mod_eq_of_lt hi]
  refine List.pairwise_flatMap.2 ⟨fun i hi => ?_, ?_⟩
  · -- One label: the rounds differ.
    have hk : 0 < k := by have := List.mem_range.1 hi; omega
    refine List.pairwise_map.2 (List.nodup_range.imp fun hne heq => hne ?_)
    exact Nat.eq_of_mul_eq_mul_right hk (Nat.add_left_cancel heq)
  · -- Two labels: the remainders differ.
    refine List.nodup_range.imp_of_mem fun {a b} ha hb hne x hx y hy heq => hne ?_
    obtain ⟨r, -, rfl⟩ := List.mem_map.1 hx
    obtain ⟨r', -, rfl⟩ := List.mem_map.1 hy
    rw [← hmod (r := r) (List.mem_range.1 ha), heq, hmod (List.mem_range.1 hb)]

theorem filter_places_perm {k n : Nat} (hk : 0 < k) :
    ((places k n).filter (· < n)).Perm (List.range n) := by
  refine (List.perm_ext_iff_of_nodup (nodup_places.filter _) List.nodup_range).2 fun j => ?_
  simp only [List.mem_filter, decide_eq_true_eq, List.mem_range]
  exact ⟨fun h => h.2, fun h => ⟨mem_places hk h, h⟩⟩

theorem filterMap_range_getElem? (l : List Nat) :
    (List.range l.length).filterMap (l[·]?) = l := by
  induction l with
  | nil => rfl
  | cons x l ih =>
    rw [List.length_cons, List.range_succ_eq_map, List.filterMap_cons, List.filterMap_map]
    simpa [Function.comp_def] using ih

theorem everyNth_eq (k i : Nat) (l : List Nat) :
    everyNth k i l.toArray =
      ((List.range (l.length / k + 1)).map fun round => i + round * k).filterMap (l[·]?) := by
  simp [everyNth, List.filterMap_map]

/-- Leaving out the labels with no match leaves out no match. -/
theorem targets_filter (groups : List JumpGroup) :
    targets (groups.filter fun g => !g.targets.isEmpty) = targets groups := by
  induction groups with
  | nil => rfl
  | cons g groups ih =>
    unfold targets at ih ⊢
    by_cases hg : g.targets = []
    · simp [hg, ih]
    · simp [hg, ih]

theorem targets_deal (labels : List Char) (l : List Nat) :
    targets (deal labels l) = (places labels.length l.length).filterMap (l[·]?) := by
  have hzip : labels.zipIdx.map Prod.snd = List.range labels.length := by
    rw [List.zipIdx_map_snd, List.range_eq_range']
  rw [deal, targets_filter, targets, List.flatMap_map, places, List.filterMap_flatMap, ← hzip,
    List.flatMap_map]
  simp only [everyNth_eq]

/-- **The groups hold the matches.** -/
theorem targets_deal_perm {labels : List Char} (h : labels ≠ []) (l : List Nat) :
    (targets (deal labels l)).Perm l := by
  have hk : 0 < labels.length := List.length_pos_iff.2 h
  have hpast : (places labels.length l.length).filterMap (l[·]?) =
      ((places labels.length l.length).filter (· < l.length)).filterMap (l[·]?) := by
    rw [List.filterMap_filter]
    refine List.filterMap_congr fun j _ => ?_
    by_cases hj : j < l.length
    · simp [hj]
    · simp [hj]
  have hperm := (filter_places_perm (n := l.length) hk).filterMap (l[·]?)
  rw [filterMap_range_getElem?] at hperm
  rw [targets_deal, hpast]
  exact hperm

/-- A step that shows labels shows them for at least two matches. -/
theorem two_le_of_settle {labels : List Char} {l : List Nat} {groups : List JumpGroup}
    (h : settle labels l = .narrowed groups) : 2 ≤ (targets groups).length := by
  match l with
  | [] => simp [settle] at h
  | [_] => simp [settle] at h
  | x :: y :: rest =>
    by_cases hl : labels = []
    · simp [settle, hl] at h
    · have hg : deal labels (x :: y :: rest) = groups := by simpa [settle, hl] using h
      rw [← hg, (targets_deal_perm hl _).length_eq]
      simp

end ModalEdit.Jump
