import ModalEdit.Word.Scan
import ModalEdit.Word.Step

/-!
# Scans are the word steps

In a text that machine indices can count, no word scan leaves their range, and each computes the
word step it stands for. A loop over indices is a `takeWhile` on the characters it passes, from the
nearest on. So a scanned run is the run (`scanRun_eq_ok`), a scanned step is the step
(`scanNextStart_eq_ok`, `scanNextEnd_eq_ok`, `scanPrevStart_eq_ok`), and steps in a row lead as far
as the distances add up to, in either direction (`Walk`, `scanRepeat_eq_ok`).
-/

namespace ModalEdit

variable {t : Text} {big : Bool} {i : Nat}

namespace Text

theorem backward_succ (h : i < t.length) : t.backward (i + 1) = t[i] :: t.backward i := by
  rw [backward, List.take_succ_eq_append_getElem h, List.reverse_append]
  rfl

theorem drop_backward (h : i ≤ t.length) (k : Nat) :
    (t.backward i).drop k = t.backward (i - k) := by
  rw [backward, List.drop_reverse, List.take_take, List.length_take, Nat.min_eq_left h,
    Nat.min_eq_left (Nat.sub_le i k)]
  rfl

theorem backward_min (t : Text) (i : Nat) : t.backward (min i t.length) = t.backward i := by
  rw [backward, backward, ← List.take_eq_take_min]

end Text

theorem CharClass.of_beq_space (big : Bool) :
    (fun c => CharClass.of big c == .space) = Unicode.isWhiteSpace := by
  funext c
  rw [Bool.eq_iff_iff, beq_iff_eq]
  exact CharClass.of_eq_space_iff big c

theorem runLength_cons (big : Bool) (c : Char) (cs : List Char) :
    runLength big (c :: cs) =
      ((c :: cs).takeWhile (CharClass.of big · == CharClass.of big c)).length := by
  simp [runLength]

theorem takeWhile_drop {p : Char → Bool} {cs : List Char} {c : Char} (hc : cs[i]? = some c)
    (hp : p c = true) : (cs.drop i).takeWhile p = c :: (cs.drop (i + 1)).takeWhile p := by
  obtain ⟨hlt, rfl⟩ := List.getElem?_eq_some_iff.1 hc
  rw [List.drop_eq_getElem_cons hlt, List.takeWhile_cons_of_pos hp]

theorem eq_false_of_getElem?_length_takeWhile {p : Char → Bool} {cs : List Char} {d : Char}
    (h : cs[(cs.takeWhile p).length]? = some d) : p d = false := by
  induction cs with
  | nil => cases h
  | cons c cs ih =>
    cases hp : p c with
    | false =>
      rw [List.takeWhile_cons_of_neg (by simp [hp])] at h
      cases h
      exact hp
    | true =>
      rw [List.takeWhile_cons_of_pos hp] at h
      exact ih h

/-- A run of white space is as long as the white space there. -/
theorem runLength_of_space {c : Char} (hc : CharClass.of big c = .space) (cs : List Char) :
    runLength big (c :: cs) = spaceLength (c :: cs) := by
  rw [runLength_cons, hc, CharClass.of_beq_space, spaceLength]

theorem spaceLength_of_not_space {c : Char} (hc : CharClass.of big c ≠ .space) (cs : List Char) :
    spaceLength (c :: cs) = 0 := by
  have hspace : ¬Unicode.isWhiteSpace c = true := fun h =>
    hc ((CharClass.of_eq_space_iff big c).2 h)
  rw [spaceLength, List.takeWhile_cons_of_neg hspace, List.length_nil]

/-! ## Loops as prefixes -/

/-- Back from an index, what is passed is a prefix of the characters before it. -/
theorem scanBack_eq_ok (p : Char → Bool) (lo : Nat) (hi : i ≤ t.length) :
    scanBack (fun j => t[j]?.any p) lo i =
      .ok (i - (((t.take i).drop lo).reverse.takeWhile p).length) := by
  induction i with
  | zero => simp [scanBack]
  | succ i ih =>
    rw [scanBack]
    by_cases hlo : lo < i + 1
    · have hnearest : ((t.take (i + 1)).drop lo).reverse =
          t[i] :: ((t.take i).drop lo).reverse := by
        rw [List.take_succ_eq_append_getElem hi, List.drop_append_of_le_length (by simp; omega)]
        simp
      rw [if_pos hlo, Index.sub_eq_ok (by omega), hnearest]
      simp only [Index.ok_bind, Nat.add_sub_cancel, List.getElem?_eq_getElem hi, Option.any_some]
      by_cases hp : p t[i]
      · rw [if_pos hp, ih (by omega), List.takeWhile_cons_of_pos hp, List.length_cons,
          Nat.add_sub_add_right]
      · rw [if_neg hp, List.takeWhile_cons_of_neg hp]
        rfl
    · have hnil : (t.take (i + 1)).drop lo = [] := List.drop_eq_nil_of_le (by simp; omega)
      rw [if_neg hlo, hnil]
      rfl

/-- Ahead from an index, what is passed is a prefix of the characters from it on. -/
theorem scanAhead_eq_ok (p : Char → Bool) {hi : Nat} (hbound : hi < Index.bound) (i : Nat) :
    scanAhead (fun j => t[j]?.any p) hi i =
      .ok (i + (((t.take hi).drop i).takeWhile p).length) := by
  fun_induction scanAhead (fun j => t[j]?.any p) hi i with
  | case1 i h ih =>
    obtain ⟨c, hc, hp⟩ := (Option.any_eq_true _ _).1 h.2
    have htake : (t.take hi)[i]? = some c := by rw [List.getElem?_take_of_lt h.1, hc]
    rw [Index.add_eq_ok (by omega), Index.ok_bind, ih, takeWhile_drop htake hp, List.length_cons,
      Nat.add_right_comm, Nat.add_assoc]
  | case2 i h =>
    have hstop : ((t.take hi).drop i).takeWhile p = [] := by
      cases hdrop : (t.take hi).drop i with
      | nil => rfl
      | cons c cs =>
        have hc : (t.take hi)[i]? = some c := by rw [← List.head?_drop, hdrop]; rfl
        rw [List.getElem?_take] at hc
        split at hc
        case isTrue hlt =>
          refine List.takeWhile_cons_of_neg fun hp => h ⟨hlt, ?_⟩
          rw [hc]
          exact hp
        case isFalse => cases hc
    rw [hstop]
    rfl

/-- Over an index and back, what is passed is a prefix of the characters up to it. A loop that
passes all of them stops at the start all the same. -/
theorem scanOver_eq_ok (p : Char → Bool) (hi : i < t.length) :
    scanOver (fun j => t[j]?.any p) i =
      .ok (i - ((t.backward (i + 1)).takeWhile p).length) := by
  induction i with
  | zero => simp [scanOver]
  | succ i ih =>
    rw [scanOver, Text.backward_succ hi]
    simp only [List.getElem?_eq_getElem hi, Option.any_some]
    by_cases hp : p t[i + 1]
    · rw [if_pos hp, Index.sub_eq_ok (by omega), Index.ok_bind, ih (by omega),
        List.takeWhile_cons_of_pos hp, List.length_cons, Nat.add_sub_add_right]
    · rw [if_neg hp, List.takeWhile_cons_of_neg hp]
      rfl

/-! ## Runs -/

namespace Text

theorem classAt_beq_some (t : Text) (big : Bool) (cls : CharClass) :
    (fun j => t.classAt big j == some cls) = fun j => t[j]?.any (CharClass.of big · == cls) := by
  funext j
  unfold classAt
  cases t[j]? with
  | none => rfl
  | some c => rfl

theorem spaceAt_eq (t : Text) (big : Bool) :
    t.spaceAt big = fun j => t[j]?.any Unicode.isWhiteSpace := by
  rw [← CharClass.of_beq_space big]
  exact t.classAt_beq_some big .space

/-- **A scanned run is the run.** -/
theorem scanRun_eq_ok (t : Text) (big : Bool) (lo i : Nat) {hi : Nat} (hbound : hi < Index.bound) :
    t.scanRun big lo hi i = .ok (t.runWithin big lo hi i) := by
  unfold scanRun runWithin
  by_cases hwithin : lo ≤ i ∧ i < hi
  · rw [if_pos hwithin, if_neg (by omega)]
    cases hc : t[i]? with
    | none => simp [classAt, hc]
    | some c =>
      have hlt : i < t.length := (List.getElem?_eq_some_iff.1 hc).1
      have hcls : t.classAt big i = some (CharClass.of big c) := by rw [classAt, hc]; rfl
      simp only [hcls, classAt_beq_some, Option.map_some]
      rw [scanBack_eq_ok _ lo (Nat.le_of_lt hlt), Index.add_eq_ok (by omega), Index.ok_bind,
        Index.ok_bind, scanAhead_eq_ok _ hbound, Index.ok_bind, Index.pure_eq_ok]
      have hhead : (t.take hi)[i]? = some c := by rw [List.getElem?_take_of_lt hwithin.2, hc]
      rw [takeWhile_drop (p := (CharClass.of big · == CharClass.of big c)) hhead
        (beq_self_eq_true _), List.length_cons, Nat.add_right_comm, Nat.add_assoc]
  · rw [if_neg hwithin, if_pos (by omega)]
    rfl

/-- The run at an index, by the characters on both sides of it. -/
theorem runWithin_of_lt (big : Bool) (h : i < t.length) :
    t.runWithin big 0 t.length i =
      some ⟨i - ((t.backward i).takeWhile (CharClass.of big · == CharClass.of big t[i])).length,
        i + runLength big (t.drop i), CharClass.of big t[i]⟩ := by
  rw [runWithin, if_pos ⟨Nat.zero_le i, h⟩, classAt, List.getElem?_eq_getElem h]
  simp only [Option.map_some, List.drop_zero, List.take_length, List.drop_eq_getElem_cons h,
    runLength_cons, backward]

theorem class_ne_at_run_end {c d : Char} (hc : t[i]? = some c)
    (hd : t[i + runLength big (t.drop i)]? = some d) :
    CharClass.of big d ≠ CharClass.of big c := by
  obtain ⟨hi, rfl⟩ := List.getElem?_eq_some_iff.1 hc
  rw [← List.getElem?_drop, List.drop_eq_getElem_cons hi, runLength_cons] at hd
  simpa using eq_false_of_getElem?_length_takeWhile hd

/-! ## Steps -/

theorem toNextStart_of_lt (hi : i < t.length) :
    toNextStart big (t.drop i) =
      let run := runLength big (t.drop i)
      let space := spaceLength (t.drop (i + run))
      some (if t.length ≤ i + run + space then run else run + space) := by
  have hne : (t.drop i).isEmpty = false := by simp; omega
  have hempty : ∀ n, ((t.drop n).isEmpty = true) = (t.length ≤ n) := by simp
  simp only [toNextStart, hne, List.drop_drop, hempty]
  rfl

/-- **A scanned step forward to the start of a word is the step.** -/
theorem scanNextStart_eq_ok (hbound : t.length < Index.bound) (big : Bool) (i : Nat) :
    t.scanNextStart big i = .ok (t.nextWordStart big i) := by
  unfold scanNextStart nextWordStart
  simp only [scanRun_eq_ok _ _ _ _ hbound, Index.ok_bind]
  by_cases hi : i < t.length
  · have hle := (runWithin_bounds (runWithin_of_lt big hi)).2.2.2.1
    have hother := @class_ne_at_run_end t big i t[i]
    rw [runWithin_of_lt big hi, toNextStart_of_lt hi]
    dsimp only at hle ⊢
    generalize runLength big (t.drop i) = run at hle hother
    by_cases hend : t.length ≤ i + run
    · -- the run is the last one
      have hlen : t.length = i + run := Nat.le_antisymm hend hle
      rw [if_pos hend, if_pos (Nat.le_add_right_of_le hend), hlen]
      rfl
    · have hstop : i + run < t.length := Nat.lt_of_not_le hend
      have hdrop := List.drop_eq_getElem_cons hstop
      specialize hother (List.getElem?_eq_getElem hi) (List.getElem?_eq_getElem hstop)
      rw [if_neg hend, runWithin_of_lt big hstop]
      dsimp only
      by_cases hspace : CharClass.of big t[i] = .space
      · -- no white space follows white space
        rw [if_pos hspace, hdrop, spaceLength_of_not_space (hspace ▸ hother)]
        simp
      · rw [if_neg hspace]
        by_cases hgap : CharClass.of big t[i + run] = .space
        · rw [if_neg fun h => h hgap, hdrop, runLength_of_space hgap]
          split
          · rfl
          · simp [Nat.add_assoc]
        · rw [if_pos hgap, hdrop, spaceLength_of_not_space hgap]
          simp
  · rw [runWithin, if_neg (by omega), List.drop_eq_nil_of_le (Nat.le_of_not_lt hi)]
    rfl

/-- **A scanned step forward to the end of a word is the step.** -/
theorem scanNextEnd_eq_ok (hbound : t.length < Index.bound) (big : Bool)
    (hi : i + 1 < Index.bound) : t.scanNextEnd big i = .ok (t.nextWordEnd big i) := by
  unfold scanNextEnd nextWordEnd toNextEnd
  rw [Index.add_eq_ok hi, Index.ok_bind, spaceAt_eq, scanAhead_eq_ok _ hbound, Index.ok_bind,
    List.take_length]
  simp only [List.drop_drop, ← spaceLength.eq_1, ← Nat.add_assoc]
  generalize spaceLength (t.drop (i + 1)) = space
  by_cases hend : t.length ≤ i + 1 + space
  · rw [if_pos hend, List.drop_eq_nil_of_le hend]
    rfl
  · have hlt : i + 1 + space < t.length := Nat.lt_of_not_le hend
    have hne : (t.drop (i + 1 + space)).isEmpty = false := by simp; omega
    rw [if_neg hend, scanRun_eq_ok _ _ _ _ hbound, Index.ok_bind, runWithin_of_lt big hlt, hne]
    dsimp only
    rw [Index.sub_eq_ok (by omega)]
    simp only [Index.ok_bind, Index.pure_eq_ok, Bool.false_eq_true, if_false, Option.map_some,
      Except.ok.injEq, Option.some.injEq]
    omega

/-- **A scanned step back to the start of a word is the step.** The first character looked at is
the one before the cursor, so a cursor past the start needs a text with a character. -/
theorem scanPrevStart_eq_ok (hbound : t.length < Index.bound) (big : Bool) (h : t ≠ [] ∨ i = 0) :
    t.scanPrevStart big i = .ok (t.prevWordStart big i) := by
  unfold scanPrevStart prevWordStart
  by_cases hi : i = 0
  · rw [if_pos hi, hi]
    rfl
  · have hlen : 0 < t.length := List.length_pos_iff.2 (h.resolve_right hi)
    rw [← t.backward_min i, if_neg hi]
    have hj : 1 ≤ min i t.length := by omega
    have hle : min i t.length ≤ t.length := Nat.min_le_right _ _
    generalize min i t.length = j at hj hle
    have hbehind : (t.backward j).isEmpty = false := by
      rw [List.isEmpty_eq_false_iff, ← List.length_pos_iff, length_backward]
      omega
    rw [Index.sub_eq_ok hj, Index.ok_bind, spaceAt_eq, scanOver_eq_ok _ (by omega), Index.ok_bind,
      Nat.sub_add_cancel hj, scanRun_eq_ok _ _ _ _ hbound, toPrevStart, hbehind]
    simp only [← spaceLength.eq_1, drop_backward hle]
    generalize spaceLength (t.backward j) = space
    rw [runWithin_of_lt big (by omega)]
    by_cases hspace : space < j
    · -- the run ends at the last character that is not white space
      have hlast : j - space = j - 1 - space + 1 := by omega
      rw [hlast, backward_succ (by omega), runLength]
      simp only [Index.ok_bind, Index.pure_eq_ok, Bool.false_eq_true, if_false, Option.map_some,
        Except.ok.injEq, Option.some.injEq]
      omega
    · -- there is only white space before the cursor
      have hstart : j - 1 - space = 0 := by omega
      simp only [hstart, Nat.zero_sub, Index.ok_bind, Index.pure_eq_ok, Bool.false_eq_true,
        if_false, Option.map_some, Except.ok.injEq, Option.some.injEq]
      omega

/-- The step to a word end leaves the range of machine indices where its scan does. -/
theorem nextWordEndChecked_eq (hbound : t.length < Index.bound) (big : Bool) (i : Nat) :
    t.nextWordEndChecked big i = t.scanNextEnd big i := by
  by_cases hi : i + 1 < Index.bound
  · rw [scanNextEnd_eq_ok hbound big hi, nextWordEndChecked, Index.add_eq_ok hi]
    rfl
  · rw [nextWordEndChecked, scanNextEnd, Index.add, if_neg hi]
    rfl

/-- The step back to a word start leaves the range of machine indices where its scan does. -/
theorem prevWordStartChecked_eq (hbound : t.length < Index.bound) (big : Bool) (i : Nat) :
    t.prevWordStartChecked big i = t.scanPrevStart big i := by
  by_cases ht : t = []
  · subst ht
    by_cases hi : i = 0
    · rw [hi]
      rfl
    · have hstart : min i ([] : Text).length = 0 := Nat.min_zero i
      rw [prevWordStartChecked, scanPrevStart, if_neg hi, if_neg hi, hstart]
      rfl
  · rw [scanPrevStart_eq_ok hbound big (Or.inl ht), prevWordStartChecked_eq_ok big i ht]

end Text

/-! ## Repeated steps -/

section Repeated

variable {f : List Char → Option Nat}

/-- Steps in a row leave as many characters ahead as each one does. -/
theorem stepMore_add_le (room : Nat) (hf : ∀ cs k, f cs = some k → k + room ≤ cs.length)
    (n : Nat) (cs : List Char) (hroom : room ≤ cs.length) :
    stepMore f n 0 cs + room ≤ cs.length := by
  induction n generalizing cs with
  | zero => simpa [stepMore] using hroom
  | succ n ih =>
    rw [stepMore]
    split
    case h_1 k hk =>
      have hle := hf cs (k + 1) hk
      have hmore := ih (cs.drop (k + 1)) (by rw [List.length_drop]; omega)
      rw [List.length_drop] at hmore
      rw [stepMore_eq_add]
      omega
    case h_2 => simpa using hroom

theorem stepRepeat_add_le (room : Nat) (hf : ∀ cs k, f cs = some k → k + room ≤ cs.length)
    {count k : Nat} {cs : List Char} (hk : stepRepeat f count cs = some k) :
    k + room ≤ cs.length := by
  obtain ⟨first, hfirst, rfl⟩ := Option.map_eq_some_iff.1 hk
  have hle := hf cs first hfirst
  have hmore := stepMore_add_le room hf (count - 1) (cs.drop first)
    (by rw [List.length_drop]; omega)
  rw [List.length_drop] at hmore
  rw [stepMore_eq_add]
  omega

theorem le_stepRepeat {least count k : Nat} {cs : List Char}
    (hf : ∀ cs k, f cs = some k → least ≤ k) (hk : stepRepeat f count cs = some k) :
    least ≤ k := by
  obtain ⟨first, hfirst, rfl⟩ := Option.map_eq_some_iff.1 hk
  rw [stepMore_eq_add]
  exact Nat.le_add_right_of_le (hf _ _ hfirst)

theorem stepRepeat_one (f : List Char → Option Nat) (cs : List Char) : stepRepeat f 1 cs = f cs :=
  Option.map_id'

theorem stepMore_eq_getD {n : Nat} (hf : ∀ cs k, f cs = some k → 0 < k) (hn : 0 < n)
    (cs : List Char) : stepMore f n 0 cs = (stepRepeat f n cs).getD 0 := by
  obtain ⟨n, rfl⟩ := Nat.exists_eq_add_of_lt hn
  rw [Nat.zero_add, stepMore, stepRepeat]
  cases hk : f cs with
  | none => rfl
  | some k =>
    cases k with
    | zero => exact absurd (hf cs 0 hk) (Nat.lt_irrefl 0)
    | succ k => simp

/-- A step more is a step and then the others, if steps move. -/
theorem stepRepeat_succ {n : Nat} (hf : ∀ cs k, f cs = some k → 0 < k) (hn : 0 < n)
    (cs : List Char) :
    stepRepeat f (n + 1) cs = (f cs).map fun k => k + (stepRepeat f n (cs.drop k)).getD 0 := by
  rw [stepRepeat, Nat.add_sub_cancel]
  congr 1
  funext k
  rw [stepMore_eq_add, stepMore_eq_getD hf hn]

/-- A direction to walk over a text: the characters ahead of an index, the nearest first, and the
index that lies some characters ahead. -/
structure Walk (t : Text) where
  ahead : Nat → List Char
  go : Nat → Nat → Nat
  go_le {i k : Nat} : i ≤ t.length → k ≤ (ahead i).length → go i k ≤ t.length
  ahead_go {i k : Nat} : i ≤ t.length → k ≤ (ahead i).length → ahead (go i k) = (ahead i).drop k
  go_eq_self_iff {i k : Nat} : i ≤ t.length → k ≤ (ahead i).length → (go i k = i ↔ k = 0)
  go_go {i k n : Nat} : i ≤ t.length → k + n ≤ (ahead i).length → go (go i k) n = go i (k + n)

/-- Towards the end of the text. -/
def Walk.forward (t : Text) : Walk t where
  ahead i := t.drop i
  go i k := i + k
  go_le hi hk := by rw [List.length_drop] at hk; omega
  ahead_go _ _ := by rw [List.drop_drop]
  go_eq_self_iff _ _ := by omega
  go_go _ _ := Nat.add_assoc _ _ _

/-- Towards the start of the text. -/
def Walk.back (t : Text) : Walk t where
  ahead i := t.backward i
  go i k := i - k
  go_le hi _ := by omega
  ahead_go hi _ := (Text.drop_backward hi _).symm
  go_eq_self_iff hi hk := by rw [Text.length_backward] at hk; omega
  go_go _ _ := Nat.sub_sub _ _ _

theorem Walk.go_zero (w : Walk t) (hi : i ≤ t.length) : w.go i 0 = i :=
  (w.go_eq_self_iff hi (Nat.zero_le _)).2 rfl

variable {step : Nat → Except Index.Fault (Option Nat)}

theorem scanMore_eq_ok (w : Walk t)
    (hstep : ∀ i ≤ t.length, step i = .ok ((f (w.ahead i)).map (w.go i)))
    (hf : ∀ cs k, f cs = some k → k ≤ cs.length) (n : Nat) (hi : i ≤ t.length) :
    scanMore step n i = .ok (w.go i (stepMore f n 0 (w.ahead i))) := by
  induction n generalizing i with
  | zero => rw [scanMore, stepMore, w.go_zero hi]; rfl
  | succ n ih =>
    rw [scanMore, hstep i hi, Index.ok_bind, stepMore]
    cases hk : f (w.ahead i) with
    | none => rw [w.go_zero hi]; rfl
    | some k =>
      have hle := hf _ k hk
      cases k with
      | zero => simp [w.go_zero hi]
      | succ k =>
        have hmoves : w.go i (k + 1) ≠ i := fun h => by
          cases (w.go_eq_self_iff hi hle).1 h
        have hnext := w.go_le hi hle
        have hmore := stepMore_add_le 0 hf n ((w.ahead i).drop (k + 1)) (Nat.zero_le _)
        rw [List.length_drop] at hmore
        simp only [Option.map_some, if_pos hmoves]
        rw [ih hnext, w.ahead_go hi hle, w.go_go hi (by omega),
          stepMore_eq_add f n (0 + (k + 1)), Nat.zero_add]

/-- **Scanned steps in a row lead as far as the steps they stand for.** -/
theorem scanRepeat_eq_ok (w : Walk t)
    (hstep : ∀ i ≤ t.length, step i = .ok ((f (w.ahead i)).map (w.go i)))
    (hf : ∀ cs k, f cs = some k → k ≤ cs.length) (count : Nat) (hi : i ≤ t.length) :
    scanRepeat step count i = .ok ((stepRepeat f count (w.ahead i)).map (w.go i)) := by
  rw [scanRepeat, hstep i hi, Index.ok_bind, stepRepeat]
  cases hk : f (w.ahead i) with
  | none => rfl
  | some k =>
    have hle := hf _ k hk
    have hmore := stepMore_add_le 0 hf (count - 1) ((w.ahead i).drop k) (Nat.zero_le _)
    rw [List.length_drop] at hmore
    simp only [Option.map_some]
    rw [scanMore_eq_ok w hstep hf (count - 1) (w.go_le hi hle), w.ahead_go hi hle,
      w.go_go hi (by omega), stepMore_eq_add f (count - 1) k]
    rfl

end Repeated

/-! ## How far words are -/

theorem runLength_le (big : Bool) (cs : List Char) : runLength big cs ≤ cs.length := by
  cases cs with
  | nil => exact Nat.le_refl 0
  | cons c cs =>
    rw [runLength_cons]
    exact (List.takeWhile_sublist _).length_le

theorem spaceLength_le (cs : List Char) : spaceLength cs ≤ cs.length :=
  (List.takeWhile_sublist _).length_le

theorem toNextStart_le {cs : List Char} {k : Nat} (h : toNextStart big cs = some k) :
    k ≤ cs.length := by
  have hrun := runLength_le big cs
  have hspace := spaceLength_le (cs.drop (runLength big cs))
  rw [List.length_drop] at hspace
  simp only [toNextStart, Option.ite_none_left_eq_some, Option.some.injEq] at h
  obtain ⟨-, rfl⟩ := h
  split <;> omega

theorem toNextEnd_lt {cs : List Char} {k : Nat} (h : toNextEnd big cs = some k) :
    k + 1 ≤ cs.length := by
  simp only [toNextEnd, Option.ite_none_left_eq_some, Option.some.injEq] at h
  obtain ⟨hne, rfl⟩ := h
  have hrun := runLength_le big (cs.drop (1 + spaceLength (cs.drop 1)))
  rw [List.isEmpty_iff, ← List.length_eq_zero_iff] at hne
  rw [List.length_drop] at hrun hne
  omega

theorem toPrevStart_le {cs : List Char} {k : Nat} (h : toPrevStart big cs = some k) :
    k ≤ cs.length := by
  simp only [toPrevStart, Option.ite_none_left_eq_some, Option.some.injEq] at h
  obtain ⟨-, rfl⟩ := h
  have hspace := spaceLength_le cs
  have hrun := runLength_le big (cs.drop (spaceLength cs))
  rw [List.length_drop] at hrun
  omega

theorem runLength_pos (big : Bool) {cs : List Char} (h : cs.isEmpty = false) :
    0 < runLength big cs := by
  cases cs with
  | nil => cases h
  | cons c cs => exact Nat.succ_pos _

theorem toNextStart_pos {cs : List Char} {k : Nat} (h : toNextStart big cs = some k) : 1 ≤ k := by
  simp only [toNextStart, Option.ite_none_left_eq_some, Option.some.injEq] at h
  obtain ⟨hne, rfl⟩ := h
  have hrun := runLength_pos big (eq_false_of_ne_true hne)
  split <;> omega

theorem toNextEnd_pos {cs : List Char} {k : Nat} (h : toNextEnd big cs = some k) : 1 ≤ k := by
  simp only [toNextEnd, Option.ite_none_left_eq_some, Option.some.injEq] at h
  obtain ⟨hne, rfl⟩ := h
  have hrun := runLength_pos big (eq_false_of_ne_true hne)
  omega

theorem toPrevStart_pos {cs : List Char} {k : Nat} (h : toPrevStart big cs = some k) : 1 ≤ k := by
  simp only [toPrevStart, Option.ite_none_left_eq_some, Option.some.injEq] at h
  obtain ⟨hne, rfl⟩ := h
  cases cs with
  | nil => exact absurd rfl hne
  | cons c cs =>
    by_cases hspace : spaceLength (c :: cs) = 0
    · rw [hspace, List.drop_zero, runLength]
      omega
    · omega

/-! ## Words in a row -/

namespace Text

theorem scanRepeat_nextStart (ht : t.length < Index.bound) (big : Bool) (count : Nat)
    (hi : i ≤ t.length) :
    scanRepeat (t.scanNextStart big) count i =
      .ok ((stepRepeat (toNextStart big) count (t.drop i)).map (i + ·)) :=
  scanRepeat_eq_ok (.forward t) (fun i _ => scanNextStart_eq_ok ht big i)
    (fun _ _ => toNextStart_le) count hi

theorem scanRepeat_nextEnd (ht : t.length + 1 < Index.bound) (big : Bool) (count : Nat)
    (hi : i ≤ t.length) :
    scanRepeat (t.scanNextEnd big) count i =
      .ok ((stepRepeat (toNextEnd big) count (t.drop i)).map (i + ·)) :=
  scanRepeat_eq_ok (.forward t) (fun i hi => scanNextEnd_eq_ok (by omega) big (by omega))
    (fun _ _ h => Nat.le_of_lt (toNextEnd_lt h)) count hi

theorem scanRepeat_prevStart (ht : t.length < Index.bound) (big : Bool) (count : Nat)
    (hi : i ≤ t.length) :
    scanRepeat (t.scanPrevStart big) count i =
      .ok ((stepRepeat (toPrevStart big) count (t.backward i)).map (i - ·)) := by
  refine scanRepeat_eq_ok (.back t) (fun i hi => ?_) (fun _ _ => toPrevStart_le) count hi
  have hstart : t ≠ [] ∨ i = 0 := by
    by_cases hnil : t = []
    · exact Or.inr (by simpa [hnil] using hi)
    · exact Or.inl hnil
  rw [scanPrevStart_eq_ok ht big hstart, prevWordStart, Nat.min_eq_left hi]
  rfl

end Text

end ModalEdit
