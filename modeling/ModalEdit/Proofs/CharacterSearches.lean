import ModalEdit.Proofs.MotionRange
import ModalEdit.Proofs.RestingCursor

/-!
# Character searches

A search looks at the characters of the cursor's line on one side of the cursor (`Find.side`). It
succeeds where they hold the character often enough, and hits the occurrence with `n - 1` others
between it and the cursor (`Find.IsNth`), whatever the other lines hold.

**Repeating.** A search that stops one short stays in place only if its first hit is right next to
the cursor. The occurrence after it is farther away, so a repeated search always moves
(`IsNth.far`).

**There and back.** From one occurrence to another, the occurrences in between are the same in both
directions. So the search back finds the first as its `n`-th where the search forth found the
second as its `n`-th (`IsNth.back`).

Main result: `search_lands`.
-/

namespace ModalEdit

/-- The characters that a search looks at: those of the line, strictly on one side. -/
def Find.side (f : Find) (t : Text) (here : Nat) : Text :=
  if f.kind.backward then t.slice (t.lineStart (t.lineOf here)) here
  else t.slice (here + 1) (t.lineEnd (t.lineOf here))

/-- The character occurs at `j`, on the side of the line that the search looks to, and `n - 1` times
strictly in between. -/
def Find.IsNth (f : Find) (t : Text) (here n j : Nat) : Prop :=
  t[j]? = some f.char ∧
    if f.kind.backward then
      t.lineStart (t.lineOf here) ≤ j ∧ j < here ∧ (t.slice (j + 1) here).count f.char + 1 = n
    else
      here < j ∧ j < t.lineEnd (t.lineOf here) ∧ (t.slice (here + 1) j).count f.char + 1 = n

/-- A search stops on its hit, or next to it on the side of the cursor. -/
def FindKind.StopsAt (k : FindKind) (hit stop : Nat) : Prop :=
  if k.till then (if k.backward then stop = hit + 1 else stop + 1 = hit) else stop = hit

/-- The search that a repetition of the last one makes. -/
def Find.repeated (last : Find) (reverse : Bool) : Find :=
  { last with kind := if reverse then last.kind.reversed else last.kind }

variable {t : Text} {ctx : MotionContext} {c : Char} {cs : List Char} {f last : Find}
  {r : Range} {reverse : Bool} {cursor here n i j k : Nat}

/-! ## The occurrences of a character, counted -/

theorem length_occurrences (c : Char) (cs : List Char) :
    (occurrences c cs).length = cs.count c := by
  induction cs with
  | nil => rfl
  | cons d cs ih =>
    rw [occurrences_cons, List.length_append, List.length_map, ih, List.count_cons]
    by_cases hd : d = c <;> simp [hd, Nat.add_comm]

theorem getElem?_occurrences :
    (occurrences c cs)[k]? = some j ↔ cs[j]? = some c ∧ (cs.take j).count c = k := by
  induction cs generalizing k j with
  | nil => simp [occurrences]
  | cons d cs ih =>
    rw [occurrences_cons]
    by_cases hd : d = c
    · cases k <;> cases j <;> simp [hd, ih]
    · cases j <;> simp [hd, ih]

theorem nthOffset_eq_some_iff (hn : 1 ≤ n) :
    nthOffset c n cs = some j ↔ cs[j]? = some c ∧ (cs.take j).count c + 1 = n := by
  rw [nthOffset, getElem?_occurrences]
  exact and_congr_right fun _ => by omega

theorem isSome_nthOffset (hn : 1 ≤ n) : (nthOffset c n cs).isSome ↔ n ≤ cs.count c := by
  rw [nthOffset, isSome_getElem?, length_occurrences]
  omega

namespace Text

@[simp] theorem slice_self (t : Text) (i : Nat) : t.slice i i = [] :=
  List.drop_eq_nil_of_le (List.length_take_le i t)

theorem take_slice (h : i + k ≤ j) : (t.slice i j).take k = t.slice i (i + k) := by
  rw [slice, slice, List.take_drop, List.take_take, Nat.min_eq_left h]

theorem take_reverse_slice (hj : j ≤ t.length) (h : i + k ≤ j) :
    (t.slice i j).reverse.take k = (t.slice (j - k) j).reverse := by
  have hlength : (t.slice i j).length = j - i := by rw [length_slice, Nat.min_eq_left hj]
  rw [List.take_reverse, hlength, slice, slice, List.drop_drop]
  congr 2
  omega

end Text

theorem nthOffset_slice {stop : Nat} (hn : 1 ≤ n) :
    nthOffset c n (t.slice i stop) = some k ↔
      i + k < stop ∧ t[i + k]? = some c ∧ (t.slice i (i + k)).count c + 1 = n := by
  rw [nthOffset_eq_some_iff hn]
  by_cases hk : i + k < stop
  · rw [Text.getElem?_slice (by omega), Text.take_slice (Nat.le_of_lt hk)]
    exact (and_iff_right hk).symm
  · have hnone : (t.slice i stop)[k]? = none :=
      List.getElem?_eq_none (by rw [Text.length_slice]; omega)
    simp [hnone, hk]

theorem nthOffset_reverse_slice {start : Nat} (hn : 1 ≤ n) (hi : i ≤ t.length) :
    nthOffset c n (t.slice start i).reverse = some k ↔
      start + k < i ∧ t[i - 1 - k]? = some c ∧ (t.slice (i - k) i).count c + 1 = n := by
  rw [nthOffset_eq_some_iff hn]
  by_cases hk : start + k < i
  · rw [Text.getElem?_reverse_slice hi (by omega), Text.take_reverse_slice hi (Nat.le_of_lt hk),
      List.count_reverse]
    exact (and_iff_right hk).symm
  · have hnone : (t.slice start i).reverse[k]? = none :=
      List.getElem?_eq_none (by rw [List.length_reverse, Text.length_slice]; omega)
    simp [hnone, hk]

namespace Find

/-! ## Where a search lands -/

theorem isSome_hit (hn : 1 ≤ n) :
    (f.hit t (Position.ofIndex t cursor) n).isSome ↔
      n ≤ (f.side t (min cursor t.length)).count f.char := by
  rw [hit, side, Position.ofIndex_index, Position.ofIndex_line, Text.lineOf_min_length]
  cases f.kind.backward with
  | false => simp [isSome_nthOffset hn]
  | true => simp [isSome_nthOffset hn]

/-- **A search hits the `n`-th occurrence on its side.** -/
theorem hit_eq_some_iff (hn : 1 ≤ n) :
    f.hit t (Position.ofIndex t cursor) n = some j ↔ f.IsNth t (min cursor t.length) n j := by
  have hhere : min cursor t.length ≤ t.length := Nat.min_le_right _ _
  rw [hit, IsNth, Position.ofIndex_index, Position.ofIndex_line, Text.lineOf_min_length]
  generalize min cursor t.length = here at hhere
  cases f.kind.backward with
  | false =>
    simp only [Bool.false_eq_true, if_false, Option.map_eq_some_iff, nthOffset_slice hn]
    constructor
    · rintro ⟨k, ⟨hline, hchar, hcount⟩, rfl⟩
      exact ⟨hchar, by omega, hline, hcount⟩
    · rintro ⟨hchar, hlt, hline, hcount⟩
      obtain ⟨k, rfl⟩ := Nat.exists_eq_add_of_le hlt
      exact ⟨k, ⟨hline, hchar, hcount⟩, rfl⟩
  | true =>
    simp only [if_true, Option.map_eq_some_iff, nthOffset_reverse_slice hn hhere]
    constructor
    · rintro ⟨k, ⟨hline, hchar, hcount⟩, rfl⟩
      have hnext : here - 1 - k + 1 = here - k := by omega
      exact ⟨hchar, by omega, by omega, hnext ▸ hcount⟩
    · rintro ⟨hchar, hline, hlt, hcount⟩
      obtain ⟨k, rfl⟩ := Nat.exists_eq_add_of_le hlt
      have hj : j.succ + k - 1 - k = j := by omega
      exact ⟨k, ⟨by omega, hj.symm ▸ hchar, by rwa [Nat.add_sub_cancel]⟩, hj⟩

theorem range_eq_some (hn : 1 ≤ n) (h : f.range t (Position.ofIndex t cursor) n = some r) :
    r.start = min cursor t.length ∧
      ∃ j, f.IsNth t (min cursor t.length) n j ∧ f.kind.StopsAt j r.stop := by
  obtain ⟨j, hj, rfl⟩ := Option.map_eq_some_iff.1 h
  have hnth := (hit_eq_some_iff hn).1 hj
  refine ⟨Position.ofIndex_index t cursor, j, hnth, ?_⟩
  unfold IsNth at hnth
  unfold FindKind.StopsAt FindKind.landing
  cases hback : f.kind.backward with
  | false =>
    rw [hback, if_neg Bool.false_ne_true] at hnth
    cases f.kind.till <;> simp; omega
  | true => cases f.kind.till <;> simp

/-! ## Searching again -/

theorem IsNth.far (h : f.IsNth t here n j) (hn : 2 ≤ n) :
    if f.kind.backward then j + 1 < here else here + 1 < j := by
  obtain ⟨-, h⟩ := h
  cases hback : f.kind.backward with
  | false =>
    rw [hback, if_neg Bool.false_ne_true] at h
    obtain ⟨hlt, -, hcount⟩ := h
    refine Nat.lt_of_le_of_ne hlt fun hnext => ?_
    rw [← hnext, Text.slice_self, List.count_nil] at hcount
    omega
  | true =>
    rw [hback, if_pos rfl] at h
    obtain ⟨-, hlt, hcount⟩ := h
    refine Nat.lt_of_le_of_ne hlt fun hnext => ?_
    rw [hnext, Text.slice_self, List.count_nil] at hcount
    omega

/-- A search that does not stay where it is goes in its direction. -/
theorem lt_of_stop_ne (hn : 1 ≤ n) (h : f.range t (Position.ofIndex t cursor) n = some r)
    (hmoves : f.kind.till = true → r.stop ≠ min cursor t.length) :
    if f.kind.backward then r.stop < min cursor t.length else min cursor t.length < r.stop := by
  obtain ⟨-, j, ⟨-, hside⟩, hstops⟩ := range_eq_some hn h
  unfold FindKind.StopsAt at hstops
  cases hback : f.kind.backward with
  | false =>
    simp only [hback, Bool.false_eq_true, if_false] at hside hstops ⊢
    split at hstops
    next htill => have := hmoves htill; omega
    next => omega
  | true =>
    simp only [hback, if_true] at hside hstops ⊢
    split at hstops
    next htill => have := hmoves htill; omega
    next => omega

theorem stop_ne_of_two_le (hn : 2 ≤ n) (h : f.range t (Position.ofIndex t cursor) n = some r) :
    r.stop ≠ min cursor t.length := by
  obtain ⟨-, j, hnth, hstops⟩ := range_eq_some (by omega) h
  have hfar := hnth.far hn
  unfold FindKind.StopsAt at hstops
  cases hback : f.kind.backward with
  | false =>
    simp only [hback, Bool.false_eq_true, if_false] at hfar hstops
    split at hstops <;> omega
  | true =>
    simp only [hback, if_true] at hfar hstops
    split at hstops <;> omega

theorem rangeAgain_eq (f : Find) (t : Text) (pos : Position) (n : Nat) :
    f.rangeAgain t pos n =
      if f.kind.till = true ∧ (f.range t pos n).map (·.stop) = some pos.index then
        f.range t pos (n + 1)
      else f.range t pos n := by
  unfold rangeAgain
  cases f.range t pos n with
  | none => simp
  | some r => simp

/-- **A repeated search moves.** -/
theorem rangeAgain_moves (hn : 1 ≤ n)
    (h : f.rangeAgain t (Position.ofIndex t cursor) n = some r) :
    if f.kind.backward then r.stop < min cursor t.length else min cursor t.length < r.stop := by
  rw [rangeAgain_eq, Position.ofIndex_index] at h
  split at h
  next => exact lt_of_stop_ne (by omega) h fun _ => stop_ne_of_two_le (by omega) h
  next hstays => exact lt_of_stop_ne hn h fun htill hstop => hstays ⟨htill, by rw [h, ← hstop]; rfl⟩

/-! ## There and back -/

theorem lineOf_eq_of_isNth (hhere : here ≤ t.length) (h : f.IsNth t here n j) :
    t.lineOf j = t.lineOf here := by
  have hline := t.lineOf_le_lastLine here
  have hend := t.lineEnd_le_length (t.lineOf here)
  obtain ⟨hstart, hstop⟩ := (Text.lineOf_eq_iff hline hhere).1 rfl
  obtain ⟨-, hside⟩ := h
  split at hside
  next => exact (Text.lineOf_eq_iff hline (by omega)).2 ⟨by omega, by omega⟩
  next => exact (Text.lineOf_eq_iff hline (by omega)).2 ⟨by omega, by omega⟩

/-- **The `n`-th occurrence there is the `n`-th back.** -/
theorem IsNth.back (h : f.IsNth t here n j) (hhere : t[here]? = some f.char) :
    Find.IsNth { f with kind := f.kind.reversed } t j n here := by
  have hlt : here < t.length := (List.getElem?_eq_some_iff.1 hhere).1
  have hline := lineOf_eq_of_isNth (Nat.le_of_lt hlt) h
  refine ⟨hhere, ?_⟩
  rw [hline]
  obtain ⟨hchar, h⟩ := h
  unfold FindKind.reversed
  cases hback : f.kind.backward with
  | false =>
    simp only [hback, Bool.false_eq_true, if_false, Bool.not_false, if_true] at h ⊢
    exact ⟨t.lineStart_lineOf_le here (Nat.le_of_lt hlt), h.1, h.2.2⟩
  | true =>
    simp only [hback, Bool.false_eq_true, if_false, Bool.not_true, if_true] at h ⊢
    -- the occurrence before it is no line break, so neither is this one
    have hend : j < t.lineEnd (t.lineOf j) :=
      Nat.lt_of_lt_of_le h.2.1 (hline ▸ Text.le_lineEnd_lineOf (Nat.le_of_lt hlt))
    obtain ⟨c, hc, hbreak⟩ := Text.lt_lineEnd_lineOf_iff.1 hend
    obtain rfl : f.char = c := Option.some.inj (hchar.symm.trans hc)
    exact ⟨h.2.1, Text.lt_lineEnd_lineOf_iff.2 ⟨_, hhere, hbreak⟩, h.2.2⟩

/-- **A search back from a hit lands where it came from.** -/
theorem range_back (hn : 1 ≤ n) (htill : f.kind.till = false) (hchar : t[cursor]? = some f.char)
    (h : f.range t (Position.ofIndex t cursor) n = some r) :
    ∃ back, Find.range { f with kind := f.kind.reversed } t (Position.ofIndex t r.stop) n =
      some back ∧ back.stop = cursor := by
  obtain ⟨hlt, -⟩ := List.getElem?_eq_some_iff.1 hchar
  obtain ⟨-, j, hnth, hstops⟩ := range_eq_some hn h
  rw [Nat.min_eq_left (Nat.le_of_lt hlt)] at hnth
  obtain rfl : r.stop = j := by simpa [FindKind.StopsAt, htill] using hstops
  have hin : r.stop ≤ t.length := (range_landsIn h).1.stop_le
  have hback := hnth.back hchar
  rw [← Nat.min_eq_left hin] at hback
  rw [range, (hit_eq_some_iff hn).2 hback]
  exact ⟨_, rfl, by simp [FindKind.landing, FindKind.reversed, htill]⟩

theorem rangeAgain_of_not_till (htill : f.kind.till = false) (pos : Position) :
    f.rangeAgain t pos n = f.range t pos n := by
  rw [rangeAgain_eq, htill, if_neg (by simp)]

end Find

theorem Motion.range_repeatFind (hlast : ctx.lastFind = some last) :
    (Motion.repeatFind reverse).range t ctx n cursor =
      (last.repeated reverse).rangeAgain t (Position.ofIndex t cursor) (max n 1) := by
  simp only [Motion.range, hlast, Find.repeated]
  rfl

/-- **Searches and their repetition.** A search succeeds where the cursor's line has the character
at least `n` times strictly on the side it looks to; it lands on the `n`-th of them or next to it,
on the side of the cursor. Its repetition lands as it does, or as with a count of one more where it
would stop short without moving: so it moves in its direction, or fails. From an occurrence, a last
search that lands on its hits is taken back by the repetition in the other direction. -/
theorem search_lands (t : Text) (ctx : MotionContext) (cursor : Nat) (hn : 1 ≤ n) :
    (∀ f, ((Motion.find f).range t ctx n cursor).isSome ↔
        n ≤ (f.side t (min cursor t.length)).count f.char) ∧
      (∀ f r, (Motion.find f).range t ctx n cursor = some r → r.start = min cursor t.length ∧
        ∃ j, f.IsNth t (min cursor t.length) n j ∧ f.kind.StopsAt j r.stop) ∧
      ∀ last, ctx.lastFind = some last →
        (∀ reverse, (Motion.repeatFind reverse).range t ctx n cursor =
            if (last.repeated reverse).kind.till = true ∧
                ((Motion.find (last.repeated reverse)).range t ctx n cursor).map (·.stop) =
                  some (min cursor t.length) then
              (Motion.find (last.repeated reverse)).range t ctx (n + 1) cursor
            else (Motion.find (last.repeated reverse)).range t ctx n cursor) ∧
          (∀ reverse r, (Motion.repeatFind reverse).range t ctx n cursor = some r →
            if (last.repeated reverse).kind.backward then r.stop < min cursor t.length
            else min cursor t.length < r.stop) ∧
          (last.kind.till = false → t[cursor]? = some last.char → ∀ r,
            (Motion.repeatFind false).range t ctx n cursor = some r →
              ∀ later : MotionContext, later.lastFind = some last →
                ∃ back, (Motion.repeatFind true).range t later n r.stop = some back ∧
                  back.stop = cursor) := by
  have hmax : max n 1 = n := Nat.max_eq_left hn
  have hnext : max (n + 1) 1 = n + 1 := Nat.max_eq_left (Nat.le_add_left 1 n)
  have hfind (f : Find) :
      (Motion.find f).range t ctx n cursor = f.range t (Position.ofIndex t cursor) n := by
    rw [Motion.range, hmax]
  refine ⟨fun f => ?succeeds, fun f r h => ?lands, fun last hlast => ⟨fun reverse => ?again,
    fun reverse r h => ?moves, fun htill hchar r h later hlater => ?returns⟩⟩
  case succeeds => rw [hfind, Find.range, Option.isSome_map, Find.isSome_hit hn]
  case lands => exact Find.range_eq_some hn (hfind f ▸ h)
  case again =>
    rw [Motion.range_repeatFind hlast, hmax, hfind, Find.rangeAgain_eq, Position.ofIndex_index,
      Motion.range, hnext]
  case moves =>
    rw [Motion.range_repeatFind hlast, hmax] at h
    exact Find.rangeAgain_moves hn h
  case returns =>
    have hsame : last.repeated false = last := rfl
    have htillBack : (last.repeated true).kind.till = false := htill
    rw [Motion.range_repeatFind hlast, hmax, hsame, Find.rangeAgain_of_not_till htill] at h
    rw [Motion.range_repeatFind hlater, hmax, Find.rangeAgain_of_not_till htillBack]
    exact Find.range_back hn htill hchar h

/-- The last search is forward for a comma. From the comma at 1, two commas forward is the one at 5,
and two commas back is where it began. -/
theorem commas_there_and_back :
    1 ≤ 2 ∧ (Motion.repeatFind false).range "a,b,c,d".toList
        { lastFind := some ⟨⟨false, false⟩, ','⟩ } 2 1 = some (.inclusive 1 5) ∧
      ∃ back, (Motion.repeatFind true).range "a,b,c,d".toList
        { lastFind := some ⟨⟨false, false⟩, ','⟩ } 2 5 = some back ∧ back.stop = 1 := by
  have hforth : (Motion.repeatFind false).range "a,b,c,d".toList
      { lastFind := some ⟨⟨false, false⟩, ','⟩ } 2 1 = some (.inclusive 1 5) := by decide
  obtain ⟨-, -, hagain⟩ := search_lands "a,b,c,d".toList
    { lastFind := some ⟨⟨false, false⟩, ','⟩ } 1 (n := 2) (by decide)
  obtain ⟨-, -, hreturns⟩ := hagain ⟨⟨false, false⟩, ','⟩ rfl
  exact ⟨by decide, hforth, hreturns rfl (by decide) _ hforth _ rfl⟩

end ModalEdit
