import ModalEdit.Motion.Checked
import ModalEdit.Proofs.Columns
import ModalEdit.Proofs.LinewiseOperators
import ModalEdit.Proofs.Positions
import ModalEdit.Proofs.WordScan

/-!
# Motions stay within machine indices

In a text of less than 2³¹ characters every computation of a motion on machine indices succeeds, and
what it gives is the range of the motion (`Motion.rangeChecked_eq_ok`).

A sweep over indices reads a stretch of the text character by character, so it finds what a function
on the list of these characters finds: an occurrence, the first non-blank, the partner of a bracket.
Sweeps go in both directions, so the lemmas about them take the indices as the image of `0, 1, …`
under any function. Indices, columns, line numbers and depths are bounded by the length of the text.
A count is bounded by `Count.limit`, so its sum with a line number and its product with the number
of lines stay far below the bound.
-/

namespace ModalEdit

variable {t : Text}

/-! ## Indices of a stretch -/

theorem indices_eq_map (start stop : Nat) :
    indices start stop = (List.range (stop - start)).map (start + ·) := by
  rw [indices, List.range'_eq_map_range]

theorem reverse_indices (start stop : Nat) :
    (indices start stop).reverse = (List.range (stop - start)).map (stop - 1 - ·) := by
  rw [indices, List.reverse_range']
  refine List.map_congr_left fun j hj => ?_
  have := List.mem_range.1 hj
  omega

namespace Text

theorem getElem?_slice {start stop j : Nat} (h : j < stop - start) :
    (t.slice start stop)[j]? = t[start + j]? := by
  rw [slice, List.getElem?_drop, List.getElem?_take_of_lt (by omega)]

theorem getElem?_reverse_slice {start stop j : Nat} (hstop : stop ≤ t.length)
    (h : j < stop - start) : (t.slice start stop).reverse[j]? = t[stop - 1 - j]? := by
  have hlen : (t.slice start stop).length = stop - start := by
    rw [length_slice, Nat.min_eq_left hstop]
  rw [List.getElem?_reverse (by omega), hlen, getElem?_slice (by omega)]
  congr 1
  omega

theorem lineEndChecked_eq_ok (ht : t.length < Index.bound) (l : Nat) :
    t.lineEndChecked l = .ok (t.lineEnd l) :=
  Index.add_eq_ok (Nat.lt_of_le_of_lt (t.lineEnd_le_length l) ht)

end Text

/-! ## Occurrences -/

theorem occurrences_cons (c d : Char) (cs : List Char) :
    occurrences c (d :: cs) =
      (if d = c then [0] else []) ++ (occurrences c cs).map (· + 1) := by
  unfold occurrences
  rw [List.zipIdx_cons', List.filterMap_cons, List.filterMap_map, List.map_filterMap]
  by_cases hd : d = c <;> simp [hd]

theorem occurrences_eq_filter (c : Char) (cs : List Char) :
    occurrences c cs = (List.range cs.length).filter (cs[·]? == some c) := by
  induction cs with
  | nil => rfl
  | cons d cs ih =>
    rw [occurrences_cons, ih, List.length_cons, List.range_succ_eq_map, List.filter_cons,
      List.filter_map]
    by_cases hd : d = c <;> simp [hd, Function.comp_def]

theorem nthOffset_lt {c : Char} {n j : Nat} {cs : List Char} (h : nthOffset c n cs = some j) :
    j < cs.length := by
  rw [nthOffset, occurrences_eq_filter] at h
  exact List.mem_range.1 (List.mem_filter.1 (List.mem_of_getElem? h)).1

/-- Occurrences sought index by index are the occurrences. -/
theorem filter_map_range (c : Char) {cs : List Char} {f : Nat → Nat}
    (hf : ∀ j < cs.length, cs[j]? = t[f j]?) :
    ((List.range cs.length).map f).filter (t[·]? == some c) = (occurrences c cs).map f := by
  rw [List.filter_map, occurrences_eq_filter]
  congr 1
  refine List.filter_congr fun j hj => ?_
  rw [Function.comp_apply, hf j (List.mem_range.1 hj)]

namespace Find

variable {f : Find} {pos : Position} {n : Nat}

/-- A search forward finds an index after the position, before the end of its line. -/
theorem hit_forward {hit : Nat} (hkind : f.kind.backward = false) (h : f.hit t pos n = some hit) :
    pos.index < hit ∧ hit < t.lineEnd pos.line := by
  rw [Find.hit, hkind, if_neg Bool.false_ne_true] at h
  obtain ⟨j, hj, rfl⟩ := Option.map_eq_some_iff.1 h
  have hlt := nthOffset_lt hj
  rw [Text.length_slice] at hlt
  omega

/-- A search backward finds an index before the position, from the start of its line on. -/
theorem hit_backward {hit : Nat} (hkind : f.kind.backward = true) (h : f.hit t pos n = some hit) :
    t.lineStart pos.line ≤ hit ∧ hit < pos.index := by
  rw [Find.hit, if_pos hkind] at h
  obtain ⟨j, hj, rfl⟩ := Option.map_eq_some_iff.1 h
  have hlt := nthOffset_lt hj
  rw [List.length_reverse, Text.length_slice] at hlt
  omega

theorem getElem?_hits_forward (hkind : f.kind.backward = false) :
    ((indices (pos.index + 1) (t.lineEnd pos.line)).filter (t[·]? == some f.char))[n - 1]? =
      f.hit t pos n := by
  have hend := t.lineEnd_le_length pos.line
  have hlen : t.lineEnd pos.line - (pos.index + 1) =
      (t.slice (pos.index + 1) (t.lineEnd pos.line)).length := by
    rw [Text.length_slice, Nat.min_eq_left hend]
  rw [hit, hkind, if_neg Bool.false_ne_true, nthOffset, indices_eq_map, hlen,
    filter_map_range _ fun j hj => Text.getElem?_slice (by omega), List.getElem?_map]

theorem getElem?_hits_backward (hkind : f.kind.backward = true) (hpos : pos.index ≤ t.length) :
    ((indices (t.lineStart pos.line) pos.index).reverse.filter (t[·]? == some f.char))[n - 1]? =
      f.hit t pos n := by
  have hlen : pos.index - t.lineStart pos.line =
      (t.slice (t.lineStart pos.line) pos.index).reverse.length := by
    rw [List.length_reverse, Text.length_slice, Nat.min_eq_left hpos]
  rw [hit, if_pos hkind, nthOffset, reverse_indices, hlen,
    filter_map_range _ fun j hj => Text.getElem?_reverse_slice hpos (by omega), List.getElem?_map]

/-- **A search index by index finds the occurrence.** -/
theorem rangeChecked_eq_ok (ht : t.length + 1 < Index.bound) (hpos : pos.index ≤ t.length)
    (hn : 1 ≤ n) : f.rangeChecked t pos n = .ok (f.range t pos n) := by
  unfold Find.rangeChecked Find.range
  rw [Text.lineEndChecked_eq_ok (by omega), Index.ok_bind, Index.sub_eq_ok hn]
  cases hkind : f.kind.backward with
  | false =>
    rw [Index.add_eq_ok (by omega)]
    simp only [Bool.false_eq_true, if_false, Index.ok_bind, getElem?_hits_forward hkind]
    cases hhit : f.hit t pos n with
    | none => rfl
    | some hit =>
      have hbounds := hit_forward hkind hhit
      cases htill : f.kind.till with
      | false => simp [FindKind.landing, htill, Range.inclusive]
      | true =>
        have hshort : Index.sub hit 1 = .ok (hit - 1) := Index.sub_eq_ok (by omega)
        simp [FindKind.landing, htill, hkind, Range.inclusive, hshort]
  | true =>
    simp only [if_true, Index.ok_bind, getElem?_hits_backward hkind hpos]
    cases hhit : f.hit t pos n with
    | none => rfl
    | some hit =>
      have hbounds := hit_backward hkind hhit
      cases htill : f.kind.till with
      | false => simp [FindKind.landing, htill, Range.exclusive]
      | true =>
        have hshort : Index.add hit 1 = .ok (hit + 1) := Index.add_eq_ok (by omega)
        simp [FindKind.landing, htill, hkind, Range.exclusive, hshort]

/-- Searching again makes at most one search more. -/
theorem rangeAgainChecked_eq_ok (ht : t.length + 1 < Index.bound) (hpos : pos.index ≤ t.length)
    (hn : 1 ≤ n) (hmore : n + 1 < Index.bound) :
    f.rangeAgainChecked t pos n = .ok (f.rangeAgain t pos n) := by
  unfold Find.rangeAgainChecked Find.rangeAgain
  rw [rangeChecked_eq_ok ht hpos hn, Index.ok_bind]
  cases f.range t pos n with
  | none => rfl
  | some range =>
    simp only [Option.bind_eq_bind, Option.bind_some]
    split
    · rw [Index.add_eq_ok hmore, Index.ok_bind, rangeChecked_eq_ok ht hpos (Nat.le_add_left 1 n)]
    · rfl

end Find

/-! ## Lines -/

namespace Text

theorem lastLine_le_length (t : Text) : t.lastLine ≤ t.length :=
  List.count_le_length

theorem line_eq_slice (t : Text) (l : Nat) : t.line l = t.slice (t.lineStart l) (t.lineEnd l) := by
  rw [slice, List.drop_take, lineEnd_eq, Nat.add_sub_cancel_left]
  exact List.prefix_iff_eq_take.1 (List.takeWhile_prefix _)

/-- The first index of a stretch whose character fails a test, sought index by index. -/
theorem find?_range (p : Char → Bool) {cs : List Char} {f : Nat → Nat}
    (hf : ∀ j < cs.length, cs[j]? = t[f j]?) :
    ((List.range cs.length).map f).find? (fun i => !t[i]?.any p) =
      if (cs.takeWhile p).length < cs.length then some (f (cs.takeWhile p).length) else none := by
  induction cs generalizing f with
  | nil => rfl
  | cons c cs ih =>
    have hhead : t[f 0]? = some c := (hf 0 (Nat.zero_lt_succ _)).symm
    rw [List.length_cons, List.range_succ_eq_map, List.map_cons, List.map_map, List.find?_cons,
      hhead]
    cases hp : p c with
    | false => simp [hp]
    | true =>
      have hrest := ih (f := f ∘ Nat.succ) fun j hj => hf (j + 1) (Nat.succ_lt_succ hj)
      simp [hp, hrest]

/-- **The first non-blank sought index by index is the first non-blank.** -/
theorem firstNonBlankChecked_eq_ok (ht : t.length < Index.bound) (l : Nat) :
    t.firstNonBlankChecked l = .ok (t.firstNonBlank l) := by
  have hlen : t.lineEnd l - t.lineStart l = (t.line l).length := by
    rw [lineEnd_eq, lineLength]
    omega
  have hf : ∀ j < (t.line l).length, (t.line l)[j]? = t[t.lineStart l + j]? := by
    intro j hj
    rw [line_eq_slice]
    exact getElem?_slice (by omega)
  unfold firstNonBlankChecked firstNonBlank
  rw [lineEndChecked_eq_ok ht, Index.ok_bind, indices_eq_map, hlen, find?_range isBlank hf,
    ← lineLength]
  dsimp only
  by_cases hindent : ((t.line l).takeWhile isBlank).length < t.lineLength l
  · rw [if_pos hindent, if_pos hindent]
    rfl
  · rw [if_neg hindent, if_neg hindent]
    rfl

theorem shiftedLine_up {line n : Nat} (hn : 1 ≤ n) :
    t.shiftedLine line (-n) = .ok (lineAbove line n) := by
  unfold shiftedLine lineAbove
  have hneg : (-n : Int) < 0 := by omega
  have hne : (-n : Int) ≠ 0 := by omega
  simp only [if_pos hneg, if_neg hne, Index.pure_eq_ok, Index.ok_bind]
  by_cases hroom : line = 0
  · rw [if_pos hroom, if_pos hroom]
  · rw [if_neg hroom, if_neg hroom, Index.sub_eq_ok (by omega), Index.ok_bind, Int.natAbs_neg,
      Int.natAbs_natCast]
    congr 2
    omega

theorem shiftedLine_down (ht : t.length < Index.bound) {line : Nat} (hline : line ≤ t.lastLine)
    (n : Nat) : t.shiftedLine line n = .ok (t.lineBelow line n) := by
  have hlast := t.lastLine_le_length
  unfold shiftedLine lineBelow
  have hpos : ¬(n : Int) < 0 := by omega
  by_cases hn : n = 0
  · simp [hn]
  · have hne : (n : Int) ≠ 0 := by omega
    simp only [if_neg hpos, if_neg hne, if_neg hn, Index.sub_eq_ok hline, Index.pure_eq_ok,
      Index.ok_bind]
    by_cases hroom : t.lastLine ≤ line
    · rw [if_pos (by omega), if_pos hroom]
    · rw [if_neg (by omega), if_neg hroom, Int.natAbs_natCast, Index.add_eq_ok (by omega),
        Index.ok_bind]
      congr 2
      omega

end Text

/-! ## Brackets -/

namespace Text

/-- **A bracket's partner sought index by index is its partner.** The depth never passes the number
of characters looked at. -/
theorem unmatchedAmong_eq_ok (opening close : Char) (depth : Nat) {cs : List Char}
    {f : Nat → Nat} {k : Nat} (hf : ∀ j < cs.length, cs[j]? = t[f (k + j)]?)
    (hdepth : depth + cs.length < Index.bound) :
    t.unmatchedAmong opening close depth ((List.range' k cs.length).map f) =
      .ok ((unmatchedAfter opening close k depth cs).map f) := by
  induction cs generalizing k depth with
  | nil => rfl
  | cons c cs ih =>
    have hhead : t[f k]? = some c := (hf 0 (Nat.zero_lt_succ _)).symm
    have htail : ∀ j < cs.length, cs[j]? = t[f (k + 1 + j)]? := by
      intro j hj
      rw [Nat.add_right_comm]
      exact hf (j + 1) (Nat.succ_lt_succ hj)
    rw [List.length_cons] at hdepth
    rw [List.length_cons, List.range'_succ, List.map_cons, unmatchedAmong, hhead,
      unmatchedAfter.eq_def]
    dsimp only
    by_cases hopens : c = opening
    · rw [if_pos hopens, if_pos hopens, Index.add_eq_ok (by omega), Index.ok_bind,
        ih _ htail (by omega)]
    · rw [if_neg hopens, if_neg hopens]
      by_cases hcloses : c = close
      · rw [if_pos hcloses, if_pos hcloses]
        cases depth with
        | zero => rfl
        | succ depth =>
          rw [if_neg (Nat.succ_ne_zero depth), Index.sub_eq_ok (by omega), Index.ok_bind,
            Nat.add_sub_cancel, ih _ htail (by omega)]
      · rw [if_neg hcloses, if_neg hcloses, ih _ htail (by omega)]

theorem findSome?_range {α : Type} (g : Char → Option α) {cs : List Char} {f : Nat → Nat}
    (hf : ∀ j < cs.length, cs[j]? = t[f j]?) :
    ((List.range cs.length).map f).findSome? (fun i => (t[i]?.bind g).map (i, ·)) =
      ((cs.findIdx? fun c => (g c).isSome).map f).bind fun i => (t[i]?.bind g).map (i, ·) := by
  induction cs generalizing f with
  | nil => rfl
  | cons c cs ih =>
    have hhead : t[f 0]? = some c := (hf 0 (Nat.zero_lt_succ _)).symm
    have hrest := ih (f := f ∘ Nat.succ) fun j hj => hf (j + 1) (Nat.succ_lt_succ hj)
    rw [List.length_cons, List.range_succ_eq_map, List.map_cons, List.map_map,
      List.findSome?_cons, hhead, Option.bind_some, List.findIdx?_cons]
    cases hg : g c with
    | none => simpa [hg, Function.comp_def] using hrest
    | some a => simp [hhead, hg]

theorem bracketFrom_eq (t : Text) (i : Nat) :
    t.bracketFrom i = (t.firstBracket i).bind fun j => (t[j]?.bind bracketPair).map (j, ·) := by
  have hlen : t.length - i = (t.drop i).length := List.length_drop.symm
  rw [bracketFrom, indices_eq_map, hlen, findSome?_range bracketPair fun j _ => List.getElem?_drop]
  rfl

theorem unmatchedAmong_after (ht : t.length < Index.bound) (opening close : Char) (i : Nat) :
    t.unmatchedAmong opening close 0 (indices i t.length) =
      .ok (t.unmatchedClose i opening close) := by
  have hlen : t.length - i = (t.drop i).length := List.length_drop.symm
  have hdrop : ∀ j < (t.drop i).length, (t.drop i)[j]? = t[id (i + j)]? := fun j _ =>
    List.getElem?_drop
  have hscan := unmatchedAmong_eq_ok opening close 0 hdrop (by omega)
  rw [List.map_id, Option.map_id] at hscan
  rw [indices, hlen, hscan]
  rfl

theorem unmatchedAmong_before (ht : t.length < Index.bound) (opening close : Char) {i : Nat}
    (hi : i ≤ t.length) :
    t.unmatchedAmong close opening 0 (indices 0 i).reverse =
      .ok (t.unmatchedOpen i opening close) := by
  have hlen : i = (t.backward i).length := by rw [length_backward, Nat.min_eq_left hi]
  have hback : ∀ j < (t.backward i).length, (t.backward i)[j]? = t[i - 1 - (0 + j)]? := by
    intro j hj
    rw [← hlen] at hj
    rw [Nat.zero_add]
    exact @getElem?_reverse_slice t 0 i j hi hj
  have hscan := unmatchedAmong_eq_ok close opening 0 hback (by omega)
  rw [← List.range_eq_range', ← hlen] at hscan
  rw [reverse_indices, Nat.sub_zero, hscan, unmatchedOpen, Nat.min_eq_left hi]

theorem partnerFrom_eq_ok (ht : t.length + 1 < Index.bound) (i : Nat) :
    t.partnerFrom i = .ok ((t.firstBracket i).bind t.partner) := by
  unfold partnerFrom
  rw [bracketFrom_eq]
  cases hfirst : t.firstBracket i with
  | none => rfl
  | some j =>
    simp only [Option.bind_some, partner]
    cases hc : t[j]? with
    | none => rfl
    | some c =>
      have hj := (List.getElem?_eq_some_iff.1 hc).1
      simp only [Option.bind_some, Option.bind_eq_bind]
      cases hpair : bracketPair c with
      | none => rfl
      | some pair =>
        obtain ⟨opening, close, opens⟩ := pair
        cases opens with
        | true =>
          simp only [Option.map_some, Option.bind_some, if_true]
          rw [Index.add_eq_ok (by omega), Index.ok_bind, unmatchedAmong_after (by omega)]
        | false =>
          simp only [Option.map_some, Option.bind_some, Bool.false_eq_true, if_false]
          rw [unmatchedAmong_before (by omega) _ _ (Nat.le_of_lt hj)]

end Text

/-! ## Positions -/

namespace Position

theorem ofIndexChecked_eq_ok (t : Text) (i : Nat) : ofIndexChecked t i = .ok (ofIndex t i) := by
  have hstart := t.lineStart_lineOf_le (min i t.length) (Nat.min_le_right _ _)
  rw [Text.lineOf_min_length] at hstart
  unfold ofIndexChecked
  simp only [Text.lineOf_min_length, Index.sub_eq_ok hstart, ofIndex_eq]
  rfl

theorem ofLineColChecked_eq_ok (ht : t.length < Index.bound) (line col : Nat) :
    ofLineColChecked t line col = .ok (ofLineCol t line col) := by
  have hindex := ofLineCol_index_le t line col
  unfold ofLineColChecked
  simp only [ofLineCol] at hindex ⊢
  rw [Index.add_eq_ok (by omega)]
  rfl

/-- Moves by less than the range of machine indices stay within it. -/
theorem moveByChecked_eq_ok (ht : t.length < Index.bound) {p : Position} {lines cols : Int}
    (hline : ((p.line : Int) + lines).natAbs < Index.bound / 2)
    (hcol : ((p.col : Int) + cols).natAbs < Index.bound / 2) (clamp : Bool) :
    p.moveByChecked t lines cols clamp = .ok (p.moveBy t lines cols clamp) := by
  unfold moveByChecked moveBy
  rw [Index.move_eq_ok (by omega) (by omega), Index.ok_bind]
  cases fit (p.line + lines) t.lastLine clamp with
  | none => rfl
  | some line =>
    dsimp only
    rw [Index.move_eq_ok (by omega) (by omega), Index.ok_bind]
    simp only [Option.bind_eq_bind, Option.bind_some]
    cases fit (p.col + cols) (t.lineLength line) clamp with
    | none => rfl
    | some col =>
      dsimp only
      rw [ofLineColChecked_eq_ok ht]
      rfl

/-- A coordinate that moves back is pulled to 0. -/
theorem fit_sub {x top n : Nat} (hx : x ≤ top) : fit (x + -n) top true = some (x - n) := by
  unfold fit
  split
  · congr 1
    omega
  · simp only [if_true]
    congr 1
    omega

/-- A coordinate that moves on is pulled to the top. -/
theorem fit_add (x top n : Nat) : fit (x + n) top true = some (min (x + n) top) := by
  unfold fit
  split
  · congr 1
    omega
  · simp only [if_true]
    congr 1
    omega

/-- A coordinate that does not move stays. -/
theorem fit_zero {x top : Nat} (hx : x ≤ top) : fit (x + 0) top true = some x := by
  simpa [Nat.min_eq_left hx] using fit_add x top 0

theorem moveBy_back {p : Position} (hline : p.line ≤ t.lastLine)
    (hcol : p.col ≤ t.lineLength p.line) (n : Nat) :
    p.moveBy t 0 (-n) true = some ⟨t.lineStart p.line + (p.col - n), p.line, p.col - n⟩ := by
  rw [moveBy, fit_zero hline]
  simp only [Option.bind_eq_bind, Option.bind_some, fit_sub hcol, ofLineCol,
    Nat.min_eq_left hline, Nat.min_eq_left (Nat.le_trans (Nat.sub_le _ n) hcol)]
  rfl

theorem moveBy_ahead {p : Position} (hline : p.line ≤ t.lastLine) (n : Nat) :
    p.moveBy t 0 n true =
      some ⟨t.lineStart p.line + min (p.col + n) (t.lineLength p.line), p.line,
        min (p.col + n) (t.lineLength p.line)⟩ := by
  rw [moveBy, fit_zero hline]
  simp only [Option.bind_eq_bind, Option.bind_some, fit_add, ofLineCol, Nat.min_eq_left hline,
    Nat.min_assoc, Nat.min_self]
  rfl

end Position

/-! ## Motions -/

namespace Motion

variable {pos : Position} {here n : Nat} {line : Option Nat} {delta : Int}

theorem toLineChecked_eq_ok (ht : t.length < Index.bound) (here line : Nat) :
    toLineChecked t here line = .ok (toLine t here (min line t.lastLine)) := by
  rw [toLineChecked, Text.firstNonBlankChecked_eq_ok ht]
  rfl

theorem verticalChecked_eq_ok (ht : t.length < Index.bound)
    (h : t.shiftedLine pos.line delta = .ok line) (preferred : Option PreferredColumn) :
    verticalChecked t pos delta preferred = .ok (line.map (toColumn t pos preferred)) := by
  rw [verticalChecked, h, Index.ok_bind]
  cases line with
  | none => rfl
  | some line =>
    have hcol := (preferred.getD (.column pos.col)).clamp_le (t.lastColumn line)
    have hlast := t.lastColumn_le_lineLength line
    have hend := t.lineEnd_le_length line
    rw [Text.lineEnd_eq] at hend
    dsimp only
    rw [Index.add_eq_ok (by omega)]
    rfl

theorem relativeLineChecked_eq_ok (ht : t.length < Index.bound)
    (h : t.shiftedLine pos.line delta = .ok line) :
    relativeLineChecked t pos delta = .ok (line.map (toLine t pos.index)) := by
  rw [relativeLineChecked, h, Index.ok_bind]
  cases line with
  | none => rfl
  | some line =>
    dsimp only
    rw [Text.firstNonBlankChecked_eq_ok ht]
    rfl

theorem lineOnChecked_eq_ok {line : Nat} (hn : 1 ≤ n) (h : line + n < Index.bound) :
    lineOnChecked t line n = .ok (min (line + (n - 1)) t.lastLine) := by
  rw [lineOnChecked, Index.add_eq_ok h, Index.ok_bind, Index.sub_eq_ok (by omega),
    ← Nat.add_sub_assoc hn]
  rfl

theorem toLineEndChecked_eq_ok (ht : t.length < Index.bound) (here line : Nat) :
    toLineEndChecked t here line =
      .ok (if t.lineLength line = 0 then .exclusive here (t.lineStart line)
        else .inclusive here (t.lineEnd line - 1)) := by
  unfold toLineEndChecked
  by_cases hempty : t.lineLength line = 0
  · rw [if_pos hempty, if_pos hempty]
    rfl
  · have hend : 1 ≤ t.lineEnd line := by rw [Text.lineEnd_eq]; omega
    rw [if_neg hempty, if_neg hempty, Text.lineEndChecked_eq_ok ht, Index.ok_bind,
      Index.sub_eq_ok hend]
    rfl

theorem percentLineChecked_eq_ok {percent : Nat} (h : percent * t.lineCount < Index.bound) :
    percentLineChecked t percent = .ok (percentLine t percent) := by
  rw [percentLineChecked, Index.mul_eq_ok h, Index.ok_bind, Index.sub_eq_ok (Nat.le_max_right _ _)]
  rfl

/-- **No motion leaves the range of machine indices.** -/
theorem rangeChecked_eq_ok (m : Motion) (ht : t.length < 2147483648) (ctx : MotionContext)
    {count : Nat} (hcount : count ≤ Count.limit) (cursor : Nat) :
    m.rangeChecked t ctx count cursor = .ok (m.range t ctx count cursor) := by
  have hbound : Index.bound = 18446744073709551616 := rfl
  have hlimit : Count.limit = 4294967295 := rfl
  have hlast := t.lastLine_le_length
  have hn : 1 ≤ max count 1 := Nat.le_max_right _ _
  have hnlimit : max count 1 ≤ 4294967295 := by omega
  have hpos := Position.isOf_ofIndex t cursor
  unfold rangeChecked range
  rw [Position.ofIndexChecked_eq_ok, Index.ok_bind]
  -- from here on only the bounds of the position and of the count matter
  generalize Position.ofIndex t cursor = pos at hpos
  have hindex := hpos.index_le
  have hline := hpos.line_le
  have hcol : pos.col ≤ pos.index := by rw [hpos.index_eq]; exact Nat.le_add_left _ _
  generalize max count 1 = n at hn hnlimit
  cases m with
  | left =>
    dsimp only
    rw [Position.moveByChecked_eq_ok (by omega) (by omega) (by omega), Index.ok_bind,
      Position.moveBy_back hline hpos.col_le]
    rfl
  | right =>
    dsimp only
    rw [Position.moveByChecked_eq_ok (by omega) (by omega) (by omega), Index.ok_bind,
      Position.moveBy_ahead hline]
    rfl
  | up => exact verticalChecked_eq_ok (by omega) (Text.shiftedLine_up hn) ctx.preferred
  | down =>
    exact verticalChecked_eq_ok (by omega) (Text.shiftedLine_down (by omega) hline n) ctx.preferred
  | lineStart => rfl
  | firstNonBlank =>
    dsimp only
    rw [Text.firstNonBlankChecked_eq_ok (by omega)]
    rfl
  | lineEnd =>
    dsimp only
    rw [lineOnChecked_eq_ok hn (by omega), Index.ok_bind, toLineEndChecked_eq_ok (by omega)]
    split <;> rfl
  | nextWord big =>
    dsimp only
    rw [Text.scanRepeat_nextStart (by omega) big n hindex, Index.ok_bind, Option.map_map]
    rfl
  | wordEnd big =>
    dsimp only
    rw [Text.scanRepeat_nextEnd (by omega) big n hindex, Index.ok_bind, Option.map_map]
    rfl
  | prevWord big =>
    dsimp only
    rw [Text.scanRepeat_prevStart (by omega) big n hindex, Index.ok_bind, Option.map_map]
    cases big <;> rfl
  | find f => exact Find.rangeChecked_eq_ok (by omega) hindex hn
  | repeatFind reverse =>
    cases hlastFind : ctx.lastFind with
    | none => rfl
    | some last => exact Find.rangeAgainChecked_eq_ok (by omega) hindex hn (by omega)
  | gotoLast =>
    by_cases hzero : count = 0
    · simp only [if_pos hzero, Index.pure_eq_ok, Index.ok_bind]
      rw [toLineChecked_eq_ok (by omega), Nat.min_self]
      rfl
    · simp only [if_neg hzero]
      rw [Index.sub_eq_ok (by omega), Index.ok_bind, toLineChecked_eq_ok (by omega)]
      rfl
  | gotoFirst =>
    dsimp only
    rw [toLineChecked_eq_ok (by omega)]
    rfl
  | lineUp => exact relativeLineChecked_eq_ok (by omega) (Text.shiftedLine_up hn)
  | lineDown =>
    exact relativeLineChecked_eq_ok (by omega) (Text.shiftedLine_down (by omega) hline n)
  | lineDownLess =>
    have hless : (n : Int) + -1 = (n - 1 : Nat) := by omega
    dsimp only
    rw [Index.move_eq_ok (by omega) (by omega), Index.ok_bind, hless]
    exact relativeLineChecked_eq_ok (by omega) (Text.shiftedLine_down (by omega) hline (n - 1))
  | percent =>
    by_cases hzero : count = 0
    · simp only [if_pos hzero]
      rw [Text.partnerFrom_eq_ok (by omega)]
      rfl
    · have hscaled : count * t.lineCount ≤ 4294967295 * 2147483648 :=
        Nat.mul_le_mul (by omega) (by rw [Text.lineCount_eq]; omega)
      simp only [if_neg hzero]
      rw [percentLineChecked_eq_ok (by omega), Index.ok_bind, toLineChecked_eq_ok (by omega)]
      rfl
  | mark name linewise =>
    dsimp only
    cases Named.get? ctx.marks name with
    | none => rfl
    | some p =>
      dsimp only [Option.map_some]
      rw [Position.ofLineColChecked_eq_ok (by omega), Index.ok_bind]
      cases linewise with
      | true =>
        rw [if_pos rfl, Text.firstNonBlankChecked_eq_ok (by omega)]
        rfl
      | false => rfl
  | jump target =>
    by_cases htarget : target < t.length
    · simp [htarget, Nat.not_le.2 htarget]
    · simp [htarget, Nat.not_lt.1 htarget]
  | wholeLines =>
    dsimp only
    rw [lineOnChecked_eq_ok hn (by omega)]
    rfl

end Motion

end ModalEdit
