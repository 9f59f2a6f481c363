import ModalEdit.Proofs.Positions
import ModalEdit.Edit

/-!
# Batches of edits

The edits of a batch are given by their places in one text and do not overlap. Making them from the
last one on keeps the places of the others (`applyAll`), and for edits that do not overlap there is
such an order (`exists_ordered`).

What a batch does to a part of the text is what it does there alone: edits behind an index leave the
text before it (`take_applyAll`), and edits before an index leave the text behind it
(`applyAll_append`). So a line that no edit touches stands between the edited text above it and the
edited text below it (`applyAll_untouched`). How many lines and characters are put in above it is
the sum of what the edits there gain (`measure_applyAll`).
-/

namespace ModalEdit

namespace Edit

variable {e : Edit} {edits : List Edit} {t u v : Text} {i n : Nat}

/-- The edits do not overlap: one stops where the other starts, or before. -/
def Disjoint (e f : Edit) : Prop := e.stop ≤ f.start ∨ f.stop ≤ e.start

/-- Every edit stops where the later ones start, or before. -/
def Ordered (edits : List Edit) : Prop := edits.Pairwise (·.stop ≤ ·.start)

/-- The text after some edits in their order, made from the last one on. -/
def applyAll (t : Text) (edits : List Edit) : Text := edits.foldr apply t

/-- A batch in any order leaves the text `after`: every edit is made at its place in `t`. -/
def Leave (edits : List Edit) (t after : Text) : Prop :=
  ∃ ordered : List Edit, ordered.Perm edits ∧ Ordered ordered ∧ after = applyAll t ordered

/-- The edit stands before another one, or at its start and stops no later. -/
def standsBefore (e f : Edit) : Bool := e.start < f.start || (e.start == f.start && e.stop ≤ f.stop)

/-- **Edits that do not overlap have an order.** -/
theorem exists_ordered (hends : ∀ e ∈ edits, e.start ≤ e.stop) (h : edits.Pairwise Disjoint) :
    ∃ ordered : List Edit, ordered.Perm edits ∧ Ordered ordered := by
  have hperm := List.mergeSort_perm edits standsBefore
  have hsorted := @List.pairwise_mergeSort _ standsBefore
    (fun e f g => by simp only [standsBefore, Bool.or_eq_true, Bool.and_eq_true,
      decide_eq_true_eq, beq_iff_eq]; omega)
    (fun e f => by simp only [standsBefore, Bool.or_eq_true, Bool.and_eq_true,
      decide_eq_true_eq, beq_iff_eq]; omega) edits
  have hdisjoint := (hperm.pairwise_iff fun {_ _} h => Or.symm h).2 h
  refine ⟨_, hperm, (hsorted.and hdisjoint).imp_of_mem ?_⟩
  rintro e f he hf ⟨hbefore, hef⟩
  have hendsE := hends e (hperm.mem_iff.1 he)
  have hendsF := hends f (hperm.mem_iff.1 hf)
  simp only [standsBefore, Bool.or_eq_true, Bool.and_eq_true, decide_eq_true_eq,
    beq_iff_eq] at hbefore
  rcases hef with hef | hef <;> omega

/-! ## Parts of the text -/

theorem take_apply (h : n ≤ e.start) (hn : n ≤ t.length) : (e.apply t).take n = t.take n := by
  have hlength : n ≤ (t.take e.start).length := by rw [List.length_take]; omega
  rw [apply, Text.splice, List.take_append_of_le_length hlength, List.take_take, Nat.min_eq_left h]

/-- **Edits behind an index leave the text before it.** -/
theorem take_applyAll (h : ∀ e ∈ edits, n ≤ e.start) (hn : n ≤ t.length) :
    (applyAll t edits).take n = t.take n := by
  induction edits with
  | nil => rfl
  | cons e edits ih =>
    have hrest := ih fun f hf => h f (List.mem_cons_of_mem e hf)
    have hlength : n ≤ (applyAll t edits).length := by
      have hlengths := congrArg List.length hrest
      rw [List.length_take, List.length_take] at hlengths
      omega
    exact (take_apply (h e List.mem_cons_self) hlength).trans hrest

theorem le_length_applyAll (h : ∀ e ∈ edits, n ≤ e.start) (hn : n ≤ t.length) :
    n ≤ (applyAll t edits).length := by
  have hlengths := congrArg List.length (take_applyAll h hn)
  rw [List.length_take, List.length_take] at hlengths
  omega

theorem apply_append (h : e.Within u.length) (v : Text) : e.apply (u ++ v) = e.apply u ++ v := by
  obtain ⟨hends, hstop⟩ := h
  rw [apply, apply, Text.splice, Text.splice, Nat.max_eq_right hends,
    List.take_append_of_le_length (Nat.le_trans hends hstop), List.drop_append_of_le_length hstop]
  simp only [List.append_assoc]

/-- **Edits before an index leave the text behind it.** -/
theorem applyAll_append (hordered : Ordered edits) (h : ∀ e ∈ edits, e.Within u.length)
    (v : Text) : applyAll (u ++ v) edits = applyAll u edits ++ v := by
  induction edits with
  | nil => rfl
  | cons e edits ih =>
    obtain ⟨hfirst, hrest⟩ := List.pairwise_cons.1 hordered
    obtain ⟨hends, hstop⟩ := h e List.mem_cons_self
    have hwithin : e.Within (applyAll u edits).length := ⟨hends, le_length_applyAll hfirst hstop⟩
    show e.apply (applyAll (u ++ v) edits) = _
    rw [ih hrest fun f hf => h f (List.mem_cons_of_mem e hf)]
    exact apply_append hwithin v

/-! ## What edits gain -/

/-- How much more an edit puts in than it takes out. -/
def gain (measure : Text → Nat) (t : Text) (e : Edit) : Int :=
  measure e.text - measure (t.slice e.start e.stop)

/-- How much edits gain before an index, taken together. -/
def gainBefore (measure : Text → Nat) (t : Text) (i : Nat) (edits : List Edit) : Int :=
  edits.foldr (fun e n => (if e.stop ≤ i then e.gain measure t else 0) + n) 0

section Gain

variable {measure : Text → Nat}

theorem gain_congr (h : t.take e.stop = u.take e.stop) : e.gain measure t = e.gain measure u := by
  unfold gain Text.slice
  rw [h]

theorem gainBefore_append (edits edits' : List Edit) :
    gainBefore measure t i (edits ++ edits') =
      gainBefore measure t i edits + gainBefore measure t i edits' := by
  induction edits with
  | nil => exact (Int.zero_add _).symm
  | cons e edits ih =>
    simp only [gainBefore, List.cons_append, List.foldr_cons] at ih ⊢
    rw [ih, Int.add_assoc]

theorem gainBefore_perm {edits' : List Edit} (h : edits.Perm edits') :
    gainBefore measure t i edits = gainBefore measure t i edits' := by
  induction h with
  | nil => rfl
  | cons e _ ih =>
    simp only [gainBefore, List.foldr_cons] at ih ⊢
    rw [ih]
  | swap e f edits =>
    simp only [gainBefore, List.foldr_cons]
    omega
  | trans _ _ ih ih' => exact ih.trans ih'

theorem gainBefore_eq_zero (h : ∀ e ∈ edits, i < e.stop) : gainBefore measure t i edits = 0 := by
  induction edits with
  | nil => rfl
  | cons e edits ih =>
    have hrest := ih fun f hf => h f (List.mem_cons_of_mem e hf)
    simp only [gainBefore, List.foldr_cons] at hrest ⊢
    rw [hrest, if_neg (Nat.not_le.2 (h e List.mem_cons_self))]
    rfl

theorem gainBefore_congr (h : ∀ e ∈ edits, t.take e.stop = u.take e.stop) :
    gainBefore measure t i edits = gainBefore measure u i edits := by
  induction edits with
  | nil => rfl
  | cons e edits ih =>
    have hrest := ih fun f hf => h f (List.mem_cons_of_mem e hf)
    simp only [gainBefore, List.foldr_cons] at hrest ⊢
    rw [hrest, gain_congr (h e List.mem_cons_self)]

variable (hadd : ∀ u v : Text, measure (u ++ v) = measure u + measure v)

include hadd in
theorem measure_apply (h : e.Within t.length) :
    (measure (e.apply t) : Int) = measure t + e.gain measure t := by
  obtain ⟨hends, -⟩ := h
  have hparts := congrArg measure (Text.take_append_between_append_drop hends t)
  rw [hadd, hadd] at hparts
  rw [apply, Text.splice, Nat.max_eq_right hends, hadd, hadd, gain, Text.slice]
  omega

include hadd in
/-- **A batch before an index gains what its edits gain together.** -/
theorem measure_applyAll (hordered : Ordered edits) (h : ∀ e ∈ edits, e.Within t.length)
    (hi : ∀ e ∈ edits, e.stop ≤ i) :
    (measure (applyAll t edits) : Int) = measure t + gainBefore measure t i edits := by
  induction edits with
  | nil => exact (Int.add_zero _).symm
  | cons e edits ih =>
    obtain ⟨hfirst, hrest⟩ := List.pairwise_cons.1 hordered
    obtain ⟨hends, hstop⟩ := h e List.mem_cons_self
    have htake := take_applyAll hfirst hstop
    have hwithin : e.Within (applyAll t edits).length := ⟨hends, le_length_applyAll hfirst hstop⟩
    have hedits := ih hrest (fun f hf => h f (List.mem_cons_of_mem e hf))
      fun f hf => hi f (List.mem_cons_of_mem e hf)
    show (measure (e.apply (applyAll t edits)) : Int) = _
    rw [measure_apply hadd hwithin, hedits, gain_congr htake]
    simp only [gainBefore, List.foldr_cons, if_pos (hi e List.mem_cons_self)]
    omega

end Gain

/-! ## A line that no edit touches -/

/-- The edit touches other lines than `l` only: its ends are both above that line or both below. -/
def Avoids (e : Edit) (t : Text) (l : Nat) : Prop := t.lineOf e.stop < l ∨ l < t.lineOf e.start

section Avoids

variable {l : Nat}

theorem exists_above_below (hends : ∀ e ∈ edits, e.start ≤ e.stop) (hordered : Ordered edits)
    (h : ∀ e ∈ edits, e.Avoids t l) :
    ∃ above below, edits = above ++ below ∧ (∀ e ∈ above, t.lineOf e.stop < l) ∧
      ∀ e ∈ below, l < t.lineOf e.start := by
  induction edits with
  | nil => exact ⟨[], [], rfl, by simp, by simp⟩
  | cons e edits ih =>
    obtain ⟨hfirst, hrest⟩ := List.pairwise_cons.1 hordered
    rcases h e List.mem_cons_self with habove | hbelow
    · obtain ⟨above, below, rfl, hsplit⟩ := ih (fun f hf => hends f (List.mem_cons_of_mem e hf))
        hrest fun f hf => h f (List.mem_cons_of_mem e hf)
      refine ⟨e :: above, below, rfl, ?_, hsplit.2⟩
      exact List.forall_mem_cons.2 ⟨habove, hsplit.1⟩
    · -- Everything after an edit below the line is below it too.
      refine ⟨[], e :: edits, rfl, by simp, List.forall_mem_cons.2 ⟨hbelow, fun f hf => ?_⟩⟩
      have hstarts := Nat.le_trans (hends e List.mem_cons_self) (hfirst f hf)
      exact Nat.lt_of_lt_of_le hbelow (t.lineOf_mono hstarts)

theorem stop_lt_of_above (hl : l ≤ t.lastLine) (h : t.lineOf e.stop < l) :
    e.stop < t.lineStart l := by
  refine Nat.lt_of_not_le fun hle => ?_
  have hlines := t.lineOf_mono hle
  rw [Text.lineOf_lineStart hl] at hlines
  exact Nat.lt_irrefl _ (Nat.lt_of_lt_of_le h hlines)

theorem lt_start_of_below (hwithin : e.Within t.length) (h : l < t.lineOf e.start) :
    t.lineEnd l < e.start :=
  calc t.lineEnd l < t.lineStart (t.lineOf e.start) :=
        Text.lineEnd_lt_lineStart h (t.lineOf_le_lastLine _)
    _ ≤ e.start := t.lineStart_lineOf_le _ (Nat.le_trans hwithin.1 hwithin.2)

/-- **Edits below a line** leave the text above it, the line itself and the break that ends it. -/
theorem applyAll_below (hwithin : ∀ e ∈ edits, e.Within t.length)
    (h : ∀ e ∈ edits, l < t.lineOf e.start) :
    ∃ rest, applyAll t edits = t.take (t.lineStart l) ++ rest ∧
      rest.take (t.lineLength l + 1) =
        (t.drop (t.lineStart l)).take (t.lineLength l + 1) := by
  have htake : (applyAll t edits).take (t.lineEnd l + 1) = t.take (t.lineEnd l + 1) := by
    cases edits with
    | nil => rfl
    | cons e edits =>
      have hstart := fun f hf => lt_start_of_below (hwithin f hf) (h f hf)
      obtain ⟨hends, hstop⟩ := hwithin e List.mem_cons_self
      have hfirst := hstart e List.mem_cons_self
      exact take_applyAll hstart (by omega)
  refine ⟨(applyAll t edits).drop (t.lineStart l), ?_, ?_⟩
  · have hfront := congrArg (List.take (t.lineStart l)) htake
    have hle : t.lineStart l ≤ t.lineEnd l + 1 := Nat.le_succ_of_le (t.lineStart_le_lineEnd l)
    rw [List.take_take, List.take_take, Nat.min_eq_left hle] at hfront
    rw [← hfront, List.take_append_drop]
  · have hrest := congrArg (List.drop (t.lineStart l)) htake
    have hlength : t.lineEnd l + 1 - t.lineStart l = t.lineLength l + 1 := by
      simp only [Text.lineEnd]
      omega
    rwa [List.drop_take, List.drop_take, hlength] at hrest

/-- **Edits above a line** leave whole lines there and everything from that line on. -/
theorem applyAll_above (hl : l ≤ t.lastLine) (hordered : Ordered edits)
    (hwithin : ∀ e ∈ edits, e.Within t.length) (h : ∀ e ∈ edits, t.lineOf e.stop < l)
    (hi : ∀ e ∈ edits, e.stop ≤ i) :
    ∃ above, (∀ line ∈ above, '\n' ∉ line) ∧
      (∀ rest, applyAll (t.take (t.lineStart l) ++ rest) edits = Text.ofLines above ++ rest) ∧
      ∀ measure : Text → Nat, (∀ u v : Text, measure (u ++ v) = measure u + measure v) →
        (measure (Text.ofLines above) : Int) =
          measure (t.take (t.lineStart l)) + gainBefore measure t i edits := by
  rcases Nat.eq_zero_or_pos l with rfl | hpos
  · -- No line is above the first one.
    obtain rfl : edits = [] :=
      List.eq_nil_iff_forall_not_mem.2 fun e he => Nat.not_lt_zero _ (h e he)
    refine ⟨[], by simp, fun rest => by simp [applyAll], fun measure _ => by simp [gainBefore]⟩
  · -- The edits are made in the text `u` of the lines above, whose last line break is left alone.
    obtain ⟨u, hu⟩ := Text.ofLines_eq_append_lineBreak (Text.take_lines_ne_nil (t := t) hpos)
    rw [← Text.take_lineStart hl] at hu
    have hlength : t.lineStart l = u.length + 1 := by
      rw [← List.length_take_of_le (t.lineStart_le_length l), hu, List.length_append,
        List.length_singleton]
    have hstop : ∀ e ∈ edits, e.stop ≤ u.length := by
      intro e he
      have hlt := stop_lt_of_above hl (h e he)
      omega
    have hwithinU : ∀ e ∈ edits, e.Within u.length := fun e he => ⟨(hwithin e he).1, hstop e he⟩
    refine ⟨(applyAll u edits).lines, fun _ => Text.lineBreak_notMem_of_mem_lines,
      fun rest => ?_, fun measure hadd => ?_⟩
    · rw [hu, List.append_assoc, applyAll_append hordered hwithinU, Text.ofLines_lines,
        List.append_assoc]
    · have hsame : ∀ e ∈ edits, t.take e.stop = u.take e.stop := by
        intro e he
        have hle : e.stop ≤ t.lineStart l := Nat.le_of_lt (stop_lt_of_above hl (h e he))
        rw [← Nat.min_eq_left hle, ← List.take_take, hu, Nat.min_eq_left hle,
          List.take_append_of_le_length (hstop e he)]
      have hgain := measure_applyAll hadd hordered hwithinU hi
      rw [Text.ofLines_lines, hadd, hu, hadd, gainBefore_congr hsame]
      omega

/-- **A line that no edit touches stands below whole lines, which gain what the edits above it
gain**, and the text from it on is the same up to the break that ends it. -/
theorem applyAll_untouched (hi : i ≤ t.length) (hline : t.lineOf i = l) (hordered : Ordered edits)
    (hwithin : ∀ e ∈ edits, e.Within t.length) (h : ∀ e ∈ edits, e.Avoids t l) :
    ∃ above rest, applyAll t edits = Text.ofLines above ++ rest ∧
      (∀ line ∈ above, '\n' ∉ line) ∧
      (∀ measure : Text → Nat, (∀ u v : Text, measure (u ++ v) = measure u + measure v) →
        (measure (Text.ofLines above) : Int) =
          measure (t.take (t.lineStart l)) + gainBefore measure t i edits) ∧
      rest.take (t.lineLength l + 1) = (t.drop (t.lineStart l)).take (t.lineLength l + 1) := by
  obtain ⟨editsAbove, editsBelow, rfl, habove, hbelow⟩ :=
    exists_above_below (fun e he => (hwithin e he).1) hordered h
  obtain ⟨hordered, -, -⟩ := List.pairwise_append.1 hordered
  obtain ⟨hwithinAbove, hwithinBelow⟩ := List.forall_mem_append.1 hwithin
  have hlast : l ≤ t.lastLine := hline ▸ t.lineOf_le_lastLine i
  have hstart : t.lineStart l ≤ i := hline ▸ t.lineStart_lineOf_le i hi
  have hend : i ≤ t.lineEnd l := hline ▸ Text.le_lineEnd_lineOf hi
  have hstopAbove : ∀ e ∈ editsAbove, e.stop ≤ i := fun e he =>
    Nat.le_trans (Nat.le_of_lt (stop_lt_of_above hlast (habove e he))) hstart
  have hstopBelow : ∀ e ∈ editsBelow, i < e.stop := by
    intro e he
    have hbegin := lt_start_of_below (hwithinBelow e he) (hbelow e he)
    exact Nat.lt_of_le_of_lt hend (Nat.lt_of_lt_of_le hbegin (hwithinBelow e he).1)
  -- the edits below are made first, and those above in what they leave
  obtain ⟨rest, hfront, hrest⟩ := applyAll_below hwithinBelow hbelow
  obtain ⟨above, hbreaks, hedited, hgain⟩ :=
    applyAll_above hlast hordered hwithinAbove habove hstopAbove
  refine ⟨above, rest, ?_, hbreaks, fun measure hadd => ?_, hrest⟩
  · rw [applyAll, List.foldr_append, ← applyAll, ← applyAll, hfront, hedited]
  · rw [gainBefore_append, gainBefore_eq_zero hstopBelow, Int.add_zero, hgain measure hadd]

end Avoids

end Edit

end ModalEdit
