import ModalEdit.Proofs.CheckedMotion

/-!
# Where motions lead

A motion starts at the cursor, or at the end of the text if the cursor is past it, and lands in the
text: on a character if that character is taken in, and on a line if whole lines are
(`Range.LandsIn`). It does so for every count, cursor, mark, search and preferred column, because
each motion clamps the line it goes to, and each search looks at a stretch of the text. The motions
that stay on a line land between its start and its end.

No motion leaves the range of machine indices on the way (`rangeChecked_landsIn`).
-/

namespace ModalEdit

variable {t : Text} {cursor l i : Nat}

/-- The range starts at the cursor and ends in the text: on a character if it takes that in, on a
line if it takes in lines. -/
structure Range.LandsIn (r : Range) (t : Text) (cursor : Nat) : Prop where
  start_eq : r.start = min cursor t.length
  stop_le : r.stop ≤ t.length
  stop_lt : r.extent = .inclusive → r.stop < t.length
  onLine : r.extent = .linewise → ∃ l ≤ t.lastLine, t.lineStart l ≤ r.stop ∧ r.stop ≤ t.lineEnd l

/-- The motions that never leave the line of the cursor. -/
def Motion.staysOnLine (count : Nat) : Motion → Bool
  | .left | .right | .lineStart | .firstNonBlank | .find _ | .repeatFind _ => true
  | .lineEnd => count ≤ 1
  | _ => false

namespace Range

theorem landsIn_exclusive (h : i ≤ t.length) :
    (exclusive (min cursor t.length) i).LandsIn t cursor :=
  ⟨rfl, h, nofun, nofun⟩

theorem landsIn_inclusive (h : i < t.length) :
    (inclusive (min cursor t.length) i).LandsIn t cursor :=
  ⟨rfl, Nat.le_of_lt h, fun _ => h, nofun⟩

theorem landsIn_linewise (hl : l ≤ t.lastLine) {k : Nat} (hk : k ≤ t.lineLength l) :
    (linewise (min cursor t.length) (t.lineStart l + k)).LandsIn t cursor := by
  have hend := t.lineEnd_le_length l
  rw [Text.lineEnd_eq] at hend
  refine ⟨rfl, ?_, nofun, fun _ => ⟨l, hl, Nat.le_add_right _ _, ?_⟩⟩
  · exact Nat.le_trans (Nat.add_le_add_left hk _) hend
  · exact Nat.add_le_add_left hk _

end Range

/-! ## Lines -/

namespace Text

theorem lineAbove_le {line n : Nat} (h : lineAbove line n = some l) : l ≤ line := by
  simp only [lineAbove, Option.ite_none_left_eq_some, Option.some.injEq] at h
  omega

theorem lineBelow_le {line n : Nat} (hline : line ≤ t.lastLine) (h : t.lineBelow line n = some l) :
    l ≤ t.lastLine := by
  unfold lineBelow at h
  split at h
  · cases h
    exact hline
  · split at h
    · cases h
    · cases h
      exact Nat.min_le_right _ _

end Text

namespace Motion

theorem landsIn_toLine (hl : l ≤ t.lastLine) :
    (toLine t (min cursor t.length) l).LandsIn t cursor := by
  obtain ⟨k, hk, hfirst⟩ := t.firstNonBlank_eq_add l
  rw [toLine, hfirst]
  exact Range.landsIn_linewise hl (Nat.le_trans hk (t.lastColumn_le_lineLength l))

theorem landsIn_toColumn (hl : l ≤ t.lastLine) (preferred : Option PreferredColumn) :
    (toColumn t (Position.ofIndex t cursor) preferred l).LandsIn t cursor := by
  rw [toColumn, Position.ofIndex_index]
  exact Range.landsIn_linewise hl
    (Nat.le_trans (PreferredColumn.clamp_le _ _) (t.lastColumn_le_lineLength l))

/-- A range to the end of a line takes its last character in, if it has one. -/
theorem landsIn_lineEnd (t : Text) (cursor l : Nat) :
    (if t.lineLength l = 0 then Range.exclusive (min cursor t.length) (t.lineStart l)
      else Range.inclusive (min cursor t.length) (t.lineEnd l - 1)).LandsIn t cursor := by
  by_cases hempty : t.lineLength l = 0
  · rw [if_pos hempty]
    exact Range.landsIn_exclusive (t.lineStart_le_length l)
  · have hlength := t.lineEnd_le_length l
    rw [if_neg hempty]
    refine Range.landsIn_inclusive ?_
    rw [Text.lineEnd_eq] at hlength ⊢
    omega

end Motion

/-! ## Words -/

namespace Motion

variable {big : Bool} {n k : Nat}

theorem landsIn_nextWord
    (hk : stepRepeat (toNextStart big) n (t.drop (min cursor t.length)) = some k) :
    (Range.exclusive (min cursor t.length) (min cursor t.length + k)).LandsIn t cursor := by
  have hlength := stepRepeat_add_le 0 (fun _ _ => toNextStart_le) hk
  rw [List.length_drop] at hlength
  exact Range.landsIn_exclusive (by omega)

theorem landsIn_wordEnd
    (hk : stepRepeat (toNextEnd big) n (t.drop (min cursor t.length)) = some k) :
    (Range.inclusive (min cursor t.length) (min cursor t.length + k)).LandsIn t cursor := by
  have hlength := stepRepeat_add_le 1 (fun _ _ => toNextEnd_lt) hk
  rw [List.length_drop] at hlength
  exact Range.landsIn_inclusive (by omega)

/-- A step back moves, so it lands on a character even from the end of the text. -/
theorem landsIn_prevWord
    (hk : stepRepeat (toPrevStart big) n (t.backward (min cursor t.length)) = some k) :
    (if big then Range.inclusive (min cursor t.length) (min cursor t.length - k)
      else Range.exclusive (min cursor t.length) (min cursor t.length - k)).LandsIn t cursor := by
  have hmoves := le_stepRepeat (fun _ _ => toPrevStart_pos) hk
  have hlength := stepRepeat_add_le 0 (fun _ _ => toPrevStart_le) hk
  rw [Text.length_backward] at hlength
  cases big with
  | false => exact Range.landsIn_exclusive (by omega)
  | true => exact Range.landsIn_inclusive (by omega)

end Motion

/-! ## Brackets -/

theorem unmatchedAfter_lt {opening close : Char} {k depth : Nat} {cs : List Char}
    (h : unmatchedAfter opening close k depth cs = some i) : i < k + cs.length := by
  induction cs generalizing k depth with
  | nil => cases h
  | cons c cs ih =>
    have hrest : ∀ {depth}, unmatchedAfter opening close (k + 1) depth cs = some i →
        i < k + (cs.length + 1) := by
      intro depth hi
      have := ih hi
      omega
    rw [unmatchedAfter.eq_def] at h
    dsimp only at h
    rw [List.length_cons]
    split at h
    · exact hrest h
    · split at h
      · cases depth with
        | zero =>
          cases h
          omega
        | succ depth => exact hrest h
      · exact hrest h

theorem Text.partner_lt (h : t.partner i = some l) : l < t.length := by
  simp only [Text.partner, Option.bind_eq_bind, Option.bind_eq_some_iff] at h
  obtain ⟨c, hc, ⟨opening, close, opens⟩, -, h⟩ := h
  have hi := (List.getElem?_eq_some_iff.1 hc).1
  cases opens with
  | true =>
    simp only [if_true, Text.unmatchedClose] at h
    have hlt := unmatchedAfter_lt h
    rw [List.length_drop] at hlt
    omega
  | false =>
    simp only [Bool.false_eq_true, if_false, Text.unmatchedOpen] at h
    obtain ⟨j, -, rfl⟩ := Option.map_eq_some_iff.1 h
    omega

/-! ## Searches -/

theorem Find.landing_mem {f : Find} {pos : Position} {n hit : Nat} (hpos : pos.IsOf t)
    (h : f.hit t pos n = some hit) :
    t.lineStart pos.line ≤ f.kind.landing hit ∧ f.kind.landing hit ≤ t.lineEnd pos.line ∧
      (f.kind.backward = false → f.kind.landing hit < t.lineEnd pos.line) := by
  have hstart : t.lineStart pos.line ≤ pos.index := by
    rw [hpos.index_eq]
    exact Nat.le_add_right _ _
  have hend : pos.index ≤ t.lineEnd pos.line := by
    rw [hpos.index_eq, Text.lineEnd_eq]
    exact Nat.add_le_add_left hpos.col_le _
  unfold FindKind.landing
  cases hkind : f.kind.backward with
  | false =>
    have hhit := hit_forward hkind h
    cases f.kind.till <;> simp <;> omega
  | true =>
    have hhit := hit_backward hkind h
    cases f.kind.till <;> simp <;> omega

theorem Find.range_landsIn {f : Find} {n : Nat} {r : Range}
    (h : f.range t (Position.ofIndex t cursor) n = some r) :
    r.LandsIn t cursor ∧ t.lineOf r.stop = t.lineOf cursor := by
  obtain ⟨hit, hhit, rfl⟩ := Option.map_eq_some_iff.1 h
  obtain ⟨hstart, hend, hinclusive⟩ := landing_mem (Position.isOf_ofIndex t cursor) hhit
  have hlength := t.lineEnd_le_length (Position.ofIndex t cursor).line
  refine ⟨⟨Position.ofIndex_index t cursor, Nat.le_trans hend hlength, ?_, ?_⟩, ?_⟩
  · intro hextent
    cases hkind : f.kind.backward with
    | false => exact Nat.lt_of_lt_of_le (hinclusive hkind) hlength
    | true => simp [hkind] at hextent
  · intro hextent
    cases hkind : f.kind.backward <;> simp [hkind] at hextent
  · rw [Position.ofIndex_line] at hstart hend
    exact (Text.lineOf_eq_iff (t.lineOf_le_lastLine cursor)
      (Nat.le_trans hend (t.lineEnd_le_length _))).2 ⟨hstart, hend⟩

theorem Find.rangeAgain_landsIn {f : Find} {n : Nat} {r : Range}
    (h : f.rangeAgain t (Position.ofIndex t cursor) n = some r) :
    r.LandsIn t cursor ∧ t.lineOf r.stop = t.lineOf cursor := by
  obtain ⟨first, hfirst, h⟩ := Option.bind_eq_some_iff.1 h
  split at h
  · exact range_landsIn h
  · cases h
    exact range_landsIn hfirst

/-! ## Motions -/

namespace Motion

variable {m : Motion} {ctx : MotionContext} {count : Nat} {r : Range}

/-- **Every motion lands in the text.** -/
theorem range_landsIn (h : m.range t ctx count cursor = some r) : r.LandsIn t cursor := by
  have hpos := Position.isOf_ofIndex t cursor
  have hline := hpos.line_le
  have hcol := hpos.col_le
  have hend := t.lineEnd_le_length (Position.ofIndex t cursor).line
  rw [Text.lineEnd_eq] at hend
  unfold range at h
  simp only [Position.ofIndex_index] at h
  -- a motion lands by character, by column on another line, by line, or where a search ends
  cases m with
  | left =>
    cases h
    exact Range.landsIn_exclusive (by omega)
  | right =>
    cases h
    exact Range.landsIn_exclusive (by omega)
  | up =>
    obtain ⟨l, hl, rfl⟩ := Option.map_eq_some_iff.1 h
    exact landsIn_toColumn (Nat.le_trans (Text.lineAbove_le hl) hline) ctx.preferred
  | down =>
    obtain ⟨l, hl, rfl⟩ := Option.map_eq_some_iff.1 h
    exact landsIn_toColumn (Text.lineBelow_le hline hl) ctx.preferred
  | lineStart =>
    cases h
    exact Range.landsIn_exclusive (t.lineStart_le_length _)
  | firstNonBlank =>
    cases h
    exact Range.landsIn_exclusive (t.firstNonBlank_le_length _)
  | lineEnd =>
    rw [← apply_ite some] at h
    cases h
    exact landsIn_lineEnd t cursor _
  | nextWord big =>
    obtain ⟨k, hk, rfl⟩ := Option.map_eq_some_iff.1 h
    exact landsIn_nextWord hk
  | wordEnd big =>
    obtain ⟨k, hk, rfl⟩ := Option.map_eq_some_iff.1 h
    exact landsIn_wordEnd hk
  | prevWord big =>
    obtain ⟨k, hk, rfl⟩ := Option.map_eq_some_iff.1 h
    exact landsIn_prevWord hk
  | find f => exact (Find.range_landsIn h).1
  | repeatFind reverse =>
    obtain ⟨last, -, h⟩ := Option.bind_eq_some_iff.1 h
    exact (Find.rangeAgain_landsIn h).1
  | gotoLast =>
    cases h
    refine landsIn_toLine ?_
    split
    · exact Nat.le_refl _
    · exact Nat.min_le_right _ _
  | gotoFirst =>
    cases h
    exact landsIn_toLine (Nat.min_le_right _ _)
  | lineUp =>
    obtain ⟨l, hl, rfl⟩ := Option.map_eq_some_iff.1 h
    exact landsIn_toLine (Nat.le_trans (Text.lineAbove_le hl) hline)
  | lineDown =>
    obtain ⟨l, hl, rfl⟩ := Option.map_eq_some_iff.1 h
    exact landsIn_toLine (Text.lineBelow_le hline hl)
  | lineDownLess =>
    obtain ⟨l, hl, rfl⟩ := Option.map_eq_some_iff.1 h
    exact landsIn_toLine (Text.lineBelow_le hline hl)
  | percent =>
    dsimp only at h
    split at h
    · obtain ⟨l, hl, rfl⟩ := Option.map_eq_some_iff.1 h
      obtain ⟨i, -, hpartner⟩ := Option.bind_eq_some_iff.1 hl
      exact Range.landsIn_inclusive (Text.partner_lt hpartner)
    · cases h
      exact landsIn_toLine (Nat.min_le_right _ _)
  | mark name linewise =>
    obtain ⟨p, -, rfl⟩ := Option.map_eq_some_iff.1 h
    cases linewise with
    | true => exact landsIn_toLine (Position.isOf_ofLineCol t p.line p.col).line_le
    | false => exact Range.landsIn_exclusive (Position.ofLineCol_index_le t p.line p.col)
  | jump target =>
    obtain ⟨htarget, h⟩ := Option.ite_none_right_eq_some.1 h
    cases h
    exact Range.landsIn_inclusive htarget
  | wholeLines =>
    cases h
    exact Range.landsIn_linewise (k := 0) (Nat.min_le_right _ _) (Nat.zero_le _)

/-- **A motion that stays on a line lands on the line of the cursor.** -/
theorem lineOf_stop (hm : m.staysOnLine count = true) (h : m.range t ctx count cursor = some r) :
    t.lineOf r.stop = t.lineOf cursor := by
  have hpos := Position.isOf_ofIndex t cursor
  have hline := t.lineOf_le_lastLine cursor
  have hcol := hpos.col_le
  rw [Position.ofIndex_line] at hcol
  unfold range at h
  simp only [Position.ofIndex_line] at h
  cases m with
  | left =>
    cases h
    exact Text.lineOf_lineStart_add hline (Nat.le_trans (Nat.sub_le _ _) hcol)
  | right =>
    cases h
    exact Text.lineOf_lineStart_add hline (Nat.min_le_right _ _)
  | lineStart =>
    cases h
    exact Text.lineOf_lineStart hline
  | firstNonBlank =>
    cases h
    exact Text.lineOf_firstNonBlank hline
  | lineEnd =>
    have hcount : count ≤ 1 := of_decide_eq_true hm
    have hstay : min (t.lineOf cursor + (max count 1 - 1)) t.lastLine = t.lineOf cursor := by omega
    dsimp only at h
    rw [hstay] at h
    by_cases hempty : t.lineLength (t.lineOf cursor) = 0
    · rw [if_pos hempty] at h
      cases h
      exact Text.lineOf_lineStart hline
    · rw [if_neg hempty] at h
      cases h
      dsimp only [Range.inclusive]
      rw [Text.lineEnd_eq, Nat.add_sub_assoc (Nat.pos_of_ne_zero hempty)]
      exact Text.lineOf_lineStart_add hline (Nat.sub_le _ 1)
  | find f => exact (Find.range_landsIn h).2
  | repeatFind reverse =>
    obtain ⟨last, -, h⟩ := Option.bind_eq_some_iff.1 h
    exact (Find.rangeAgain_landsIn h).2
  | _ => cases hm

/-- **Motions on machine indices never fault, and they land in the text.** In a text of less than
2³¹ characters, no computation of a motion leaves the range of machine indices, whatever the cursor,
the count, the marks, the last search and the preferred column. The range it gives, if any, starts
at the cursor and lands in the text, and on the cursor's line for a motion that stays there. -/
theorem rangeChecked_landsIn (m : Motion) (ht : t.length < 2147483648) (ctx : MotionContext)
    (hcount : count ≤ Count.limit) (cursor : Nat) :
    m.rangeChecked t ctx count cursor = .ok (m.range t ctx count cursor) ∧
      ∀ r, m.range t ctx count cursor = some r →
        r.LandsIn t cursor ∧ (m.staysOnLine count = true → t.lineOf r.stop = t.lineOf cursor) :=
  ⟨rangeChecked_eq_ok m ht ctx hcount cursor,
    fun _ h => ⟨range_landsIn h, fun hm => lineOf_stop hm h⟩⟩

/-- `$` with the largest count ends on the last character, and a mark far outside the text leads to
the last line from a cursor far outside it. -/
theorem rangeChecked_landsIn_clamped :
    let t : Text := ['a', 'b', '\n', 'c', 'd']
    let far := 18446744073709551615
    let ctx : MotionContext := { marks := Named.empty.set 'm' ⟨far, far, far⟩ }
    t.length < 2147483648 ∧
      lineEnd.rangeChecked t ctx Count.limit 0 = .ok (some (.inclusive 0 4)) ∧
      (Range.inclusive 0 4).LandsIn t 0 ∧
      (mark 'm' true).rangeChecked t ctx 1 far = .ok (some (.linewise 5 3)) ∧
      (Range.linewise 5 3).LandsIn t far := by
  intro t far ctx
  have ht : t.length < 2147483648 := by decide
  have hend := rangeChecked_landsIn lineEnd ht ctx (Nat.le_refl Count.limit) 0
  have hmark := rangeChecked_landsIn (mark 'm' true) ht ctx (by decide : 1 ≤ Count.limit) far
  exact ⟨ht, hend.1, (hend.2 _ rfl).1, hmark.1, (hmark.2 _ rfl).1⟩

end Motion

end ModalEdit
