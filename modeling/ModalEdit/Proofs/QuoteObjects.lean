import Mathlib.Algebra.Group.Nat.Even
import Mathlib.Data.Finset.Card
import Mathlib.Data.Finset.Range
import Mathlib.Order.Bounds.Basic
import ModalEdit.Proofs.RestingCursor
import ModalEdit.Text.Lines.Lemmas
import ModalEdit.TextObject.Range

/-!
# Quote objects are marked off by neighbouring quotes

A quote object is marked off by two quotes of the cursor's line with no other one between
(`quote_delimited`). Only quotes with no backslash directly before them count (`Text.IsQuote`). A
cursor on a quote takes the next one if it has an even number of quotes before it in its line, and
the previous one otherwise; a cursor between quotes takes the nearest one on either side.

The quotes of a line are one list in ascending order (`mem_quotesOfLine`, `pairwise_quotesOfLine`),
so the neighbours are the ends of its two parts before and after the cursor.
-/

namespace ModalEdit

/-! ## Ascending lists -/

section Ascending

variable {l : List Nat} {a : Nat}

theorem head?_eq_some_iff_isLeast (h : l.Pairwise (· < ·)) :
    l.head? = some a ↔ IsLeast {x | x ∈ l} a := by
  cases l with
  | nil => exact ⟨nofun, fun hleast => absurd hleast.1 List.not_mem_nil⟩
  | cons b l =>
    have hfirst : IsLeast {x | x ∈ b :: l} b := by
      refine ⟨List.mem_cons_self, fun x hx => ?_⟩
      rcases List.mem_cons.1 hx with rfl | hx
      · exact Nat.le_refl x
      · exact Nat.le_of_lt (List.rel_of_pairwise_cons h hx)
    exact ⟨fun heq => Option.some.inj heq ▸ hfirst,
      fun hleast => congrArg some (hfirst.unique hleast)⟩

theorem getLast?_eq_some_iff_isGreatest (h : l.Pairwise (· < ·)) :
    l.getLast? = some a ↔ IsGreatest {x | x ∈ l} a := by
  rcases l.eq_nil_or_concat' with rfl | ⟨l, b, rfl⟩
  · exact ⟨nofun, fun hgreatest => absurd hgreatest.1 List.not_mem_nil⟩
  · have hlast : IsGreatest {x | x ∈ l ++ [b]} b := by
      refine ⟨by simp, fun x hx => ?_⟩
      rcases List.mem_append.1 hx with hx | hx
      · exact Nat.le_of_lt ((List.pairwise_append.1 h).2.2 x hx b List.mem_cons_self)
      · exact Nat.le_of_eq (List.mem_singleton.1 hx)
    rw [List.getLast?_concat]
    exact ⟨fun heq => Option.some.inj heq ▸ hlast,
      fun hgreatest => congrArg some (hlast.unique hgreatest)⟩

end Ascending

namespace Text

variable {t : Text} {quote : Char} {i j l left right : Nat}

/-! ## The quotes of a line -/

/-- At index `i` of line `l` there is a quote with no backslash directly before it. -/
structure IsQuote (t : Text) (quote : Char) (l i : Nat) : Prop where
  start_le : t.lineStart l ≤ i
  lt_end : i < t.lineEnd l
  quote : t[i]? = some quote
  unescaped : i = 0 ∨ t[i - 1]? ≠ some '\\'

instance (t : Text) (quote : Char) (l : Nat) : DecidablePred (t.IsQuote quote l) := fun i =>
  decidable_of_iff
    (t.lineStart l ≤ i ∧ i < t.lineEnd l ∧ t[i]? = some quote ∧ (i = 0 ∨ t[i - 1]? ≠ some '\\'))
    ⟨fun ⟨h₁, h₂, h₃, h₄⟩ => ⟨h₁, h₂, h₃, h₄⟩, fun ⟨h₁, h₂, h₃, h₄⟩ => ⟨h₁, h₂, h₃, h₄⟩⟩

/-- How many quotes of a line come before an index. -/
def quoteRank (t : Text) (quote : Char) (l i : Nat) : Nat :=
  {j ∈ Finset.range i | t.IsQuote quote l j}.card

theorem le_lastLine_of_lt (h : t.lineStart l < t.lineEnd l) : l ≤ t.lastLine := by
  refine Nat.le_of_not_lt fun hl => ?_
  have hend := t.lineEnd_le_length l
  rw [lineStart_of_lastLine_lt hl] at h
  omega

theorem lineStart_unescaped (hl : l ≤ t.lastLine) :
    t.lineStart l = 0 ∨ t[t.lineStart l - 1]? ≠ some '\\' := by
  cases l with
  | zero => exact Or.inl (t.lineStart_zero)
  | succ l =>
    right
    rw [lineStart_succ hl, Nat.add_sub_cancel, getElem?_lineEnd hl]
    decide

theorem mem_quoteOffsets {cs : List Char} {k : Nat} :
    k ∈ quoteOffsets quote cs ↔ cs[k]? = some quote ∧ ('\n' :: cs)[k]? ≠ some '\\' := by
  simp only [quoteOffsets, List.mem_filterMap, List.mem_zipIdx_iff_getElem?,
    List.getElem?_zip_eq_some, Option.ite_none_right_eq_some, Option.some.injEq]
  constructor
  · rintro ⟨⟨⟨before, c⟩, _⟩, ⟨hbefore, hc⟩, ⟨rfl, hne⟩, rfl⟩
    refine ⟨hc, fun hescaped => hne ?_⟩
    exact Option.some.inj (hbefore.symm.trans hescaped)
  · rintro ⟨hc, hne⟩
    have hk := (List.getElem?_eq_some_iff.1 hc).1
    have hlt : k < ('\n' :: cs).length := Nat.lt_succ_of_lt hk
    have hbefore := List.getElem?_eq_getElem hlt
    exact ⟨((_, quote), k), ⟨hbefore, hc⟩, ⟨rfl, fun h => hne (h ▸ hbefore)⟩, rfl⟩

/-- **The list of a line's quotes holds them all**, and nothing else. -/
theorem mem_quotesOfLine : i ∈ t.quotesOfLine quote l ↔ t.IsQuote quote l i := by
  simp only [quotesOfLine, List.mem_map, mem_quoteOffsets]
  constructor
  · rintro ⟨k, ⟨hc, hne⟩, rfl⟩
    have hk : k < t.lineLength l := (List.getElem?_eq_some_iff.1 hc).1
    have hend : t.lineStart l + k < t.lineEnd l := Nat.add_lt_add_left hk _
    refine ⟨Nat.le_add_right _ _, hend, (getElem?_lineStart_add hk).trans hc, ?_⟩
    cases k with
    | zero => exact lineStart_unescaped (le_lastLine_of_lt (by omega))
    | succ k =>
      right
      rw [← Nat.add_assoc, Nat.add_sub_cancel, getElem?_lineStart_add (by omega)]
      simpa using hne
  · rintro ⟨hstart, hend, hquote, hunescaped⟩
    obtain ⟨k, rfl⟩ := Nat.exists_eq_add_of_le hstart
    have hk : k < t.lineLength l := Nat.lt_of_add_lt_add_left hend
    refine ⟨k, ⟨(getElem?_lineStart_add hk).symm.trans hquote, ?_⟩, rfl⟩
    cases k with
    | zero => simp
    | succ k =>
      rcases hunescaped with hzero | hunescaped
      · omega
      · rw [← Nat.add_assoc, Nat.add_sub_cancel, getElem?_lineStart_add (by omega)] at hunescaped
        simpa using hunescaped

theorem pairwise_quotesOfLine (t : Text) (quote : Char) (l : Nat) :
    (t.quotesOfLine quote l).Pairwise (· < ·) := by
  rw [quotesOfLine, List.pairwise_map, quoteOffsets, List.pairwise_filterMap]
  have hindices : (('\n' :: t.line l).zip (t.line l)).zipIdx.Pairwise (·.2 < ·.2) := by
    rw [← List.pairwise_map (f := Prod.snd), List.zipIdx_map_snd]
    exact List.pairwise_lt_range'
  refine hindices.imp fun {a b} hab x hx y hy => ?_
  simp only [Option.ite_none_right_eq_some, Option.some.injEq] at hx hy
  omega

theorem length_filter_quotesOfLine (t : Text) (quote : Char) (l i : Nat) :
    ((t.quotesOfLine quote l).filter (· < i)).length = t.quoteRank quote l i := by
  have hnodup := ((t.pairwise_quotesOfLine quote l).imp (fun h => Nat.ne_of_lt h)).filter (· < i)
  rw [quoteRank, ← List.toFinset_card_of_nodup hnodup]
  congr 1
  ext j
  simp [mem_quotesOfLine, and_comm]

/-! ## Neighbouring quotes -/

theorem head?_quotes_after :
    ((t.quotesOfLine quote l).filter (i < ·)).head? = some j ↔
      IsLeast {j | i < j ∧ t.IsQuote quote l j} j := by
  rw [head?_eq_some_iff_isLeast ((t.pairwise_quotesOfLine quote l).filter _)]
  simp only [List.mem_filter, mem_quotesOfLine, decide_eq_true_eq, and_comm]

theorem head?_quotes_after_eq_none :
    ((t.quotesOfLine quote l).filter (i < ·)).head? = none ↔
      ∀ j, i < j → ¬t.IsQuote quote l j := by
  simp only [List.head?_eq_none_iff, List.filter_eq_nil_iff, mem_quotesOfLine, decide_eq_true_eq]
  exact forall_congr' fun j => imp_not_comm

/-- The previous quote before an index is the last one of the list that stands before it. -/
theorem getLast?_quotes_before :
    ((t.quotesOfLine quote l).filter (· < i)).getLast? = some j ↔
      IsGreatest {j | j < i ∧ t.IsQuote quote l j} j := by
  rw [getLast?_eq_some_iff_isGreatest ((t.pairwise_quotesOfLine quote l).filter _)]
  simp only [List.mem_filter, mem_quotesOfLine, decide_eq_true_eq, and_comm]

theorem getLast?_quotes_before_eq_none :
    ((t.quotesOfLine quote l).filter (· < i)).getLast? = none ↔
      ∀ j < i, ¬t.IsQuote quote l j := by
  simp only [List.getLast?_eq_none_iff, List.filter_eq_nil_iff, mem_quotesOfLine,
    decide_eq_true_eq]
  exact forall_congr' fun j => imp_not_comm

/-- The two quotes that mark off the object at index `i`: for a quote the next one if an even number
of quotes comes before it in its line, and the previous one if an odd number does; between quotes
the nearest ones. -/
inductive QuotedAt (t : Text) (quote : Char) (i : Nat) : Nat → Nat → Prop where
  | opens {right : Nat} (hquote : t.IsQuote quote (t.lineOf i) i)
      (heven : Even (t.quoteRank quote (t.lineOf i) i))
      (hnext : IsLeast {j | i < j ∧ t.IsQuote quote (t.lineOf i) j} right) :
      QuotedAt t quote i i right
  | closes {left : Nat} (hquote : t.IsQuote quote (t.lineOf i) i)
      (hodd : ¬Even (t.quoteRank quote (t.lineOf i) i))
      (hprevious : IsGreatest {j | j < i ∧ t.IsQuote quote (t.lineOf i) j} left) :
      QuotedAt t quote i left i
  | between {left right : Nat} (hquote : ¬t.IsQuote quote (t.lineOf i) i)
      (hprevious : IsGreatest {j | j < i ∧ t.IsQuote quote (t.lineOf i) j} left)
      (hnext : IsLeast {j | i < j ∧ t.IsQuote quote (t.lineOf i) j} right) :
      QuotedAt t quote i left right

theorem quotePair_eq (t : Text) (quote : Char) (i : Nat) :
    t.quotePair quote i =
      let quotes := t.quotesOfLine quote (t.lineOf i)
      let previous := (quotes.filter (· < i)).getLast?
      let next := (quotes.filter (i < ·)).head?
      if t.IsQuote quote (t.lineOf i) i then
        if Even (t.quoteRank quote (t.lineOf i) i) then next.map (i, ·) else previous.map (·, i)
      else previous.bind fun left => next.map (left, ·) := by
  simp only [quotePair, length_filter_quotesOfLine, List.contains_iff_mem, mem_quotesOfLine,
    Nat.even_iff, Option.bind_eq_bind, Option.pure_def, Option.map_eq_bind, Function.comp_def]

theorem quotePair_eq_some_iff :
    t.quotePair quote i = some (left, right) ↔ t.QuotedAt quote i left right := by
  rw [quotePair_eq]
  dsimp only
  constructor
  · intro h
    split at h
    case isTrue hquote =>
      split at h
      case isTrue heven =>
        obtain ⟨right, hnext, heq⟩ := Option.map_eq_some_iff.1 h
        cases heq
        exact .opens hquote heven (head?_quotes_after.1 hnext)
      case isFalse hodd =>
        obtain ⟨left, hprevious, heq⟩ := Option.map_eq_some_iff.1 h
        cases heq
        exact .closes hquote hodd (getLast?_quotes_before.1 hprevious)
    case isFalse hquote =>
      obtain ⟨left, hprevious, hmap⟩ := Option.bind_eq_some_iff.1 h
      obtain ⟨right, hnext, heq⟩ := Option.map_eq_some_iff.1 hmap
      cases heq
      exact .between hquote (getLast?_quotes_before.1 hprevious) (head?_quotes_after.1 hnext)
  · intro h
    cases h with
    | opens hquote heven hnext =>
      rw [if_pos hquote, if_pos heven, head?_quotes_after.2 hnext]
      rfl
    | closes hquote hodd hprevious =>
      rw [if_pos hquote, if_neg hodd, getLast?_quotes_before.2 hprevious]
      rfl
    | between hquote hprevious hnext =>
      rw [if_neg hquote, getLast?_quotes_before.2 hprevious, head?_quotes_after.2 hnext]
      rfl

theorem quotePair_eq_none_iff :
    t.quotePair quote i = none ↔
      if t.IsQuote quote (t.lineOf i) i then
        if Even (t.quoteRank quote (t.lineOf i) i) then
          ∀ j, i < j → ¬t.IsQuote quote (t.lineOf i) j
        else ∀ j < i, ¬t.IsQuote quote (t.lineOf i) j
      else (∀ j < i, ¬t.IsQuote quote (t.lineOf i) j) ∨
        ∀ j, i < j → ¬t.IsQuote quote (t.lineOf i) j := by
  rw [quotePair_eq]
  dsimp only
  split
  · split
    · rw [Option.map_eq_none_iff, head?_quotes_after_eq_none]
    · rw [Option.map_eq_none_iff, getLast?_quotes_before_eq_none]
  · rw [← getLast?_quotes_before_eq_none, ← head?_quotes_after_eq_none]
    cases ((t.quotesOfLine quote (t.lineOf i)).filter (· < i)).getLast? with
    | none => simp
    | some left => simp

namespace QuotedAt

/-- The two quotes are on the cursor's line, with the cursor on one of them or between them and no
quote between. -/
theorem neighbours (h : t.QuotedAt quote i left right) :
    t.IsQuote quote (t.lineOf i) left ∧ t.IsQuote quote (t.lineOf i) right ∧ left < right ∧
      left ≤ i ∧ i ≤ right ∧ ∀ j, left < j → j < right → ¬t.IsQuote quote (t.lineOf i) j := by
  cases h with
  | opens hquote heven hnext =>
    refine ⟨hquote, hnext.1.2, hnext.1.1, Nat.le_refl i, Nat.le_of_lt hnext.1.1, ?_⟩
    intro j hleft hright hj
    exact Nat.not_lt.2 (hnext.2 ⟨hleft, hj⟩) hright
  | closes hquote hodd hprevious =>
    refine ⟨hprevious.1.2, hquote, hprevious.1.1, Nat.le_of_lt hprevious.1.1, Nat.le_refl i, ?_⟩
    intro j hleft hright hj
    exact Nat.not_lt.2 (hprevious.2 ⟨hright, hj⟩) hleft
  | between hquote hprevious hnext =>
    have hleft := hprevious.1.1
    have hright := hnext.1.1
    refine ⟨hprevious.1.2, hnext.1.2, Nat.lt_trans hleft hright, Nat.le_of_lt hleft,
      Nat.le_of_lt hright, fun j hleft hright hj => ?_⟩
    rcases Nat.lt_trichotomy j i with hlt | rfl | hgt
    · exact Nat.not_lt.2 (hprevious.2 ⟨hlt, hj⟩) hleft
    · exact hquote hj
    · exact Nat.not_lt.2 (hnext.2 ⟨hgt, hj⟩) hright

end QuotedAt

theorem IsQuote.lineOf_eq (hleft : t.IsQuote quote l left)
    (hright : t.IsQuote quote l right) (hlj : left ≤ j) (hjr : j ≤ right) : t.lineOf j = l := by
  have hstart := hleft.start_le
  have hend := hright.lt_end
  have hlength := t.lineEnd_le_length l
  have hlast : l ≤ t.lastLine := le_lastLine_of_lt (by omega)
  exact (lineOf_eq_iff hlast (by omega)).2 ⟨by omega, by omega⟩

/-- **Every index between two neighbouring quotes is between these two.** -/
theorem QuotedAt.of_between (h : t.QuotedAt quote i left right) (hleft : left < j)
    (hright : j < right) : t.QuotedAt quote j left right := by
  obtain ⟨hl, hr, -, -, -, hnone⟩ := h.neighbours
  have hline := hl.lineOf_eq hr (Nat.le_of_lt hleft) (Nat.le_of_lt hright)
  rw [← hline] at hl hr hnone
  refine .between (hnone j hleft hright) ⟨⟨hleft, hl⟩, ?_⟩ ⟨⟨hright, hr⟩, ?_⟩
  · rintro k ⟨hkj, hk⟩
    exact Nat.le_of_not_lt fun hlt => hnone k hlt (Nat.lt_trans hkj hright) hk
  · rintro k ⟨hjk, hk⟩
    exact Nat.le_of_not_lt fun hlt => hnone k (Nat.lt_trans hleft hjk) hlt hk

end Text

namespace TextObject

open Text

/-- **A quote object is marked off by neighbouring quotes of the cursor's line.** Around, it is both
quotes and what is between them; inside, what is between them. There is none exactly where the quote
on the other side is missing: after a quote with an even number of quotes before it, before one with
an odd number, or on either side of a cursor that is on no quote. Both quotes are on the cursor's
line, no quote is between them, and every cursor between them has the same two. -/
theorem quote_delimited (t : Text) (q : Char) (count : Nat) :
    (∀ i left right, t.QuotedAt q i left right →
      (quote q).range t .around count i = some (.exclusive left (right + 1)) ∧
      (quote q).range t .inner count i = some (.exclusive (left + 1) right)) ∧
    (∀ scope i, (quote q).range t scope count i = none ↔
      if t.IsQuote q (t.lineOf i) i then
        if Even (t.quoteRank q (t.lineOf i) i) then ∀ j, i < j → ¬t.IsQuote q (t.lineOf i) j
        else ∀ j < i, ¬t.IsQuote q (t.lineOf i) j
      else (∀ j < i, ¬t.IsQuote q (t.lineOf i) j) ∨ ∀ j, i < j → ¬t.IsQuote q (t.lineOf i) j) ∧
    ∀ i left right, t.QuotedAt q i left right →
      (t.lineStart (t.lineOf i) ≤ left ∧ left ≤ i ∧ i ≤ right ∧ right < t.lineEnd (t.lineOf i)) ∧
      ∀ j, left < j → j < right →
        ¬t.IsQuote q (t.lineOf i) j ∧ t.QuotedAt q j left right := by
  refine ⟨fun i left right h => ?_, fun scope i => ?_, fun i left right h => ?_⟩
  · have hpair := quotePair_eq_some_iff.2 h
    simp only [range, hpair]
    exact ⟨rfl, rfl⟩
  · rw [range, Option.map_eq_none_iff, quotePair_eq_none_iff]
  · obtain ⟨hleft, hright, -, hli, hir, hnone⟩ := h.neighbours
    exact ⟨⟨hleft.start_le, hli, hir, hright.lt_end⟩,
      fun j hlj hjr => ⟨hnone j hlj hjr, h.of_between hlj hjr⟩⟩

/-- In `"a\"" "b"` the second quote is escaped, so the first pair ends at the third one. -/
theorem quote_delimited_escaped :
    let t : Text := ['"', 'a', '\\', '"', '"', ' ', '"', 'b']
    t.QuotedAt '"' 0 0 4 ∧ t.QuotedAt '"' 3 0 4 ∧
      (quote '"').range t .inner 1 3 = some (.exclusive 1 4) ∧
      (quote '"').range t .around 1 4 = some (.exclusive 0 5) ∧
      (quote '"').range t .inner 1 6 = none := by
  intro t
  obtain ⟨hobject, hnone, hinside⟩ := quote_delimited t '"' 1
  have hopens : t.QuotedAt '"' 0 0 4 := quotePair_eq_some_iff.1 rfl
  have hescaped := ((hinside 0 0 4 hopens).2 3 (by decide) (by decide)).2
  refine ⟨hopens, hescaped, (hobject 3 0 4 hescaped).2,
    (hobject 4 0 4 (quotePair_eq_some_iff.1 rfl)).1, (hnone .inner 6).2 ?_⟩
  rw [if_pos (by decide), if_pos (by decide)]
  intro j hj hquote
  have hlt := hquote.lt_end
  obtain rfl : j = 7 := by
    change j < 8 at hlt
    omega
  cases hquote.quote

end TextObject

end ModalEdit
