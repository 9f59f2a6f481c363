import Mathlib.Logic.Function.Iterate
import ModalEdit.Proofs.Columns
import ModalEdit.Proofs.Positions
import ModalEdit.Proofs.Synonyms
import ModalEdit.Proofs.WordBoundaries

/-!
# A count repeats a motion

A motion typed with a count looks for its target once and lets the cursor rest there. The motion
typed as often lets the cursor rest, and sets or drops the preferred column, after every step. For
the motions by characters and lines, to the end of a word and back to the start of one, the two come
to the same (`count_repeats_motion`).

What a motion does in Normal mode is a function of where the cursor stands and of the preferred
column (`Stance`, `Motion.lead`). A count that is typed leads there at once (`stands_counted`), and
keys in a row iterate the function (`stands_repeated`). So one law for each motion is enough, that
one step more is a step and then the others (`Motion.AddsUp`). It holds because every step but the
last leads to an index where the cursor rests.
-/

namespace ModalEdit

/-! ## Where the cursor stands -/

/-- The host's selection and the preferred column. -/
structure Stance where
  selection : Selection
  preferred : Option PreferredColumn
  deriving DecidableEq, Repr

namespace Stance

/-- The index of the cursor. -/
def index (st : Stance) (t : Text) : Nat := min st.selection.active t.length

theorem index_le (st : Stance) (t : Text) : st.index t ≤ t.length := Nat.min_le_right _ _

/-- The cursor is at a Normal position. -/
def Rests (st : Stance) (t : Text) : Prop := t.IsNormal (st.index t)

/-- A session in Normal mode that prefers the column and remembers nothing else. -/
def session (st : Stance) : Session := { input := .idle .normal, preferred := st.preferred }

end Stance

/-- Where a motion leads in Normal mode. If it fails, the cursor stays and so does the column. -/
def Motion.lead (m : Motion) (t : Text) (n : Nat) (st : Stance) : Stance :=
  match m.range t st.session.motionContext n (st.index t) with
  | none => st
  | some range =>
    ⟨.cursor (t.restingIndex range.stop), st.session.columnAfter m t (st.index t)⟩

namespace Text

variable {t : Text} {i : Nat}

theorem IsNormal.le_length (h : t.IsNormal i) : i ≤ t.length := by
  rcases h with ⟨c, hc, -⟩ | ⟨l, -, -, rfl⟩
  · exact Nat.le_of_lt (List.getElem?_eq_some_iff.1 hc).1
  · exact t.lineStart_le_length l

theorem IsNormal.restingIndex_eq (h : t.IsNormal i) : t.restingIndex i = i := by
  obtain ⟨hindex, hcol⟩ := h.col_le
  have hrests := restingIndex_lineStart_add (t.lineOf_le_lastLine i)
    (Nat.le_trans hcol (t.lastColumn_le_lineLength _))
  rwa [Nat.min_eq_left hcol, ← hindex] at hrests

theorem isNormal_zero (t : Text) : t.IsNormal 0 := by
  cases t with
  | nil => exact Or.inr ⟨0, Nat.le_refl 0, rfl, rfl⟩
  | cons c cs =>
    by_cases hc : c = '\n'
    · refine Or.inr ⟨0, Nat.zero_le _, ?_, rfl⟩
      rw [hc, line_cons_zero]
      rfl
    · exact Or.inl ⟨c, rfl, hc⟩

theorem isNormal_of_classAt {big : Bool} {cls : CharClass} (h : t.classAt big i = some cls)
    (hne : cls ≠ .space) : t.IsNormal i := by
  obtain ⟨c, hc, rfl⟩ := Option.map_eq_some_iff.1 h
  refine Or.inl ⟨c, hc, ?_⟩
  rintro rfl
  exact hne ((CharClass.of_eq_space_iff big '\n').2 Unicode.isWhiteSpace_newline)

end Text

namespace Stance

variable {t : Text} {st : Stance}

theorem index_cursor {i : Nat} (hi : i ≤ t.length) (column : Option PreferredColumn) :
    index ⟨.cursor i, column⟩ t = i :=
  Nat.min_eq_left hi

/-- **Motions lead to Normal positions.** -/
theorem rests_lead (h : st.Rests t) (m : Motion) (n : Nat) : (m.lead t n st).Rests t := by
  unfold Motion.lead
  split
  · exact h
  · have hnormal := t.isNormal_restingIndex
    unfold Rests
    rw [index_cursor (hnormal _).le_length]
    exact hnormal _

end Stance

/-! ## Typing a motion -/

/-- A key that is a motion of its own, counts one if no count is typed, and reads neither marks nor
searches. -/
structure Motion.PlainKey (c : Char) (m : Motion) : Prop where
  ofKey : Motion.ofKey c = some m
  defaultCount : m.defaultCount = 1
  ne_zero : c ≠ '0'
  range_congr {t : Text} {ctx ctx' : MotionContext} {n i : Nat} :
    ctx.preferred = ctx'.preferred → m.range t ctx n i = m.range t ctx' n i

theorem Session.motionRange_of_no_operator {s : Session} (h : s.input.operator = none) (t : Text)
    (m : Motion) (n i : Nat) : s.motionRange t m n i = m.range t s.motionContext n i := by
  unfold motionRange
  rw [h]
  split <;> rfl

theorem Session.columnAfter_congr {s s' : Session} (h : s.preferred = s'.preferred) (m : Motion)
    (t : Text) (i : Nat) : s.columnAfter m t i = s'.columnAfter m t i := by
  unfold columnAfter
  rw [h]

namespace Editor

variable {ed : Editor} {t : Text} {st : Stance} {count : Option Nat} {c : Char} {m : Motion}

/-- In Normal mode the editor has this stance, and nothing waits but a count. -/
structure Stands (t : Text) (st : Stance) (count : Option Nat) (ed : Editor) : Prop
    extends Awaiting count ed where
  text : ed.host.text = t
  selection : ed.host.selection = st.selection
  preferred : ed.session.preferred = st.preferred

theorem stands_preface {keys : List Char} {register : Option Char}
    (hkeys : Input.Preface keys count register) (hregister : register = none)
    (h : ed.Stands t st none) : Types ed (keys.map .char) (Stands t st count) := by
  induction hkeys with
  | nil => exact types_nil h
  | register => cases hregister
  | digit _ hd hzero ih =>
    rw [List.map_append]
    refine (ih hregister).append fun ed' h' => types_digit h'.toAwaiting hd hzero ?_
    exact ⟨⟨h'.grants, h'.mode, h'.lookahead, h'.operator, rfl⟩, h'.text, h'.selection,
      h'.preferred⟩

/-- **A motion leads on from where the editor stands.** -/
theorem stands_key (h : ed.Stands t st count) (hcount : Count.Typed count)
    (hkey : Motion.PlainKey c m) :
    Types ed [.char c] (Stands t (m.lead t (count.getD 1) st) none) := by
  refine types_motionKey h.toAwaiting hcount hkey.ofKey hkey.defaultCount hkey.ne_zero
    fun s lastChange recording hmode hoperator hpreferred => ?_
  have hpreferred : s.preferred = st.session.preferred := hpreferred.trans h.preferred
  have hvisual : s.mode.isVisual = false := by rw [hmode]; rfl
  have hcursor : s.cursor t st.selection = st.index t := Session.cursor_eq hvisual
  rw [s.planMotion_normal hmode, h.text, h.selection, hcursor,
    Session.motionRange_of_no_operator hoperator,
    hkey.range_congr (show s.motionContext.preferred = st.session.motionContext.preferred from
      hpreferred), Session.columnAfter_congr hpreferred]
  unfold Motion.lead
  cases m.range t st.session.motionContext (count.getD 1) (st.index t) with
  | none =>
    have hnormal : (if s.mode.isVisual then s.mode else Mode.normal) = .normal := by
      rw [hvisual]
      rfl
    exact ⟨⟨h.grants, hnormal, rfl, rfl, rfl⟩, h.text, h.selection, hpreferred⟩
  | some range =>
    refine ⟨⟨h.grants.committed _, rfl, rfl, rfl, rfl⟩, h.text, ?_, rfl⟩
    exact congrArg (fun t : Text => Selection.cursor (t.restingIndex range.stop)) h.text

/-- A motion typed with a count leads there at once. -/
theorem stands_counted (h : ed.Stands t st none) (hkey : Motion.PlainKey c m) {n : Nat}
    (hn : 0 < n) :
    Types ed ((Nat.toDigits 10 n ++ [c]).map .char)
      (Stands t (m.lead t (min n Count.limit) st) none) := by
  have hpreface := Input.preface_toDigits hn
  have htyped : Count.Typed (some (min n Count.limit)) := by
    rintro k ⟨⟩
    have hlimit : 0 < Count.limit := by decide
    omega
  rw [List.map_append]
  exact (stands_preface hpreface rfl h).append fun _ h' => stands_key h' htyped hkey

/-- The key of a motion typed again and again iterates the motion. -/
theorem stands_repeated (h : ed.Stands t st none) (hkey : Motion.PlainKey c m) (n : Nat) :
    Types ed ((List.replicate n c).map .char) (Stands t ((m.lead t 1)^[n] st) none) := by
  induction n generalizing ed st with
  | zero => exact types_nil h
  | succ n ih =>
    show Types ed ([.char c] ++ (List.replicate n c).map .char) _
    exact (stands_key h Count.typed_none hkey).append fun _ h' => ih h'

end Editor

/-! ## Steps add up -/

/-- One step more is a step and then the others, from where a cursor rests. -/
def Motion.AddsUp (m : Motion) (t : Text) : Prop :=
  ∀ st : Stance, st.Rests t → ∀ n, 0 < n → m.lead t (n + 1) st = m.lead t n (m.lead t 1 st)

/-- **A count is as many steps**, if steps add up. -/
theorem Motion.AddsUp.lead_eq_iterate {m : Motion} {t : Text} (hm : m.AddsUp t) {st : Stance}
    (h : st.Rests t) {n : Nat} (hn : 0 < n) : m.lead t n st = (m.lead t 1)^[n] st := by
  induction n, hn using Nat.le_induction generalizing st with
  | base => rfl
  | succ n hn ih =>
    rw [hm st h n hn, ih (Stance.rests_lead h m 1), Function.iterate_succ_apply]

/-! ### By characters and lines -/

namespace Stance

variable {t : Text} {st : Stance} {l c : Nat}

/-- The cursor is in a column of a line, no further to the right than the last one. -/
structure On (t : Text) (l c : Nat) (st : Stance) : Prop where
  line_le : l ≤ t.lastLine
  col_le : c ≤ t.lastColumn l
  index_eq : st.index t = t.lineStart l + c

theorem Rests.on (h : st.Rests t) : ∃ l c, st.On t l c := by
  obtain ⟨hindex, hcol⟩ := Text.IsNormal.col_le h
  exact ⟨_, _, t.lineOf_le_lastLine _, hcol, hindex⟩

/-- A stance in a column of a line. -/
def inColumn (t : Text) (l c : Nat) (preferred : Option PreferredColumn) : Stance :=
  ⟨.cursor (t.lineStart l + c), preferred⟩

theorem On.length_le (h : st.On t l c) : c ≤ t.lineLength l :=
  Nat.le_trans h.col_le (t.lastColumn_le_lineLength l)

theorem on_inColumn (hl : l ≤ t.lastLine) (hc : c ≤ t.lastColumn l)
    (preferred : Option PreferredColumn) : (inColumn t l c preferred).On t l c := by
  have hlength := Nat.le_trans hc (t.lastColumn_le_lineLength l)
  have hend := t.lineEnd_le_length l
  rw [Text.lineEnd_eq] at hend
  exact ⟨hl, hc, index_cursor (by omega) preferred⟩

theorem On.ofIndex_index (h : st.On t l c) :
    Position.ofIndex t (st.index t) = ⟨t.lineStart l + c, l, c⟩ := by
  have hposition := Position.isOf_of_col_le h.line_le h.length_le
  rw [h.index_eq]
  exact hposition.symm

end Stance

namespace LineStep

variable {t : Text} {l : Nat}

theorem target_succ (t : Text) (down : Bool) (n l : Nat) :
    (LineStep.mk down (n + 1)).target t l =
      (LineStep.mk down n).target t ((LineStep.mk down 1).target t l) := by
  simp only [target]
  split <;> omega

theorem target_succ_ne {down : Bool} (h : (LineStep.mk down 1).target t l ≠ l) (n : Nat) :
    (LineStep.mk down (n + 1)).target t l ≠ l := by
  cases down with
  | true =>
    simp only [target, if_true] at h ⊢
    omega
  | false =>
    simp only [target, Bool.false_eq_true, if_false] at h ⊢
    omega

end LineStep

namespace Motion

open Stance

variable {t : Text} {st : Stance} {l c n : Nat}

theorem lead_left (h : st.On t l c) (hn : 0 < n) :
    left.lead t n st = inColumn t l (c - n) none := by
  have hcol := h.col_le
  have hlength := h.length_le
  simp only [lead, range, h.ofIndex_index, Nat.max_eq_left hn, Range.exclusive,
    Text.restingIndex_lineStart_add h.line_le (show c - n ≤ t.lineLength l by omega)]
  rw [Nat.min_eq_left (by omega)]
  rfl

theorem lead_right (h : st.On t l c) (hn : 0 < n) :
    right.lead t n st = inColumn t l (min (c + n) (t.lastColumn l)) none := by
  have hlast := t.lastColumn_le_lineLength l
  simp only [lead, range, h.ofIndex_index, Nat.max_eq_left hn, Range.exclusive,
    Text.restingIndex_lineStart_add h.line_le (Nat.min_le_right _ _)]
  rw [Nat.min_assoc, Nat.min_eq_right hlast]
  rfl

theorem lead_lineStep (h : st.On t l c) (step : LineStep) (hcount : 0 < step.count) :
    step.motion.lead t step.count st =
      if step.target t l = l then st
      else
        let column := st.preferred.getD (.column c)
        inColumn t (step.target t l) (column.clamp (t.lastColumn (step.target t l)))
          (some column) := by
  have hline : t.lineOf (st.index t) = l := by
    rw [← Position.ofIndex_line, h.ofIndex_index]
  have hcolumn : st.session.columnAfter step.motion t (st.index t) =
      some (st.preferred.getD (.column c)) := by
    rw [Session.columnAfter, if_pos step.isVertical_motion, h.ofIndex_index]
    rfl
  rw [lead, range_lineStep step hcount, hline, h.ofIndex_index, hcolumn]
  by_cases hstay : step.target t l = l
  · rw [if_pos hstay, if_pos hstay]
  · have hclamp := (st.preferred.getD (.column c)).clamp_le (t.lastColumn (step.target t l))
    have hrests := Text.restingIndex_lineStart_add (step.target_le h.line_le)
      (Nat.le_trans hclamp (t.lastColumn_le_lineLength _))
    rw [Nat.min_eq_left hclamp] at hrests
    rw [if_neg hstay, if_neg hstay]
    simp only [toColumn, Range.linewise, inColumn]
    exact congrArg (fun i => Stance.mk (.cursor i) _) hrests

theorem addsUp_left (t : Text) : left.AddsUp t := by
  intro st hst n hn
  obtain ⟨l, c, h⟩ := hst.on
  have hcol := h.col_le
  rw [lead_left h (Nat.succ_pos n), lead_left h Nat.one_pos,
    lead_left (on_inColumn h.line_le (by omega) none) hn, Nat.sub_sub, Nat.add_comm 1 n]

theorem addsUp_right (t : Text) : right.AddsUp t := by
  intro st hst n hn
  obtain ⟨l, c, h⟩ := hst.on
  rw [lead_right h (Nat.succ_pos n), lead_right h Nat.one_pos,
    lead_right (on_inColumn h.line_le (Nat.min_le_right _ _) none) hn]
  congr 1
  omega

/-- Up or down, the last of the steps may find no line to go to. The ones before have set the
column then. -/
theorem addsUp_lineStep (t : Text) (down : Bool) : (LineStep.mk down 1).motion.AddsUp t := by
  intro st hst n hn
  obtain ⟨l, c, h⟩ := hst.on
  have hadds := LineStep.target_succ t down n l
  have hmore := lead_lineStep h ⟨down, n + 1⟩ (Nat.succ_pos n)
  have hfirst := lead_lineStep h ⟨down, 1⟩ Nat.one_pos
  show (LineStep.mk down (n + 1)).motion.lead t (n + 1) st =
    (LineStep.mk down n).motion.lead t n ((LineStep.mk down 1).motion.lead t 1 st)
  rw [hmore, hfirst, hadds]
  by_cases hstay : (LineStep.mk down 1).target t l = l
  · rw [if_pos hstay, hstay, lead_lineStep h ⟨down, n⟩ hn]
  · have hleaves := LineStep.target_succ_ne hstay n
    have hnext := on_inColumn ((LineStep.mk down 1).target_le h.line_le) (PreferredColumn.clamp_le
      (st.preferred.getD (.column c)) _) (some (st.preferred.getD (.column c)))
    rw [if_neg hstay, if_neg (hadds ▸ hleaves), lead_lineStep hnext ⟨down, n⟩ hn]
    split
    case isTrue hlast => rw [hlast]
    case isFalse => rfl

end Motion

/-! ### By words -/

section Words

variable {t : Text} {f : List Char → Option Nat} {w : Walk t} {m : Motion} {st : Stance} {n : Nat}

/-- Where a motion leads is where its steps lead in a direction, and it drops the column. Every step
moves. -/
structure Motion.Walks (m : Motion) (f : List Char → Option Nat) (w : Walk t) : Prop where
  stop_range (ctx : MotionContext) {n i : Nat} : 0 < n → i ≤ t.length →
    (m.range t ctx n i).map (·.stop) = (stepRepeat f n (w.ahead i)).map (w.go i)
  columnAfter_eq (s : Session) (i : Nat) : s.columnAfter m t i = none
  le_length {cs : List Char} {k : Nat} : f cs = some k → k ≤ cs.length
  pos {cs : List Char} {k : Nat} : f cs = some k → 0 < k

theorem Motion.Walks.lead_eq (hm : m.Walks f w) (hn : 0 < n) (st : Stance) :
    m.lead t n st =
      match stepRepeat f n (w.ahead (st.index t)) with
      | none => st
      | some k => ⟨.cursor (t.restingIndex (w.go (st.index t) k)), none⟩ := by
  have hstop := hm.stop_range st.session.motionContext hn (st.index_le t)
  unfold lead
  rw [hm.columnAfter_eq]
  cases hrange : m.range t st.session.motionContext n (st.index t) with
  | none =>
    rw [hrange, Option.map_none] at hstop
    rw [Option.map_eq_none_iff.1 hstop.symm]
  | some range =>
    rw [hrange, Option.map_some] at hstop
    obtain ⟨k, hk, hgo⟩ := Option.map_eq_some_iff.1 hstop.symm
    rw [hk]
    simp only [hgo]

/-- A step that leads to a Normal position and then the others are one step more. -/
theorem Motion.Walks.lead_succ (hm : m.Walks f w)
    (hlands : ∀ k, f (w.ahead (st.index t)) = some k → t.IsNormal (w.go (st.index t) k))
    (hn : 0 < n) : m.lead t (n + 1) st = m.lead t n (m.lead t 1 st) := by
  have hi := st.index_le t
  rw [hm.lead_eq (Nat.succ_pos n), hm.lead_eq Nat.one_pos, stepRepeat_succ (fun _ _ => hm.pos) hn,
    stepRepeat_one]
  cases hk : f (w.ahead (st.index t)) with
  | none =>
    rw [hm.lead_eq hn, stepRepeat, hk]
    rfl
  | some k =>
    have hle := hm.le_length hk
    have hnormal := hlands k hk
    have hindex := Stance.index_cursor (w.go_le hi hle) none
    simp only [Option.map_some, hnormal.restingIndex_eq]
    rw [hm.lead_eq hn, hindex, w.ahead_go hi hle]
    cases hmore : stepRepeat f n ((w.ahead (st.index t)).drop k) with
    | none => simp only [Option.getD_none, Nat.add_zero, hnormal.restingIndex_eq]
    | some k' =>
      have hle' := stepRepeat_add_le 0 (fun _ _ => hm.le_length) hmore
      rw [List.length_drop] at hle'
      simp only [Option.getD_some]
      rw [w.go_go hi (by omega)]

theorem walks_nextWord (t : Text) (big : Bool) :
    (Motion.nextWord big).Walks (toNextStart big) (.forward t) where
  stop_range ctx n i hn hi := by
    simp only [Motion.range, Position.ofIndex_index, Nat.max_eq_left hn, Nat.min_eq_left hi,
      Option.map_map]
    rfl
  columnAfter_eq _ _ := rfl
  le_length := toNextStart_le
  pos := toNextStart_pos

theorem walks_wordEnd (t : Text) (big : Bool) :
    (Motion.wordEnd big).Walks (toNextEnd big) (.forward t) where
  stop_range ctx n i hn hi := by
    simp only [Motion.range, Position.ofIndex_index, Nat.max_eq_left hn, Nat.min_eq_left hi,
      Option.map_map]
    rfl
  columnAfter_eq _ _ := rfl
  le_length h := Nat.le_of_lt (toNextEnd_lt h)
  pos := toNextEnd_pos

theorem walks_prevWord (t : Text) (big : Bool) :
    (Motion.prevWord big).Walks (toPrevStart big) (.back t) where
  stop_range ctx n i hn hi := by
    simp only [Motion.range, Position.ofIndex_index, Nat.max_eq_left hn, Nat.min_eq_left hi,
      Option.map_map]
    cases big <;> rfl
  columnAfter_eq _ _ := rfl
  le_length := toPrevStart_le
  pos := toPrevStart_pos

theorem addsUp_wordEnd (t : Text) (big : Bool) : (Motion.wordEnd big).AddsUp t := by
  intro st _ n hn
  refine (walks_wordEnd t big).lead_succ (fun k hk => ?_) hn
  generalize st.index t = i at hk ⊢
  have hstep : t.nextWordEnd big i = some (i + k) := congrArg (Option.map (i + ·)) hk
  obtain ⟨⟨-, cls, hcls, hne, -⟩, -⟩ := ((t.nextWordEnd_spec big i).1 _).1 hstep
  exact Text.isNormal_of_classAt hcls hne

/-- A step back leads to the start of a word or of the text. -/
theorem addsUp_prevWord (t : Text) (big : Bool) : (Motion.prevWord big).AddsUp t := by
  intro st _ n hn
  refine (walks_prevWord t big).lead_succ (fun k hk => ?_) hn
  have hi := st.index_le t
  generalize st.index t = i at hk hi ⊢
  have hstep : t.prevWordStart big i = some (i - k) := by
    rw [Text.prevWordStart, Nat.min_eq_left hi]
    exact congrArg (Option.map (i - ·)) hk
  have hpos : 0 < i := by
    refine Nat.pos_of_ne_zero ?_
    rintro rfl
    cases hk
  obtain ⟨j, hj, hgreatest, hstart⟩ := Text.prevWordStart_spec big hpos hi
  obtain rfl : j = i - k := Option.some.inj (hj.symm.trans hstep)
  by_cases hword : ∃ n < i, t.StartsWord big n
  · obtain ⟨⟨-, cls, hcls, hne, -⟩, -⟩ := hgreatest hword
    exact Text.isNormal_of_classAt hcls hne
  · have hspace : ∀ n < i, t.classAt big n = some .space := by
      intro n hn
      obtain ⟨cls, hcls⟩ := Text.exists_classAt big (Nat.lt_of_lt_of_le hn hi)
      by_contra hne
      obtain ⟨j, hj, hstarts, -⟩ := Text.exists_startsWord hcls fun hsp => hne (hsp ▸ hcls)
      exact hword ⟨j, by omega, hstarts⟩
    show t.IsNormal (i - k)
    rw [hstart hspace]
    exact t.isNormal_zero

end Words

/-! ## Counts and repeated keys -/

/-- The motions by characters and lines, to the end of a word and back to the start of one. -/
theorem exists_addsUp {c : Char} (h : c ∈ ['h', 'l', 'j', 'k', 'e', 'E', 'b', 'B']) (t : Text) :
    ∃ m, Motion.PlainKey c m ∧ m.AddsUp t := by
  simp only [List.mem_cons, List.not_mem_nil, or_false] at h
  rcases h with rfl | rfl | rfl | rfl | rfl | rfl | rfl | rfl
  · exact ⟨.left, ⟨rfl, rfl, by decide, fun _ => rfl⟩, Motion.addsUp_left t⟩
  · exact ⟨.right, ⟨rfl, rfl, by decide, fun _ => rfl⟩, Motion.addsUp_right t⟩
  · refine ⟨.down, ⟨rfl, rfl, by decide, fun h => ?_⟩, Motion.addsUp_lineStep t true⟩
    simp only [Motion.range, h]
  · refine ⟨.up, ⟨rfl, rfl, by decide, fun h => ?_⟩, Motion.addsUp_lineStep t false⟩
    simp only [Motion.range, h]
  · exact ⟨.wordEnd false, ⟨rfl, rfl, by decide, fun _ => rfl⟩, addsUp_wordEnd t false⟩
  · exact ⟨.wordEnd true, ⟨rfl, rfl, by decide, fun _ => rfl⟩, addsUp_wordEnd t true⟩
  · exact ⟨.prevWord false, ⟨rfl, rfl, by decide, fun _ => rfl⟩, addsUp_prevWord t false⟩
  · exact ⟨.prevWord true, ⟨rfl, rfl, by decide, fun _ => rfl⟩, addsUp_prevWord t true⟩

namespace Editor

variable {ed : Editor}

/-- The stance of an editor. -/
def stance (ed : Editor) : Stance := ⟨ed.host.selection, ed.session.preferred⟩

/-- **A count repeats a motion.** In Normal mode with no partial input and the cursor at a Normal
position, a count typed before `h`, `l`, `j`, `k`, `e`, `E`, `b` or `B` leads to the same cursor,
mode and preferred column as the key typed as often. -/
theorem count_repeats_motion (hg : ed.host.Grants) (hmode : ed.session.mode = .normal)
    (hlookahead : ed.session.input.lookahead = none) (hoperator : ed.session.input.operator = none)
    (hcount : ed.session.input.count = none)
    (hcursor : ed.host.text.IsNormal (ed.session.cursor ed.host.text ed.host.selection))
    {key : Char} (hkey : key ∈ ['h', 'l', 'j', 'k', 'e', 'E', 'b', 'B']) {n : Nat} (hpos : 1 ≤ n)
    (hlimit : n ≤ Count.limit) {counted repeated : List InputEvent}
    (hcounted : counted.map (·.stroke?) = ((Nat.toDigits 10 n ++ [key]).map Stroke.char).map some)
    (hrepeated : repeated.map (·.stroke?) =
      ((List.replicate n key).map Stroke.char).map some) :
    let once := (ed.pressAll counted).2
    let again := (ed.pressAll repeated).2
    once.host.text = again.host.text ∧ once.host.selection = again.host.selection ∧
      once.session.mode = again.session.mode ∧
      once.session.preferred = again.session.preferred := by
  intro once again
  obtain ⟨m, hplain, hadds⟩ := exists_addsUp hkey ed.host.text
  have hstands : ed.Stands ed.host.text ed.stance none :=
    ⟨⟨hg, hmode, hlookahead, hoperator, hcount⟩, rfl, rfl, rfl⟩
  have hrests : ed.stance.Rests ed.host.text := by
    rwa [Session.cursor_eq (by rw [hmode]; rfl)] at hcursor
  have honce := stands_counted hstands hplain hpos counted hcounted
  have hagain := stands_repeated hstands hplain n repeated hrepeated
  rw [Nat.min_eq_left hlimit, hadds.lead_eq_iterate hrests hpos] at honce
  exact ⟨honce.text.trans hagain.text.symm, honce.selection.trans hagain.selection.symm,
    honce.mode.trans hagain.mode.symm, honce.preferred.trans hagain.preferred.symm⟩

/-- Down over a line without a character to the last line, which the last of three steps does not
leave. -/
theorem count_repeats_motion_lastLine :
    let ed : Editor := ⟨Session.new .normal {} none,
      .ofText ['a', 'b', '\n', '\n', 'c', 'd'] 1⟩
    ed.host.Grants ∧ ed.host.text.IsNormal 1 ∧
      let once := (ed.pressAll [.text '3', .text 'j']).2
      let again := (ed.pressAll [.text 'j', .text 'j', .text 'j']).2
      once.host.text = again.host.text ∧ once.host.selection = again.host.selection ∧
        once.session.mode = again.session.mode ∧
        once.session.preferred = again.session.preferred := by
  intro ed
  have hg : ed.host.Grants := ⟨rfl, rfl, rfl⟩
  have hnormal : ed.host.text.IsNormal 1 := Or.inl ⟨'b', rfl, by decide⟩
  have hcounted : [InputEvent.text '3', .text 'j'].map (·.stroke?) =
      ((Nat.toDigits 10 3 ++ ['j']).map Stroke.char).map some := rfl
  have hrepeated : [InputEvent.text 'j', .text 'j', .text 'j'].map (·.stroke?) =
      ((List.replicate 3 'j').map Stroke.char).map some := rfl
  exact ⟨hg, hnormal, count_repeats_motion hg rfl rfl rfl rfl hnormal (by decide) (by decide)
    (by decide) hcounted hrepeated⟩

end Editor

end ModalEdit
