import Mathlib.Order.Interval.Finset.Nat
import ModalEdit.Proofs.CountedMotions

/-!
# A count and the start of words

A step ahead to the start of a word may lead to where no cursor rests. From the last word it leads
to the end of that word, even if a line break follows directly. There a cursor is pulled back onto
the word, and the same step leads to the same place again; a count goes on to the end of the text.
In all other cases a count repeats the step (`count_repeats_nextWord`).

Both runs go from one start of a word to the next as long as there is one, and `Text.wordsAfter`
says how many there are. So the proofs are by induction on the number of steps and take off the
first one (`Text.nextWordStart_cases`): it leads to the next start, to the end of the text, or to
the end of the last word.
-/

namespace ModalEdit

namespace Text

variable {t : Text} {big : Bool} {i j n : Nat}

/-! ## The words ahead -/

instance (t : Text) (big : Bool) (j : Nat) : Decidable (t.StartsWord big j) :=
  inferInstanceAs (Decidable (∃ cls ∈ t.classAt big j, cls ≠ .space ∧
    (j = 0 ∨ t.classAt big (j - 1) ≠ some cls)))

/-- How many words start after an index. -/
def wordsAfter (t : Text) (big : Bool) (i : Nat) : Nat :=
  ((Finset.Ioo i t.length).filter (t.StartsWord big ·)).card

theorem StartsWord.lt_length (h : t.StartsWord big j) : j < t.length := by
  obtain ⟨cls, hcls, -⟩ := h
  exact lt_length_of_classAt hcls

theorem StartsWord.isNormal (h : t.StartsWord big j) : t.IsNormal j := by
  obtain ⟨cls, hcls, hne, -⟩ := h
  exact isNormal_of_classAt hcls hne

theorem wordsAfter_eq_zero (h : ∀ k, i < k → ¬t.StartsWord big k) : t.wordsAfter big i = 0 := by
  rw [wordsAfter, Finset.card_eq_zero, Finset.filter_eq_empty_iff]
  intro k hk
  exact h k (Finset.mem_Ioo.1 hk).1

theorem wordsAfter_eq_succ (h : IsLeast {k | i < k ∧ t.StartsWord big k} j) :
    t.wordsAfter big i = t.wordsAfter big j + 1 := by
  obtain ⟨⟨hij, hj⟩, hleast⟩ := h
  have hsplit : (Finset.Ioo i t.length).filter (t.StartsWord big ·) =
      insert j ((Finset.Ioo j t.length).filter (t.StartsWord big ·)) := by
    ext k
    simp only [Finset.mem_filter, Finset.mem_Ioo, Finset.mem_insert]
    constructor
    · rintro ⟨⟨hik, hlt⟩, hk⟩
      rcases Nat.lt_or_eq_of_le (hleast ⟨hik, hk⟩) with hjk | rfl
      · exact Or.inr ⟨⟨hjk, hlt⟩, hk⟩
      · exact Or.inl rfl
    · rintro (rfl | ⟨⟨hjk, hlt⟩, hk⟩)
      · exact ⟨⟨hij, hj.lt_length⟩, hj⟩
      · exact ⟨⟨Nat.lt_trans hij hjk, hlt⟩, hk⟩
  rw [wordsAfter, hsplit, Finset.card_insert_of_notMem (by simp), wordsAfter]

theorem restingIndex_lineBreak (hbreak : t[j + 1]? = some '\n') (hj : t[j]? ≠ some '\n') :
    t.restingIndex (j + 1) = j := by
  have hlt : j + 1 < t.length := (List.getElem?_eq_some_iff.1 hbreak).1
  rcases restingIndex_cases (Nat.le_of_lt hlt) with hstays | ⟨-, hback, -⟩
  · have hnormal := t.isNormal_restingIndex (j + 1)
    rw [hstays] at hnormal
    rcases hnormal with ⟨c, hc, hne⟩ | ⟨l, hl, -, hstart⟩
    · exact absurd (Option.some.inj (hc.symm.trans hbreak)) hne
    · -- an empty line is the first one or has a line break before it
      cases l with
      | zero => simp at hstart
      | succ l =>
        rw [lineStart_succ (Nat.lt_of_succ_le hl), Nat.add_right_cancel_iff] at hstart
        rw [hstart, getElem?_lineEnd (Nat.lt_of_succ_le hl)] at hj
        exact absurd rfl hj
  · simpa using hback

/-- The last character of the last word is at `j`. All that comes after it is white space. -/
structure EndsLastWord (t : Text) (big : Bool) (j : Nat) : Prop where
  word : ∃ cls, t.classAt big j = some cls ∧ cls ≠ .space
  space : ∀ k, j < k → k < t.length → t.classAt big k = some .space

/-- A line break directly follows the last word, whose last character is at `j`. -/
structure BreaksAfterLastWord (t : Text) (big : Bool) (j : Nat) : Prop
    extends EndsLastWord t big j where
  lineBreak : t[j + 1]? = some '\n'

theorem EndsLastWord.not_startsWord (h : t.EndsLastWord big j) (k : Nat) (hk : j < k) :
    ¬t.StartsWord big k := by
  rintro ⟨cls, hcls, hne, -⟩
  exact hne (Option.some.inj (hcls.symm.trans (h.space k hk (lt_length_of_classAt hcls))))

theorem EndsLastWord.nextWordStart_eq (h : t.EndsLastWord big j) (hlt : j + 1 < t.length)
    (hij : i ≤ j) (hnone : ∀ k, i < k → ¬t.StartsWord big k) :
    t.nextWordStart big i = some (j + 1) := by
  obtain ⟨cls, hcls, hne⟩ := h.word
  obtain ⟨m, hmj, hstarts, hsame⟩ := exists_startsWord hcls hne
  have hmi : m ≤ i := Nat.le_of_not_lt fun him => hnone m him hstarts
  obtain ⟨k, hk, -, hend⟩ := nextWordStart_spec big (show i < t.length by omega)
  specialize hend hnone cls (hsame i hmi hij)
  rw [if_neg hne] at hend
  have hik := hend.le
  have hspace := h.space (j + 1) (Nat.lt_succ_self j) hlt
  have hjk : ¬k ≤ j := fun hkj => hend.stop (hsame k (by omega) hkj)
  have hkj : ¬j + 1 < k := fun hlt =>
    hne (Option.some.inj ((hend.same (j + 1) (by omega) hlt).symm.trans hspace))
  obtain rfl : k = j + 1 := by omega
  exact hk

namespace BreaksAfterLastWord

theorem succ_lt (h : t.BreaksAfterLastWord big j) : j + 1 < t.length :=
  (List.getElem?_eq_some_iff.1 h.lineBreak).1

theorem restingIndex_succ (h : t.BreaksAfterLastWord big j) : t.restingIndex (j + 1) = j := by
  refine restingIndex_lineBreak h.lineBreak fun hbreak => ?_
  obtain ⟨cls, hcls, hne⟩ := h.word
  have hspace := (CharClass.of_eq_space_iff big '\n').2 Unicode.isWhiteSpace_newline
  rw [classAt, hbreak] at hcls
  exact hne (Option.some.inj hcls ▸ hspace)

end BreaksAfterLastWord

/-! ## One step -/

/-- A step leads to the next start, to the end of the text, or to the end of the last word with only
white space after it. -/
theorem nextWordStart_cases (big : Bool) (hi : i < t.length) :
    (∃ j, t.nextWordStart big i = some j ∧ IsLeast {k | i < k ∧ t.StartsWord big k} j) ∨
    (∀ k, i < k → ¬t.StartsWord big k) ∧
      (t.nextWordStart big i = some t.length ∨
        ∃ j, t.nextWordStart big i = some (j + 1) ∧ i ≤ j ∧ j + 1 < t.length ∧
          t.EndsLastWord big j) := by
  obtain ⟨j, hj, hleast, hend⟩ := nextWordStart_spec big hi
  by_cases hword : ∃ k, i < k ∧ t.StartsWord big k
  · exact Or.inl ⟨j, hj, hleast hword⟩
  have hnone : ∀ k, i < k → ¬t.StartsWord big k := fun k hik hk => hword ⟨k, hik, hk⟩
  refine Or.inr ⟨hnone, ?_⟩
  obtain ⟨cls, hcls⟩ := exists_classAt big hi
  specialize hend hnone cls hcls
  split at hend
  case isTrue => exact Or.inl (hend ▸ hj)
  case isFalse hne =>
    have hle := hend.stop_le (Nat.le_of_lt hi)
    rcases Nat.lt_or_eq_of_le hle with hlt | rfl
    · have hij : i ≠ j := fun h => hend.stop (h ▸ hcls)
      have hile := hend.le
      obtain ⟨j, rfl⟩ := Nat.exists_eq_succ_of_ne_zero (show j ≠ 0 by omega)
      have hlast := hend.same j (by omega) (Nat.lt_succ_self j)
      refine Or.inr ⟨j, hj, by omega, hlt, ⟨cls, hlast, hne⟩, fun k hjk hk => ?_⟩
      obtain ⟨cls', hcls'⟩ := exists_classAt big hk
      by_contra hspace
      -- the word at `k` would start after the last one
      obtain ⟨m, hmk, hstarts, hsame⟩ := exists_startsWord hcls' fun hsp => hspace (hsp ▸ hcls')
      have hmi : m ≤ i := Nat.le_of_not_lt fun him => hnone m him hstarts
      have hcls'' : cls' = cls :=
        Option.some.inj ((hsame i hmi (by omega)).symm.trans hcls)
      exact hend.stop (hcls'' ▸ hsame (j + 1) (by omega) hjk)
    · exact Or.inl hj

/-! ## Steps in a row -/

/-- Where steps in a row to the start of a word lead. -/
def nextWords (t : Text) (big : Bool) (n i : Nat) : Option Nat :=
  (stepRepeat (toNextStart big) n (t.drop i)).map (i + ·)

theorem nextWords_one (t : Text) (big : Bool) (i : Nat) :
    t.nextWords big 1 i = t.nextWordStart big i := by
  rw [nextWords, stepRepeat_one, nextWordStart]

theorem nextWords_succ (hn : 0 < n) (hj : t.nextWordStart big i = some j) :
    t.nextWords big (n + 1) i = some ((t.nextWords big n j).getD j) := by
  obtain ⟨k, hk, rfl⟩ := Option.map_eq_some_iff.1 hj
  rw [nextWords, stepRepeat_succ (fun _ _ => toNextStart_pos) hn, hk, nextWords, Option.map_some,
    List.drop_drop]
  cases stepRepeat (toNextStart big) n (t.drop (i + k)) <;> simp [Nat.add_assoc]

theorem nextWords_length (t : Text) (big : Bool) (n : Nat) :
    t.nextWords big n t.length = none := by
  rw [nextWords, List.drop_length]
  rfl

/-- Where a step leads to the end of the text, so do all that begin with it. -/
theorem nextWords_of_end (hn : 0 < n) (h : t.nextWordStart big i = some t.length) :
    t.nextWords big n i = some t.length := by
  cases n with
  | zero => cases hn
  | succ n =>
    rcases Nat.eq_zero_or_pos n with rfl | hpos
    · rw [nextWords_one, h]
    · rw [nextWords_succ hpos h, nextWords_length, Option.getD_none]

/-- **Two steps more than there are words ahead lead to the end of the text.** -/
theorem nextWords_saturate (hi : i < t.length) (hn : t.wordsAfter big i + 2 ≤ n) :
    t.nextWords big n i = some t.length := by
  induction n generalizing i with
  | zero => cases hn
  | succ n ih =>
    rcases nextWordStart_cases big hi with
      ⟨j, hj, hleast⟩ | ⟨hnone, hend | ⟨j, hj, -, hlt, hlast⟩⟩
    · have hwords := wordsAfter_eq_succ hleast
      rw [nextWords_succ (by omega) hj, ih hleast.1.2.lt_length (by omega), Option.getD_some]
    · exact nextWords_of_end (Nat.succ_pos n) hend
    · -- white space alone is ahead of the end of the last word
      obtain ⟨k, hk, -, hend⟩ := nextWordStart_spec big hlt
      specialize hend (fun k hk => hlast.not_startsWord k (by omega)) .space
        (hlast.space _ (Nat.lt_succ_self j) hlt)
      rw [if_pos rfl] at hend
      rw [nextWords_succ (by omega) hj, nextWords_of_end (by omega) (hend ▸ hk), Option.getD_some]

end Text

/-! ## Where the cursor comes to stand -/

namespace Motion

variable {t : Text} {big : Bool} {st : Stance} {j n : Nat}

theorem lead_nextWord (hn : 0 < n) (st : Stance) :
    (nextWord big).lead t n st =
      match t.nextWords big n (st.index t) with
      | none => st
      | some j => ⟨.cursor (t.restingIndex j), none⟩ := by
  rw [(walks_nextWord t big).lead_eq hn, Text.nextWords]
  show (match stepRepeat (toNextStart big) n (t.drop (st.index t)) with
    | none => st
    | some k => _) = _
  cases stepRepeat (toNextStart big) n (t.drop (st.index t)) <;> rfl

theorem lead_nextWord_of_some (hn : 0 < n) (h : t.nextWords big n (st.index t) = some j) :
    (nextWord big).lead t n st = ⟨.cursor (t.restingIndex j), none⟩ := by
  rw [lead_nextWord hn, h]

theorem lead_nextWord_one (h : t.nextWordStart big (st.index t) = some j) :
    (nextWord big).lead t 1 st = ⟨.cursor (t.restingIndex j), none⟩ :=
  lead_nextWord_of_some Nat.one_pos (by rw [Text.nextWords_one, h])

theorem lead_nextWord_isNormal (h : t.nextWordStart big (st.index t) = some j)
    (hnormal : t.IsNormal j) : (nextWord big).lead t 1 st = ⟨.cursor j, none⟩ := by
  rw [lead_nextWord_one h, hnormal.restingIndex_eq]

theorem lead_nextWord_length (hn : 0 < n) (h : st.index t = t.length) :
    (nextWord big).lead t n st = st := by
  rw [lead_nextWord hn, h, Text.nextWords_length]

theorem lead_nextWord_succ (hj : t.nextWordStart big (st.index t) = some j) (hnormal : t.IsNormal j)
    (hn : 0 < n) :
    (nextWord big).lead t (n + 1) st = (nextWord big).lead t n ((nextWord big).lead t 1 st) := by
  refine (walks_nextWord t big).lead_succ (fun k hk => ?_) hn
  have hstep : t.nextWordStart big (st.index t) = some (st.index t + k) :=
    congrArg (Option.map (st.index t + ·)) hk
  obtain rfl : j = st.index t + k := Option.some.inj (hj.symm.trans hstep)
  exact hnormal

theorem lead_nextWord_last (t : Text) (big : Bool) :
    (nextWord big).lead t 1 ⟨.cursor (t.restingIndex t.length), none⟩ =
      ⟨.cursor (t.restingIndex t.length), none⟩ := by
  have hrests := t.isNormal_restingIndex t.length
  have hindex := Stance.index_cursor hrests.le_length none
  rcases t.restingIndex_cases (Nat.le_refl t.length) with hlast | ⟨hpos, hlast, -⟩
  · exact lead_nextWord_length Nat.one_pos (hindex.trans hlast)
  · refine lead_nextWord_one ?_
    rw [hindex, hlast]
    rcases Text.nextWordStart_cases big (Nat.sub_lt hpos Nat.one_pos) with
      ⟨j, -, ⟨hj, hstarts⟩, -⟩ | ⟨-, hend | ⟨j, -, hij, hlt, -⟩⟩
    · have hlt := hstarts.lt_length
      omega
    · exact hend
    · omega

/-- Two steps more than there are words ahead are as good as any number from there on. -/
theorem lead_nextWord_congr {m : Nat} (hn : t.wordsAfter big (st.index t) + 2 ≤ n)
    (hm : t.wordsAfter big (st.index t) + 2 ≤ m) :
    (nextWord big).lead t n st = (nextWord big).lead t m st := by
  rcases Nat.lt_or_eq_of_le (st.index_le t) with hi | hi
  · rw [lead_nextWord_of_some (by omega) (Text.nextWords_saturate hi hn),
      lead_nextWord_of_some (by omega) (Text.nextWords_saturate hi hm)]
  · rw [lead_nextWord_length (by omega) hi, lead_nextWord_length (by omega) hi]

/-- **Steps that rest in between do not leave the last word** if a line break follows it: they go
from start to start, and the step after the last start is pulled back every time. -/
theorem iterate_lead_nextWord_lastWord (h : t.BreaksAfterLastWord big j) (hj : st.index t ≤ j)
    (hn : t.wordsAfter big (st.index t) + 1 ≤ n) :
    ((nextWord big).lead t 1)^[n] st = ⟨.cursor j, none⟩ := by
  have hlt := h.succ_lt
  induction n generalizing st with
  | zero => cases hn
  | succ n ih =>
    rw [Function.iterate_succ_apply]
    by_cases hnone : ∀ k, st.index t < k → ¬t.StartsWord big k
    · have hfirst := lead_nextWord_one (h.nextWordStart_eq hlt hj hnone)
      rw [h.restingIndex_succ] at hfirst
      have hindex := Stance.index_cursor (show j ≤ t.length by omega) none
      cases n with
      | zero => exact hfirst
      | succ n =>
        rw [hfirst]
        refine ih (Nat.le_of_eq hindex) ?_
        rw [hindex, Text.wordsAfter_eq_zero h.not_startsWord]
        omega
    · rcases Text.nextWordStart_cases big (show st.index t < t.length by omega) with
        ⟨m, hm, hleast⟩ | ⟨hnone', -⟩
      · have hstarts := hleast.1.2
        have hwords := Text.wordsAfter_eq_succ hleast
        have hindex := Stance.index_cursor (Nat.le_of_lt hstarts.lt_length) none
        rw [lead_nextWord_isNormal hm hstarts.isNormal]
        refine ih ?_ ?_
        · rw [hindex]
          exact Nat.le_of_not_lt fun hjm => h.not_startsWord m hjm hstarts
        · rw [hindex]
          omega
      · exact absurd hnone' hnone

/-- **Otherwise a count is as many steps.** The first step leads to a Normal position, and the
others follow from there, or to the end of the text, where all further steps end. -/
theorem lead_nextWord_eq_iterate (hn : 0 < n)
    (hword : ∀ j, t.BreaksAfterLastWord big j → st.index t ≤ j →
      n < t.wordsAfter big (st.index t) + 2) :
    (nextWord big).lead t n st = ((nextWord big).lead t 1)^[n] st := by
  induction n, hn using Nat.le_induction generalizing st with
  | base => rfl
  | succ n hn ih =>
    rw [Function.iterate_succ_apply]
    rcases Nat.lt_or_eq_of_le (st.index_le t) with hi | hi
    · rcases Text.nextWordStart_cases big hi with
        ⟨j, hj, hleast⟩ | ⟨hnone, hend | ⟨j, hj, hij, hlt, hlast⟩⟩
      · -- a word starts after the cursor, and the other steps go on from it
        have hstarts := hleast.1.2
        have hnormal := hstarts.isNormal
        have hwords := Text.wordsAfter_eq_succ hleast
        have hindex := Stance.index_cursor hnormal.le_length none
        rw [lead_nextWord_succ hj hnormal hn, lead_nextWord_isNormal hj hnormal]
        refine ih fun b hb hjb => ?_
        rw [hindex] at hjb ⊢
        have hless := hword b hb (Nat.le_trans (Nat.le_of_lt hleast.1.1) hjb)
        omega
      · -- white space up to the end, where every further step stays
        have hfirst := lead_nextWord_one hend
        have hmore := Text.nextWords_of_end (Nat.succ_pos n) hend
        rw [lead_nextWord_of_some (Nat.succ_pos n) hmore, hfirst,
          Function.iterate_fixed (lead_nextWord_last t big)]
      · -- no line break is at the end of the last word, so a cursor rests there
        have hwords := Text.wordsAfter_eq_zero hnone
        have hbreak : t[j + 1]? ≠ some '\n' := by
          intro hbreak
          have hless := hword j ⟨hlast, hbreak⟩ hij
          omega
        have hget := List.getElem?_eq_getElem hlt
        have hnormal : t.IsNormal (j + 1) :=
          Or.inl ⟨_, hget, fun hc => hbreak (hget.trans (congrArg some hc))⟩
        have hindex := Stance.index_cursor hnormal.le_length none
        rw [lead_nextWord_succ hj hnormal hn, lead_nextWord_isNormal hj hnormal]
        refine ih fun b hb hjb => ?_
        rw [hindex] at hjb
        obtain ⟨cls, hcls, hne⟩ := hb.word
        exact absurd (Option.some.inj
          (hcls.symm.trans (hlast.space b (by omega) (Text.lt_length_of_classAt hcls)))) hne
    · have hstays : (nextWord big).lead t 1 st = st := lead_nextWord_length Nat.one_pos hi
      rw [lead_nextWord_length (Nat.succ_pos n) hi, hstays, Function.iterate_fixed hstays]

end Motion

/-! ## Counts and repeated keys -/

theorem Motion.plainKey_nextWord {key : Char} {big : Bool}
    (h : (key, big) ∈ [('w', false), ('W', true)]) : Motion.PlainKey key (.nextWord big) := by
  simp only [List.mem_cons, List.not_mem_nil, or_false, Prod.mk.injEq] at h
  rcases h with ⟨rfl, rfl⟩ | ⟨rfl, rfl⟩
  · exact ⟨rfl, rfl, by decide, fun _ => rfl⟩
  · exact ⟨rfl, rfl, by decide, fun _ => rfl⟩

namespace Editor

variable {ed : Editor}

/-- **A count repeats the step to the start of a word**, in Normal mode with no partial input,
unless a line break directly follows the last word, the cursor is in or before that word, and the
count is two more than the words that start after the cursor, or larger. Then the count leads to the
last Normal position of the text, and the key typed as often to the last character of the last word.
A count over the limit counts as the limit, which is as good as that number if there are few enough
words. -/
theorem count_repeats_nextWord (hg : ed.host.Grants) (hmode : ed.session.mode = .normal)
    (hlookahead : ed.session.input.lookahead = none) (hoperator : ed.session.input.operator = none)
    (hcount : ed.session.input.count = none) {key : Char} {big : Bool}
    (hkey : (key, big) ∈ [('w', false), ('W', true)]) {n : Nat} (hpos : 1 ≤ n)
    (hlimit : n ≤ Count.limit ∨
      ed.host.text.wordsAfter big (ed.session.cursor ed.host.text ed.host.selection) + 2 ≤
        Count.limit) {counted repeated : List InputEvent}
    (hcounted : counted.map (·.stroke?) = ((Nat.toDigits 10 n ++ [key]).map Stroke.char).map some)
    (hrepeated : repeated.map (·.stroke?) =
      ((List.replicate n key).map Stroke.char).map some) :
    let t := ed.host.text
    let i := ed.session.cursor t ed.host.selection
    let once := (ed.pressAll counted).2
    let again := (ed.pressAll repeated).2
    once.host.text = t ∧ again.host.text = t ∧
      (∀ j, t.BreaksAfterLastWord big j → i ≤ j → t.wordsAfter big i + 2 ≤ n →
        once.host.selection = .cursor (t.restingIndex t.length) ∧
          again.host.selection = .cursor j ∧ j < t.restingIndex t.length) ∧
      ((∀ j, t.BreaksAfterLastWord big j → i ≤ j → n < t.wordsAfter big i + 2) →
        once.host.selection = again.host.selection) := by
  intro t i once again
  have hplain := Motion.plainKey_nextWord hkey
  have hstands : ed.Stands t ed.stance none :=
    ⟨⟨hg, hmode, hlookahead, hoperator, hcount⟩, rfl, rfl, rfl⟩
  have hcursor : i = ed.stance.index t := Session.cursor_eq (by rw [hmode]; rfl)
  have honce := stands_counted hstands hplain hpos counted hcounted
  have hagain := stands_repeated hstands hplain n repeated hrepeated
  -- the limit on counts does not show, as either it is not reached or the words run out first
  have hsaturates : (Motion.nextWord big).lead t (min n Count.limit) ed.stance =
      (Motion.nextWord big).lead t n ed.stance := by
    rcases Nat.le_total n Count.limit with hle | hge
    · rw [Nat.min_eq_left hle]
    · rw [Nat.min_eq_right hge]
      rcases hlimit with hle | hwords
      · rw [Nat.le_antisymm hle hge]
      · have hwords : t.wordsAfter big (ed.stance.index t) + 2 ≤ Count.limit := hcursor ▸ hwords
        exact Motion.lead_nextWord_congr hwords (Nat.le_trans hwords hge)
  rw [hsaturates] at honce
  rw [hcursor]
  refine ⟨honce.text, hagain.text, fun j hj hij hn => ⟨?_, ?_, ?_⟩, fun hword => ?_⟩
  · have hlt := hj.succ_lt
    have hend := Text.nextWords_saturate (show ed.stance.index t < t.length by omega) hn
    rw [honce.selection, Motion.lead_nextWord_of_some hpos hend]
  · rw [hagain.selection, Motion.iterate_lead_nextWord_lastWord hj hij (by omega)]
  · have hlt := hj.succ_lt
    rcases t.restingIndex_cases (Nat.le_refl t.length) with hlast | ⟨-, hlast, -⟩ <;> omega
  · rw [honce.selection, hagain.selection, Motion.lead_nextWord_eq_iterate hpos hword]

/-- Over two words and a line break two steps at once and one by one lead to the same place, three
do not. -/
theorem count_repeats_nextWord_two_words :
    let ed : Editor := ⟨Session.new .normal {} none, .ofText ['a', ' ', 'b', '\n'] 0⟩
    ed.host.Grants ∧
      (ed.pressAll [.text '2', .text 'w']).2.host.selection =
        (ed.pressAll [.text 'w', .text 'w']).2.host.selection ∧
      (ed.pressAll [.text '3', .text 'w']).2.host.selection = .cursor 4 ∧
      (ed.pressAll [.text 'w', .text 'w', .text 'w']).2.host.selection = .cursor 2 := by
  intro ed
  have hg : ed.host.Grants := ⟨rfl, rfl, rfl⟩
  have hkey : ('w', false) ∈ [('w', false), ('W', true)] := by decide
  have hbreaks : ed.host.text.BreaksAfterLastWord false 2 := by
    refine ⟨⟨⟨.text, by decide, by decide⟩, fun k hk hlt => ?_⟩, rfl⟩
    have hlt : k < 4 := hlt
    obtain rfl : k = 3 := by omega
    decide
  have htwice : [InputEvent.text '2', .text 'w'].map (·.stroke?) =
      ((Nat.toDigits 10 2 ++ ['w']).map Stroke.char).map some := rfl
  have hthrice : [InputEvent.text '3', .text 'w'].map (·.stroke?) =
      ((Nat.toDigits 10 3 ++ ['w']).map Stroke.char).map some := rfl
  have hpair : [InputEvent.text 'w', .text 'w'].map (·.stroke?) =
      ((List.replicate 2 'w').map Stroke.char).map some := rfl
  have htriple : [InputEvent.text 'w', .text 'w', .text 'w'].map (·.stroke?) =
      ((List.replicate 3 'w').map Stroke.char).map some := rfl
  have htwo := count_repeats_nextWord hg rfl rfl rfl rfl hkey (by decide) (Or.inl (by decide))
    htwice hpair
  have hthree := count_repeats_nextWord hg rfl rfl rfl rfl hkey (by decide) (Or.inl (by decide))
    hthrice htriple
  have hpast := hthree.2.2.1 2 hbreaks (by decide) (by decide)
  exact ⟨hg, htwo.2.2.2 fun _ _ _ => by decide, hpast.1, hpast.2.1⟩

/-- In a text of one word and a line break two steps at once lead past the line break, and two steps
one by one stay on the word. -/
theorem count_not_repeats_nextWord :
    let ed : Editor := ⟨Session.new .normal {} none, .ofText ['a', '\n'] 0⟩
    ed.host.Grants ∧ ed.session.input = .idle .normal ∧ ed.host.text.IsNormal 0 ∧
      (ed.pressAll [.text '2', .text 'w']).2.host.selection = .cursor 2 ∧
      (ed.pressAll [.text 'w', .text 'w']).2.host.selection = .cursor 0 := by
  intro ed
  exact ⟨⟨rfl, rfl, rfl⟩, rfl, Or.inl ⟨'a', rfl, by decide⟩, by decide, by decide⟩

end Editor

end ModalEdit
