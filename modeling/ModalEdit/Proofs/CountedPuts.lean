import ModalEdit.Proofs.CountedMotions
import ModalEdit.Proofs.LinePuts
import ModalEdit.Proofs.Positions
import ModalEdit.Proofs.Splices

/-!
# Counted puts

Putting with a count shows what putting as many times does, of characters after the cursor and of
lines above it (`count_repeats_put`).

A put is the insertion of copies, and where it goes depends on where the one before left the cursor.
Characters go after the cursor, and a put leaves it on the last character it put in, so the next
copies follow (`CharsPut`). Lines go above the cursor's line, and a put leaves the cursor on the
first line it put in, which is where the next copies go (`LinesPut`). So a put with a count `n`
takes a state with `k` copies to one with `k + n`, and both runs end with the same number of copies.
-/

namespace ModalEdit

variable {t u : Text} {i k l n : Nat}

/-! ## Copies put in -/

namespace Text

theorem copies_zero (t : Text) : t.copies 0 = [] := by
  rw [copies_eq, List.replicate_zero, List.flatten_nil]

theorem copies_add (t : Text) (m n : Nat) : t.copies (m + n) = t.copies m ++ t.copies n := by
  rw [copies_eq, copies_eq, copies_eq, List.replicate_add, List.flatten_append]

theorem lineBreak_notMem_copies (h : '\n' ∉ t) (n : Nat) : '\n' ∉ t.copies n := by
  intro hbreak
  rw [copies_eq] at hbreak
  obtain ⟨copy, hcopy, hbreak⟩ := List.mem_flatten.1 hbreak
  exact h (List.eq_of_mem_replicate hcopy ▸ hbreak)

theorem getElem?_last_copy {w : Text} (hw : w ≠ []) (hbreak : '\n' ∉ w) (hi : i ≤ t.length)
    (hn : 0 < n) :
    ∃ c, (t.splice i i (w.copies n))[i + n * w.length - 1]? = some c ∧ c ≠ '\n' := by
  have hmany : 0 < n * w.length := Nat.mul_pos hn (List.length_pos_iff.2 hw)
  have hlt : n * w.length - 1 < (w.copies n).length := by
    rw [length_copies]
    omega
  refine ⟨(w.copies n)[n * w.length - 1], ?_, ?_⟩
  · rw [Nat.add_sub_assoc hmany, getElem?_splice_new hi hlt, List.getElem?_eq_getElem hlt]
  · intro hlast
    exact lineBreak_notMem_copies hbreak n (hlast ▸ List.getElem_mem hlt)

theorem lineStart_of_take_eq (hl : l ≤ t.lastLine)
    (h : u.take (t.lineStart l) = t.take (t.lineStart l)) :
    u.lineStart l = t.lineStart l ∧ l ≤ u.lastLine := by
  have hlength := length_take_lines (Nat.le_succ_of_le hl)
  have habove : ∀ line ∈ t.lines.take l, '\n' ∉ line := fun _ => lineBreak_notMem_of_mem_take
  have hu : u = ofLines (t.lines.take l) ++ u.drop (t.lineStart l) := by
    rw [← take_lineStart hl, ← h, List.take_append_drop]
  have hstart := lineStart_ofLines_append habove (u.drop (t.lineStart l))
  have hlast := length_le_lastLine_ofLines habove (u.drop (t.lineStart l))
  rw [hlength, ← hu] at hstart hlast
  exact ⟨hstart.trans (lineStart_eq_length hl).symm, hlast⟩

end Text

/-! ## Put commits -/

/-- The edit and landing that put copies of a register. -/
def Register.place (reg : Register) (t : Text) (n : Nat) (below : Bool) (cursor : Nat) :
    Edit × Landing :=
  if reg.linewise then Session.putLines t (reg.text.copies n) below (t.lineOf cursor)
  else Session.putChars t (reg.text.copies n) below cursor

/-- The commit that puts copies of a register. -/
def Register.put (reg : Register) (t : Text) (n : Nat) (below : Bool) (cursor : Nat) : Commit :=
  { edit := some (reg.place t n below cursor).1, landing := (reg.place t n below cursor).2 }

theorem Session.planPut_eq {s : Session} {sel : Selection} {reg : Register}
    (hread : s.registers.read s.registerName = some reg)
    (hfits : reg.text.utf8Length * n ≤ putLimit) (below : Bool) :
    s.planPut t sel n below = .commit (reg.put t n below (s.cursor t sel)) := by
  simp only [planPut, hread, if_pos hfits, Register.put, Register.place]

namespace Input

variable {pre keys : List Char} {count : Option Nat} {register again : Option Char}

/-- Keys typed before a command may follow ones that select a register. -/
theorem Preface.append (hpre : Preface pre none register) (h : Preface keys count again) :
    Preface (pre ++ keys) count (again.or register) := by
  induction h with
  | nil => rwa [List.append_nil]
  | digit _ hd hzero ih =>
    rw [← List.append_assoc]
    exact ih.digit hd hzero
  | register _ hc ih =>
    rw [← List.append_assoc]
    exact ih.register hc

end Input

namespace Editor

variable {ed after : Editor} {reg : Register} {pre : List Char} {count : Option Nat}
  {register : Option Char} {below : Bool}

/-- The keys that put after the cursor or before it. -/
def putKey (below : Bool) : Char :=
  if below then 'p' else 'P'

theorem types_put (h : ed.Ready) (hpre : Input.Preface pre count register)
    (hread : ed.session.registers.read (register.getD Registers.unnamed) = some reg)
    (hfits : reg.text.utf8Length * max (count.getD 1) 1 ≤ Session.putLimit) (below : Bool) :
    Types ed ((pre ++ [putKey below]).map .char) fun after => after.Ready ∧
      After (reg.put ed.host.text (max (count.getD 1) 1) below
        (min ed.host.selection.active ed.host.text.length)) ed after := by
  have hkey : Instant.ofKey (putKey below) =
      some (.quick (if below then .putAfter else .putBefore)) := by cases below <;> rfl
  have hplan : (ed.withInput (.prefaced none register)).planOfCommand
      (.instant (.quick (if below then .putAfter else .putBefore)) (count.getD 1)) =
        some (.commit (reg.put ed.host.text (max (count.getD 1) 1) below
          (min ed.host.selection.active ed.host.text.length))) := by
    have hput : (ed.withInput (.prefaced none register)).session.planPut ed.host.text
        ed.host.selection (max (count.getD 1) 1) below = .commit (reg.put ed.host.text
          (max (count.getD 1) 1) below (min ed.host.selection.active ed.host.text.length)) := by
      rw [Session.planPut_eq hread hfits, Session.cursor_eq rfl]
    rw [← hput]
    cases below <;> rfl
  have htypes := types_completes (hpre.completes (.last nofun (Input.read_quickKey hkey rfl rfl)))
    (ends_execute_ready h rfl rfl hplan fun _ hafter hready => And.intro hready hafter)
  rwa [withInput_idle h.input] at htypes

/-! ## Copies of characters and of lines -/

variable {start : Editor} {w : Text} {s : Nat}

/-- Copies of characters were put in, the cursor is on the last one, and more of them would follow
it. -/
structure CharsPut (start : Editor) (w : Text) (s k : Nat) (ed : Editor) : Prop where
  ready : ed.Ready
  registers : ed.session.registers = start.session.registers
  le : s ≤ start.host.text.length
  text : ed.host.text = start.host.text.splice s s (w.copies k)
  next : min (min ed.host.selection.active ed.host.text.length + 1)
    (ed.host.text.lineEnd (ed.host.text.lineOf
      (min ed.host.selection.active ed.host.text.length))) = s + k * w.length
  cursor : 0 < k → ed.host.selection = .cursor (s + k * w.length - 1)

theorem charsPut_zero (h : ed.Ready) (w : Text) : ∃ s, CharsPut ed w s 0 ed := by
  let cursor := min ed.host.selection.active ed.host.text.length
  refine ⟨min (cursor + 1) (ed.host.text.lineEnd (ed.host.text.lineOf cursor)), h, rfl, ?_, ?_, ?_,
    ?_⟩
  · exact Nat.le_trans (Nat.min_le_right _ _) (Text.lineEnd_le_length _ _)
  · rw [Text.copies_zero, Text.splice_nil_self]
  · rw [Nat.zero_mul]
    rfl
  · exact fun hpos => absurd hpos (Nat.lt_irrefl 0)

/-- **More copies of characters go after those put last.** -/
theorem types_putChars (h : CharsPut start w s k ed) (hpre : Input.Preface pre count register)
    (hread : start.session.registers.read (register.getD Registers.unnamed) = some ⟨false, w⟩)
    (hw : w ≠ []) (hbreak : '\n' ∉ w) (hn : max (count.getD 1) 1 = n)
    (hfits : w.utf8Length * n ≤ Session.putLimit) :
    Types ed ((pre ++ [putKey true]).map .char) (CharsPut start w s (k + n)) := by
  intro events hevents
  rw [← h.registers] at hread
  obtain ⟨hready, hafter⟩ := types_put h.ready hpre hread (by rwa [hn]) true events hevents
  have hplace : (Register.mk false w).place ed.host.text n true
      (min ed.host.selection.active ed.host.text.length) =
        (.insertion (s + k * w.length) (w.copies n),
          .index (s + k * w.length + (n * w.length - 1))) := by
    have hcopies := Text.lineBreak_notMem_copies hbreak n
    simp [Register.place, Session.putChars, h.next, hcopies]
  rw [hn, Register.put, hplace] at hafter
  have htext : (ed.pressAll events).2.host.text =
      start.host.text.splice s s (w.copies (k + n)) := by
    have hsplice := Text.splice_splice_after (Nat.le_refl _) h.le (w.copies k) (w.copies n)
    rw [hafter.text, h.text, Text.copies_add, ← hsplice, Text.length_copies]
    rfl
  -- the cursor rests on the last character of the last copy, so the next put goes right after it
  obtain ⟨c, hlast⟩ := Text.getElem?_last_copy hw hbreak h.le (n := k + n) (by omega)
  rw [← htext] at hlast
  have hcopies : 0 < n * w.length := Nat.mul_pos (by omega) (List.length_pos_iff.2 hw)
  have hlanding : s + k * w.length + (n * w.length - 1) = s + (k + n) * w.length - 1 := by
    rw [Nat.add_mul]
    omega
  have hselection : (ed.pressAll events).2.host.selection =
      .cursor (s + (k + n) * w.length - 1) := by
    rw [hafter.selection, Commit.cursor, ← hlanding]
    refine congrArg Selection.cursor (Text.IsNormal.restingIndex_eq (Or.inl ⟨c, ?_⟩))
    rw [Landing.resolve, hlanding]
    exact hlast
  refine ⟨hready, hafter.registers.trans h.registers, h.le, htext, ?_, fun _ => hselection⟩
  have hend := Text.lt_lineEnd_lineOf_iff.2 ⟨c, hlast⟩
  have hlength := (List.getElem?_eq_some_iff.1 hlast.1).1
  have hactive : min (ed.pressAll events).2.host.selection.active
      (ed.pressAll events).2.host.text.length = s + (k + n) * w.length - 1 := by
    rw [hselection]
    exact Nat.min_eq_left (Nat.le_of_lt hlength)
  rw [hactive, Nat.min_eq_left hend, ← hlanding, Nat.add_mul]
  omega

/-- Copies of lines were put in above a line, and the cursor is on the first of them. -/
structure LinesPut (start : Editor) (w : Text) (l k : Nat) (ed : Editor) : Prop where
  ready : ed.Ready
  registers : ed.session.registers = start.session.registers
  le : l ≤ start.host.text.lastLine
  text : ed.host.text = start.host.text.splice (start.host.text.lineStart l)
    (start.host.text.lineStart l) (w.copies k)
  line : ed.host.text.lineOf (min ed.host.selection.active ed.host.text.length) = l
  cursor : 0 < k → ed.host.selection = .cursor (ed.host.text.firstNonBlank l)

theorem linesPut_zero (h : ed.Ready) (w : Text) : ∃ l, LinesPut ed w l 0 ed := by
  refine ⟨_, h, rfl, Text.lineOf_le_lastLine _ _, ?_, rfl, ?_⟩
  · rw [Text.copies_zero, Text.splice_nil_self]
  · exact fun hpos => absurd hpos (Nat.lt_irrefl 0)

/-- **More copies of lines go above those put last.** -/
theorem types_putLines (h : LinesPut start w l k ed) (hpre : Input.Preface pre count register)
    (hread : start.session.registers.read (register.getD Registers.unnamed) = some ⟨true, w⟩)
    (hn : max (count.getD 1) 1 = n) (hfits : w.utf8Length * n ≤ Session.putLimit) :
    Types ed ((pre ++ [putKey false]).map .char) (LinesPut start w l (k + n)) := by
  intro events hevents
  rw [← h.registers] at hread
  obtain ⟨hready, hafter⟩ := types_put h.ready hpre hread (by rwa [hn]) false events hevents
  have hle := start.host.text.lineStart_le_length l
  have hstart : ed.host.text.lineStart l = start.host.text.lineStart l := by
    rw [h.text]
    exact (Text.lineStart_of_take_eq h.le (Text.take_splice hle (Nat.le_refl _) _ _)).1
  have hplace : (Register.mk true w).place ed.host.text n false
      (min ed.host.selection.active ed.host.text.length) =
        (.insertion (start.host.text.lineStart l) (w.copies n), .lineText l) := by
    simp [Register.place, Session.putLines, h.line, hstart]
  rw [hn, Register.put, hplace] at hafter
  have htext : (ed.pressAll events).2.host.text = start.host.text.splice
      (start.host.text.lineStart l) (start.host.text.lineStart l) (w.copies (k + n)) := by
    have hsplice := Text.splice_splice_before (Nat.le_refl _) hle (w.copies k) (w.copies n)
    rw [hafter.text, h.text, Nat.add_comm, Text.copies_add, ← hsplice]
    rfl
  have hlast : l ≤ (ed.pressAll events).2.host.text.lastLine := by
    rw [htext]
    exact (Text.lineStart_of_take_eq h.le (Text.take_splice hle (Nat.le_refl _) _ _)).2
  -- the cursor stays on the line the copies went in above
  have hselection : (ed.pressAll events).2.host.selection =
      .cursor ((ed.pressAll events).2.host.text.firstNonBlank l) := by
    rw [hafter.selection]
    show Selection.cursor (Text.restingIndex _ (Text.firstNonBlank _ (min l _))) = _
    rw [Nat.min_eq_left hlast, Text.restingIndex_firstNonBlank hlast]
  refine ⟨hready, hafter.registers.trans h.registers, h.le, htext, ?_, fun _ => hselection⟩
  rw [hselection]
  show Text.lineOf _ (min (Text.firstNonBlank _ l) _) = l
  rw [Nat.min_eq_left (Text.firstNonBlank_le_length _ _), Text.lineOf_firstNonBlank hlast]

/-! ## The two runs -/

theorem types_replicate {Put : Nat → Editor → Prop} {strokes : List Stroke}
    (hstep : ∀ k ed, Put k ed → Types ed strokes (Put (k + 1))) {k : Nat} (h : Put k ed) (n : Nat) :
    Types ed (List.replicate n strokes).flatten (Put (k + n)) := by
  induction n generalizing k ed with
  | zero => exact types_nil h
  | succ n ih =>
    rw [List.replicate_succ, List.flatten_cons]
    refine (hstep k ed h).append fun ed' h' => ?_
    have hrest := ih h'
    rwa [Nat.add_right_comm, Nat.add_assoc] at hrest

theorem CharsPut.sameView {a b : Editor} (ha : CharsPut start w s n a) (hb : CharsPut start w s n b)
    (hn : 0 < n) : SameView a b :=
  ⟨ha.text.trans hb.text.symm, (ha.cursor hn).trans (hb.cursor hn).symm,
    (congrArg Input.mode ha.ready.input).trans (congrArg Input.mode hb.ready.input).symm,
    ha.registers.trans hb.registers.symm⟩

theorem LinesPut.sameView {a b : Editor} (ha : LinesPut start w l n a) (hb : LinesPut start w l n b)
    (hn : 0 < n) : SameView a b := by
  have htext := ha.text.trans hb.text.symm
  refine ⟨htext, ?_, (congrArg Input.mode ha.ready.input).trans
    (congrArg Input.mode hb.ready.input).symm, ha.registers.trans hb.registers.symm⟩
  rw [ha.cursor hn, hb.cursor hn, htext]

/-- **A counted put is a repeated put.** The register that is put, selected or not, holds characters
with no line break among them, to put after the cursor, or lines, to put above it. Both runs leave
the same number of copies in the same place. -/
theorem count_repeats_put (h : ed.Ready) (hpre : Input.Preface pre none register)
    (hread : ed.session.registers.read (register.getD Registers.unnamed) = some reg)
    (hreg : reg.text ≠ []) (hkind : reg.linewise = !below)
    (hbreak : below = true → '\n' ∉ reg.text) (hn : 0 < n)
    (hfits : n * reg.text.utf8Length ≤ Session.putLimit) {counted repeated : List InputEvent}
    (hcounted : counted.map (·.stroke?) =
      ((pre ++ Nat.toDigits 10 n ++ [putKey below]).map .char).map some)
    (hrepeated : repeated.map (·.stroke?) =
      ((List.replicate n (pre ++ [putKey below])).flatten.map .char).map some) :
    SameView (ed.pressAll counted).2 (ed.pressAll repeated).2 ∧
      ∃ s ≤ ed.host.text.length, (ed.pressAll counted).2.host.text =
        ed.host.text.splice s s (reg.text.copies n) := by
  have hbytes : 0 < reg.text.utf8Length := by
    obtain ⟨c, cs, hcs⟩ := List.exists_cons_of_ne_nil hreg
    rw [hcs, Text.utf8Length_cons]
    have hsize := c.utf8Size_pos
    omega
  have hlimit : n ≤ Count.limit := by
    have hle := Nat.le_trans (Nat.le_mul_of_pos_right n hbytes) hfits
    exact Nat.le_trans hle (by decide)
  have hdigits := hpre.append (Input.preface_toDigits hn)
  rw [Option.none_or, Nat.min_eq_left hlimit] at hdigits
  have hmany : max ((some n).getD 1) 1 = n := Nat.max_eq_left hn
  have honce : max ((none : Option Nat).getD 1) 1 = 1 := rfl
  have hfits' : reg.text.utf8Length * n ≤ Session.putLimit := by rwa [Nat.mul_comm]
  have hfits₁ : reg.text.utf8Length * 1 ≤ Session.putLimit :=
    Nat.le_trans (Nat.mul_le_mul_left _ hn) hfits'
  have hstrokes : (List.replicate n (pre ++ [putKey below])).flatten.map Stroke.char =
      (List.replicate n ((pre ++ [putKey below]).map .char)).flatten := by
    rw [List.map_flatten, List.map_replicate]
  rw [hstrokes] at hrepeated
  obtain ⟨linewise, w⟩ := reg
  obtain rfl : linewise = !below := hkind
  -- either run ends with the same number of copies put, and that fixes what is shown
  cases below with
  | true =>
    obtain ⟨s, hstart⟩ := charsPut_zero h w
    have hputs := types_putChars hstart hdigits hread hreg (hbreak rfl) hmany hfits' counted
      hcounted
    have hruns := types_replicate (fun k ed h => types_putChars h hpre hread hreg (hbreak rfl)
      honce hfits₁) hstart n repeated hrepeated
    rw [Nat.zero_add] at hputs hruns
    exact ⟨hputs.sameView hruns hn, _, hputs.le, hputs.text⟩
  | false =>
    obtain ⟨l, hstart⟩ := linesPut_zero h w
    have hputs := types_putLines hstart hdigits hread hmany hfits' counted hcounted
    have hruns := types_replicate (fun k ed h => types_putLines h hpre hread honce hfits₁)
      hstart n repeated hrepeated
    rw [Nat.zero_add] at hputs hruns
    exact ⟨hputs.sameView hruns hn, _, Text.lineStart_le_length _ _, hputs.text⟩

/-- Two characters are put three times at the end of a line, and two lines twice. -/
theorem count_repeats_put_threeTimes :
    let chars : Registers := ({} : Registers).write Registers.unnamed ⟨false, ['x', 'y']⟩
    let lines : Registers := ({} : Registers).write 'q' ⟨true, ['x', '\n', ' ', 'y', '\n']⟩
    let new : Session := Session.new .normal {} none
    let atEnd : Editor := ⟨{ new with registers := chars }, .ofText ['a', 'b', '\n', 'c'] 1⟩
    let onLast : Editor := ⟨{ new with registers := lines }, .ofText ['a', '\n', 'b'] 2⟩
    SameView (atEnd.pressAll [.text '3', .text 'p']).2
        (atEnd.pressAll [.text 'p', .text 'p', .text 'p']).2 ∧
      SameView (onLast.pressAll [.text '"', .text 'q', .text '2', .text 'P']).2
        (onLast.pressAll
          [.text '"', .text 'q', .text 'P', .text '"', .text 'q', .text 'P']).2 := by
  intro chars lines new atEnd onLast
  have hchars : atEnd.Ready := ⟨rfl, rfl, rfl, rfl, rfl⟩
  have hlines : onLast.Ready := ⟨rfl, rfl, rfl, rfl, rfl⟩
  have hregister : Input.isRegisterName 'q' = true := by decide
  have hpre : Input.Preface ['"', 'q'] none (some 'q') := Input.Preface.nil.register hregister
  have hreadChars : atEnd.session.registers.read Registers.unnamed =
      some ⟨false, ['x', 'y']⟩ := rfl
  have hreadLines : onLast.session.registers.read 'q' =
      some ⟨true, ['x', '\n', ' ', 'y', '\n']⟩ := rfl
  have hbelow : false = !true := rfl
  have habove : true = !false := rfl
  refine ⟨(count_repeats_put (n := 3) hchars .nil hreadChars nofun hbelow (by decide) (by decide)
    (by decide) rfl rfl).1, ?_⟩
  exact (count_repeats_put (n := 2) hlines hpre hreadLines nofun habove nofun (by decide)
    (by decide) rfl rfl).1

end Editor

end ModalEdit
