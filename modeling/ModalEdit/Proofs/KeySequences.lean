import Mathlib.Data.List.Basic
import ModalEdit.Key.Notation

/-!
# Sequences of keys in writing

Keys written one after the other are read one after the other. A name ends at its closing bracket
and the search for that stops there, so what follows a key is no matter of how it is read
(`parseFrom_key`), and a sequence comes to what its keys come to (`parseAll_eq_flatMap`).

No name holds a closing bracket but one: `<C->>` is the chord of control and `>`. Read by itself it
is that key. In a sequence the first of its brackets is taken for the closing one, `C-` is no name,
and the chord comes to its five characters (`parseFrom_controlBracket`). The bare `<` is left out
everywhere: what follows it may make it the beginning of a name.

Main result: `parseAll_flatten`.
-/

namespace ModalEdit.KeyNotation

/-- Control is held and `>` is pressed. -/
def controlBracket : InputEvent := .press (.char '>') .control

/-- What a key comes to in a sequence. -/
def inSequence (s : List Char) : List InputEvent :=
  if parse s = some controlBracket then s.map ofChar else (parse s).toList

variable {s name : List Char} {key : InputEvent} {c d : Char} {keys : List (List Char)}

theorem inSequence_of_ne (h : parse s = some key) (hne : key ≠ controlBracket) :
    inSequence s = [key] := by
  unfold inSequence
  rw [h, if_neg fun hsome => hne (Option.some.inj hsome)]
  rfl

theorem inSequence_of_eq (h : parse s = some controlBracket) : inSequence s = s.map ofChar :=
  if_pos h

/-! ## Names -/

theorem eq_of_toLower_eq (hd : d.toNat < 'a'.toNat) (h : c.toLower = d) : c = d := by
  delta Char.toLower at h
  split at h
  · rename_i hupper
    have hlow : 65 ≤ c.val.toNat := hupper.1
    have hhigh : c.val.toNat ≤ 90 := hupper.2
    have hd : d.toNat < 97 := hd
    have hshift : (c.val + 32).toNat = d.toNat := congrArg Char.toNat h
    rw [UInt32.toNat_add] at hshift
    have hthirtytwo : (32 : UInt32).toNat = 32 := rfl
    omega
  · exact h

theorem ofName_eq_some (h : ofName name = some key) :
    name.length ≤ nameLimit ∧ ('>' ∈ name ↔ key = controlBracket) ∧
      ('>' ∈ name → name = ['c', '-', '>']) := by
  unfold ofName at h
  split_ifs at h with hescape henter hbackspace htab hless hspace
  case pos =>
    cases h
    subst hescape
    decide
  case pos =>
    cases h
    rcases henter with rfl | rfl | rfl <;> decide
  case pos =>
    cases h
    rcases hbackspace with rfl | rfl <;> decide
  case pos =>
    cases h
    subst htab
    decide
  case pos =>
    cases h
    subst hless
    decide
  case pos =>
    cases h
    subst hspace
    decide
  case neg =>
    split at h
    · cases h
      simp [nameLimit, controlBracket, eq_comm]
    · cases h

theorem parse_eq_some (hbare : s ≠ ['<']) (h : parse s = some key) :
    (∃ c, c ≠ '<' ∧ s = [c] ∧ key = ofChar c) ∨
      ∃ name, s = '<' :: (name ++ ['>']) ∧ ofName (name.map Char.toLower) = some key := by
  unfold parse at h
  split at h
  · rename_i c
    refine Or.inl ⟨c, fun hc => hbare (by rw [hc]), rfl, ?_⟩
    exact (Option.some.inj h).symm
  · unfold ofBracketed at h
    split at h
    · rename_i hlast
      obtain ⟨name, rfl⟩ := List.getLast?_eq_some_iff.1 hlast
      rw [List.dropLast_concat] at h
      exact Or.inr ⟨name, rfl, h⟩
    · cases h
  · cases h

theorem ofChar_ne_controlBracket (c : Char) : ofChar c ≠ controlBracket := by
  unfold ofChar
  split <;> simp [controlBracket, InputEvent.plain, Modifiers.control]

/-! ## One key after the other -/

theorem parseNamed_append (hname : '>' ∉ name) (hlength : name.length ≤ nameLimit)
    (rest : List Char) :
    parseNamed (name ++ '>' :: rest) =
      (ofName (name.map Char.toLower)).map fun key => (key, name.length + 1) := by
  have hsearched : (name ++ '>' :: rest).take (nameLimit + 1) =
      name ++ '>' :: rest.take (nameLimit - name.length) := by
    rw [List.take_append, List.take_of_length_le (by omega), Nat.succ_sub hlength,
      List.take_succ_cons]
  have hnone : name.findIdx? (· == '>') = none := by
    refine List.findIdx?_eq_none_iff.2 fun c hc => ?_
    exact beq_false_of_ne fun heq => hname (heq ▸ hc)
  have hclose : ((name ++ '>' :: rest).take (nameLimit + 1)).findIdx? (· == '>') =
      some name.length := by
    rw [hsearched, List.findIdx?_append, hnone, List.findIdx?_cons]
    simp
  have hwritten : (name ++ '>' :: rest).take (name.length + 1) = name ++ ['>'] := by
    rw [List.take_length_add_append]
    rfl
  have hread : ofBracketed (name ++ ['>']) = ofName (name.map Char.toLower) := by
    unfold ofBracketed
    rw [if_pos List.getLast?_concat, List.dropLast_concat]
  unfold parseNamed
  rw [hclose]
  show (ofBracketed ((name ++ '>' :: rest).take (name.length + 1)) >>= fun key =>
    some (key, name.length + 1)) = _
  rw [hwritten, hread]
  cases ofName (name.map Char.toLower) <;> rfl

theorem parseFrom_append (written rest : List Char) :
    parseFrom written.length (written ++ rest) = parseFrom 0 rest := by
  induction written with
  | nil => rfl
  | cons c written ih => exact ih

theorem parseFrom_char (hc : c ≠ '<') (rest : List Char) :
    parseFrom 0 (c :: rest) = ofChar c :: parseFrom 0 rest := by
  rw [parseFrom, if_neg hc]

theorem parseFrom_chars (hs : '<' ∉ s) (rest : List Char) :
    parseFrom 0 (s ++ rest) = s.map ofChar ++ parseFrom 0 rest := by
  induction s with
  | nil => rfl
  | cons c s ih =>
    rw [List.cons_append, parseFrom_char (fun hc => hs (by rw [hc]; exact List.mem_cons_self)),
      ih fun hmem => hs (List.mem_cons_of_mem c hmem)]
    rfl

theorem parseFrom_named (hname : '>' ∉ name)
    (h : ofName (name.map Char.toLower) = some key) (rest : List Char) :
    parseFrom 0 ('<' :: (name ++ '>' :: rest)) = key :: parseFrom 0 rest := by
  have hlength := (ofName_eq_some h).1
  rw [List.length_map] at hlength
  rw [parseFrom, if_pos rfl, parseNamed_append hname hlength, h]
  show key :: parseFrom (name.length + 1) (name ++ '>' :: rest) = _
  have hskip := parseFrom_append (name ++ ['>']) rest
  rw [List.append_assoc, List.length_append] at hskip
  exact congrArg (key :: ·) hskip

/-- The first of the two closing brackets is taken for that of a name, `C-`, which names no key. -/
theorem parseFrom_controlBracket (hname : name.map Char.toLower = ['c', '-', '>'])
    (rest : List Char) :
    parseFrom 0 ('<' :: (name ++ '>' :: rest)) =
      ('<' :: (name ++ ['>'])).map ofChar ++ parseFrom 0 rest := by
  obtain ⟨letter, tail, rfl, hletter, htail⟩ := List.map_eq_cons_iff.1 hname
  obtain ⟨dash, tail, rfl, hdash, htail⟩ := List.map_eq_cons_iff.1 htail
  obtain ⟨bracket, tail, rfl, hbracket, htail⟩ := List.map_eq_cons_iff.1 htail
  obtain rfl := List.map_eq_nil_iff.1 htail
  obtain rfl := eq_of_toLower_eq (by decide) hdash
  obtain rfl := eq_of_toLower_eq (by decide) hbracket
  have hne : letter ≠ '<' ∧ letter ≠ '>' := by
    constructor <;> rintro rfl <;> revert hletter <;> decide
  have hlength : [letter, '-'].length ≤ nameLimit := Nat.le_add_left 2 7
  have hnamed : parseNamed ([letter, '-'] ++ '>' :: '>' :: rest) = none := by
    rw [parseNamed_append (by simp [hne.2.symm]) hlength]
    simp only [List.map_cons, hletter, List.map_nil]
    rfl
  have hchars := parseFrom_chars (s := [letter, '-', '>', '>']) (by simp [hne.1.symm]) rest
  have hliteral : parseFrom 0 ('<' :: ([letter, '-'] ++ '>' :: '>' :: rest)) =
      ofChar '<' :: parseFrom 0 ([letter, '-'] ++ '>' :: '>' :: rest) := by
    rw [parseFrom, if_pos rfl, hnamed]
  exact hliteral.trans (congrArg (ofChar '<' :: ·) hchars)

/-- **A key is read as it is written, whatever follows it.** -/
theorem parseFrom_key (hbare : s ≠ ['<']) (h : parse s = some key) (rest : List Char) :
    parseFrom 0 (s ++ rest) = inSequence s ++ parseFrom 0 rest := by
  rcases parse_eq_some hbare h with ⟨c, hc, rfl, rfl⟩ | ⟨name, rfl, hname⟩
  · rw [inSequence_of_ne h (ofChar_ne_controlBracket c)]
    exact parseFrom_char hc rest
  · obtain ⟨-, hbracket, hwritten⟩ := ofName_eq_some hname
    rw [List.cons_append, List.append_assoc]
    by_cases hcontrol : key = controlBracket
    · rw [hcontrol] at h
      rw [inSequence_of_eq h]
      exact parseFrom_controlBracket (hwritten (hbracket.2 hcontrol)) rest
    · rw [inSequence_of_ne h hcontrol]
      refine parseFrom_named (fun hmem => hcontrol (hbracket.1 ?_)) hname rest
      exact List.mem_map.2 ⟨'>', hmem, rfl⟩

/-! ## Sequences -/

theorem parseAll_eq_flatMap (hkeys : ∀ s ∈ keys, (parse s).isSome = true) (hbare : ['<'] ∉ keys) :
    parseAll keys.flatten = keys.flatMap inSequence := by
  induction keys with
  | nil => rfl
  | cons s keys ih =>
    obtain ⟨hs, hkeys⟩ := List.forall_mem_cons.1 hkeys
    obtain ⟨key, hkey⟩ := Option.isSome_iff_exists.1 hs
    have hne : s ≠ ['<'] := fun heq => hbare (heq ▸ List.mem_cons_self)
    rw [List.flatten_cons, List.flatMap_cons,
      ← ih hkeys fun hmem => hbare (List.mem_cons_of_mem s hmem)]
    exact parseFrom_key hne hkey _

theorem flatMap_inSequence_eq_iff (hkeys : ∀ s ∈ keys, (parse s).isSome = true) :
    keys.flatMap inSequence = keys.filterMap parse ↔
      ∀ s ∈ keys, parse s ≠ some controlBracket := by
  induction keys with
  | nil => simp
  | cons s keys ih =>
    obtain ⟨hs, hkeys⟩ := List.forall_mem_cons.1 hkeys
    obtain ⟨key, hkey⟩ := Option.isSome_iff_exists.1 hs
    rw [List.flatMap_cons, List.filterMap_cons_some hkey, List.forall_mem_cons, ← ih hkeys]
    by_cases hcontrol : key = controlBracket
    · subst hcontrol
      refine iff_of_false (fun heq => ?_) fun hboth => hboth.1 hkey
      -- The first event is that of a character.
      rw [inSequence_of_eq hkey] at heq
      cases s with
      | nil => cases hkey
      | cons c s => exact ofChar_ne_controlBracket c (List.cons.inj heq).1
    · rw [inSequence_of_ne hkey hcontrol, List.singleton_append, List.cons.injEq]
      refine and_congr_left fun _ => iff_of_true rfl ?_
      rw [hkey]
      exact fun hsome => hcontrol (Option.some.inj hsome)

/-- **A sequence of keys is read key by key.** Keys that are read one by one, and none of which is
the bare `<`, come in a sequence to what each comes to by itself, exactly if none of them is the
chord of control and `>`. That one comes to its characters. -/
theorem parseAll_flatten (hkeys : ∀ s ∈ keys, (parse s).isSome = true) (hbare : ['<'] ∉ keys) :
    parseAll keys.flatten = keys.flatMap inSequence ∧
      (parseAll keys.flatten = keys.filterMap parse ↔
        ∀ s ∈ keys, parse s ≠ some controlBracket) := by
  rw [parseAll_eq_flatMap hkeys hbare]
  exact ⟨rfl, flatMap_inSequence_eq_iff hkeys⟩

/-- Keys of all kinds, one of them a closing bracket behind a name. -/
theorem parseAll_flatten_change :
    (∀ s ∈ ["c".toList, "w".toList, "<LT>".toList, ">".toList, "<C-[>".toList],
        (parse s).isSome = true) ∧
      ['<'] ∉ ["c".toList, "w".toList, "<LT>".toList, ">".toList, "<C-[>".toList] ∧
      parseAll "cw<LT>><C-[>".toList =
        [.plain (.char 'c'), .plain (.char 'w'), .plain (.char '<'), .plain (.char '>'),
          .press (.char '[') .control] := by
  have hkeys : ∀ s ∈ ["c".toList, "w".toList, "<LT>".toList, ">".toList, "<C-[>".toList],
      (parse s).isSome = true := by decide
  have hbare : ['<'] ∉ ["c".toList, "w".toList, "<LT>".toList, ">".toList, "<C-[>".toList] := by
    decide
  exact ⟨hkeys, hbare, (parseAll_flatten hkeys hbare).2.2 (by decide)⟩

/-- The chord of control and `>` is one key, but not in a sequence. -/
theorem controlBracket_not_in_sequence :
    ¬ ∀ keys : List (List Char), (∀ s ∈ keys, (parse s).isSome = true) → ['<'] ∉ keys →
      parseAll keys.flatten = keys.filterMap parse := by
  intro h
  exact absurd (h ["<C->>".toList] (by decide) (by decide)) (by decide)

end ModalEdit.KeyNotation
