import ModalEdit.Key.Basic

/-!
# Key notation

Keys in writing: a character stands for its key, and `<esc>`, `<cr>`, `<enter>`, `<return>`, `<bs>`,
`<backspace>`, `<tab>`, `<lt>`, `<space>` and chords such as `<C-x>` name the others, in either
case. In a sequence, a `<` that opens no such name is the key `<`.
-/

namespace ModalEdit.KeyNotation

/-- The key that a character stands for. -/
def ofChar : Char → InputEvent
  | '\n' | '\r' => .plain .enter
  | '\t' => .plain .tab
  | '\x1b' => .plain .escape
  | c => .plain (.char c)

/-- The key of a name in lower case. -/
def ofName (name : List Char) : Option InputEvent :=
  if name = "esc".toList then some (.plain .escape)
  else if name = "cr".toList ∨ name = "enter".toList ∨ name = "return".toList then
    some (.plain .enter)
  else if name = "bs".toList ∨ name = "backspace".toList then some (.plain .backspace)
  else if name = "tab".toList then some (.plain .tab)
  else if name = "lt".toList then some (.plain (.char '<'))
  else if name = "space".toList then some (.plain (.char ' '))
  else
    match name with
    | ['c', '-', c] => some (.press (.char c) .control)
    | _ => none

/-- The key of a name between angle brackets, given what follows the opening one. -/
def ofBracketed (rest : List Char) : Option InputEvent :=
  if rest.getLast? = some '>' then ofName (rest.dropLast.map Char.toLower) else none

/-- Read one key. -/
def parse : List Char → Option InputEvent
  | [c] => some (ofChar c)
  | '<' :: rest => ofBracketed rest
  | _ => none

/-- The length of the longest name, `backspace`. -/
def nameLimit : Nat := 9

/-- The key named at the start of what follows a `<`, with the length of its name and closing
bracket. The bracket is sought no further than a name reaches. -/
def parseNamed (rest : List Char) : Option (InputEvent × Nat) := do
  let close ← (rest.take (nameLimit + 1)).findIdx? (· == '>')
  let key ← ofBracketed (rest.take (close + 1))
  return (key, close + 1)

/-- Read a sequence of keys, the first `skip` characters left out. -/
def parseFrom : Nat → List Char → List InputEvent
  | _, [] => []
  | skip + 1, _ :: cs => parseFrom skip cs
  | 0, c :: cs =>
    match if c = '<' then parseNamed cs else none with
    | some (key, width) => key :: parseFrom width cs
    | none => ofChar c :: parseFrom 0 cs

/-- Read a sequence of keys. -/
def parseAll (s : List Char) : List InputEvent :=
  parseFrom 0 s

example : parseAll "ci(x<Esc>".toList =
    ["c", "i", "(", "x"].flatMap (fun s => (parse s.toList).toList) ++ [.plain .escape] := by
  decide +kernel

end ModalEdit.KeyNotation
