/-!
# Text objects

A text object is the stretch around the cursor that a word, a pair of quotes or a pair of brackets
marks off, with or without what surrounds it.
-/

namespace ModalEdit

/-- What marks off a text object. -/
inductive TextObject where
  | word (big : Bool)
  | quote (quote : Char)
  | bracket (opening close : Char)
  deriving DecidableEq, Repr

/-- Whether an object leaves its delimiters out or takes them in. -/
inductive Scope where
  | inner
  | around
  deriving DecidableEq, Repr

/-- The object a key names. -/
def TextObject.ofKey : Char → Option TextObject
  | 'w' => some (.word false)
  | 'W' => some (.word true)
  | '"' => some (.quote '"')
  | '\'' => some (.quote '\'')
  | '\x60' => some (.quote '\x60')
  | '(' | ')' | 'b' => some (.bracket '(' ')')
  | '{' | '}' | 'B' => some (.bracket '{' '}')
  | '[' | ']' => some (.bracket '[' ']')
  | '<' | '>' => some (.bracket '<' '>')
  | _ => none

end ModalEdit
