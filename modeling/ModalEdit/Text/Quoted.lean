import ModalEdit.Text.Basic

/-!
# Quoted text

Characters and texts between quotes, with a backslash before the quote in use and before a
backslash, and with line feed, carriage return, tab, NUL and the other ASCII control characters
written as escapes. Characters beyond ASCII are written as they are.
-/

namespace ModalEdit.Quoted

/-- A character as it is written between quotes. -/
def escape (quote c : Char) : List Char :=
  if c = quote then ['\\', c]
  else
    match c with
    | '\\' => ['\\', '\\']
    | '\n' => ['\\', 'n']
    | '\r' => ['\\', 'r']
    | '\t' => ['\\', 't']
    | '\x00' => ['\\', '0']
    | c =>
      if c.toNat < 0x20 ∨ c.toNat = 0x7F then
        ['\\', 'u', '\x7b'] ++ Nat.toDigits 16 c.toNat ++ ['\x7d']
      else [c]

/-- A text between double quotes. -/
def text (t : Text) : List Char :=
  ['"'] ++ t.flatMap (escape '"') ++ ['"']

/-- A character between single quotes. -/
def char (c : Char) : List Char :=
  ['\''] ++ escape '\'' c ++ ['\'']

example : text ['a', '"', '\'', '\n', '\x01'] = "\"a\\\"'\\n\\u\x7b1\x7d\"".toList := by
  decide +kernel
example : char '\'' = "'\\''".toList := by decide +kernel

end ModalEdit.Quoted
