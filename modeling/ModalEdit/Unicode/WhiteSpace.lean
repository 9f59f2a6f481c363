/-!
# White space

The Unicode property White_Space: U+0009 to U+000D, the space, U+0085, U+00A0, U+1680, U+2000 to
U+200A, U+2028, U+2029, U+202F, U+205F and U+3000.
-/

namespace ModalEdit.Unicode

/-- The character has the property White_Space. -/
def isWhiteSpace (c : Char) : Bool :=
  let n := c.toNat
  n == 0x20 || (0x9 ≤ n && n ≤ 0xD) || n == 0x85 || n == 0xA0 || n == 0x1680 ||
    (0x2000 ≤ n && n ≤ 0x200A) || n == 0x2028 || n == 0x2029 || n == 0x202F || n == 0x205F ||
    n == 0x3000

/-- A line break is white space. -/
theorem isWhiteSpace_newline : isWhiteSpace '\n' = true := by decide

end ModalEdit.Unicode
