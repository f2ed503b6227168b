import Dlx.Text.Utf8

/-!
# Blanks

The white space characters, and trimming them off both ends of a byte string. A byte that is no part
of a character is never blank, so trimming stops there.
-/

namespace Dlx

namespace Blank

/-- The white space characters: the ASCII controls from tab to carriage return, the blank, next
line, no-break space, and the separators of the space, line and paragraph kinds. -/
def isBlank (c : Char) : Bool :=
  let n := c.toNat
  (0x09 ≤ n && n ≤ 0x0D) || n == 0x20 || n == 0x85 || n == 0xA0 || n == 0x1680 ||
    (0x2000 ≤ n && n ≤ 0x200A) || n == 0x2028 || n == 0x2029 || n == 0x202F || n == 0x205F ||
    n == 0x3000

def isBlankItem : Utf8.Item → Bool
  | .char c => isBlank c
  | .stray _ => false

/-- `text` without the white space at its two ends. -/
def trim (text : Bytes) : Bytes :=
  let inner := (Utf8.items text).dropWhile isBlankItem
  Utf8.bytes (inner.reverse.dropWhile isBlankItem).reverse

end Blank

end Dlx
