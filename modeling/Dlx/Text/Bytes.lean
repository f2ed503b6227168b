/-!
# Byte text

Source text, tokens, messages and file contents are byte strings: a source file may hold bytes that
are no UTF-8, and every one of them has to survive. This module fixes the representation, the texts
of numbers, and the few ways of cutting a byte string that the other modules share. What walks along
a whole text is a fold over the list, so that it runs in constant stack.
-/

namespace Dlx

abbrev Bytes := List UInt8

/-- The UTF-8 bytes of a text that is fixed in the program. -/
def utf8 (text : String) : Bytes :=
  text.toUTF8.data.toList

namespace Bytes

/-! ## Cutting -/

/-- The pieces of `text` between occurrences of `mark`; there is always at least one piece. -/
def split (mark : UInt8) (text : Bytes) : List Bytes :=
  text.foldr
    (fun b pieces =>
      if b = mark then [] :: pieces
      else match pieces with
        | [] => [[b]]
        | piece :: rest => (b :: piece) :: rest)
    [[]]

/-- What stands before the first `mark`, or all of `text` when there is none. -/
def before (mark : UInt8) (text : Bytes) : Bytes :=
  text.takeWhile (· != mark)

/-- The two sides of the first `mark`. -/
def cut? (mark : UInt8) (text : Bytes) : Option (Bytes × Bytes) :=
  match text.dropWhile (· != mark) with
  | [] => none
  | _ :: after => some (before mark text, after)

def join (separator : Bytes) (pieces : List Bytes) : Bytes :=
  separator.intercalate pieces

/-- `text` without `ending`, when it ends so. -/
def dropEnding (ending text : Bytes) : Bytes :=
  if ending.isSuffixOf text then text.take (text.length - ending.length) else text

/-- `text` without `start`, when it starts so. -/
def dropStart (start text : Bytes) : Bytes :=
  if start.isPrefixOf text then text.drop start.length else text

/-! ## Order -/

/-- Byte order of texts: the first differing byte decides, and a proper beginning comes first. -/
def le : Bytes → Bytes → Bool
  | [], _ => true
  | _ :: _, [] => false
  | a :: as, b :: bs => if a = b then le as bs else decide (a < b)

/-! ## Numbers -/

def hexDigit (value : Nat) : UInt8 :=
  if value < 10 then (48 + value).toUInt8 else (87 + value).toUInt8

/-- The last `width` hexadecimal digits of `value`. -/
def hex : (width value : Nat) → Bytes
  | 0, _ => []
  | width + 1, value => hex width (value / 16) ++ [hexDigit (value % 16)]

def decimal (value : Nat) : Bytes :=
  (Nat.toDigits 10 value).map Char.toUInt8

/-- A whole number in decimal, with a minus sign where it is negative. -/
def integer (value : Int) : Bytes :=
  if value < 0 then utf8 "-" ++ decimal value.natAbs else decimal value.natAbs

end Bytes

/-- An address or a word as eight hexadecimal digits. -/
def hex8 (value : UInt32) : Bytes :=
  Bytes.hex 8 value.toNat

end Dlx
