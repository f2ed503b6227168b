import Dlx.Text.Blank
import Dlx.Text.Printable

/-!
# Quoted text

A text is shown between quotation marks so that every byte of it can be read off: printable
characters stand for themselves, the quotation mark and the backslash are escaped, and all else is
written as an escape. A byte that is part of no character is shown as that byte.
-/

namespace Dlx

namespace Quoted

/-- The letter of the short escape of a control character. -/
def letter? (c : Char) : Option Char :=
  match c.toNat with
  | 0x07 => some 'a'
  | 0x08 => some 'b'
  | 0x09 => some 't'
  | 0x0A => some 'n'
  | 0x0B => some 'v'
  | 0x0C => some 'f'
  | 0x0D => some 'r'
  | _ => none

def escapedByte (value : Nat) : Bytes :=
  utf8 "\\x" ++ Bytes.hex 2 value

/-- A character between two marks `mark`. -/
def escapedChar (mark c : Char) : Bytes :=
  if c = mark ∨ c = '\\' then utf8 "\\" ++ Utf8.encode [c]
  else if Printable.isPrintable c then Utf8.encode [c]
  else match letter? c with
    | some l => utf8 "\\" ++ Utf8.encode [l]
    | none =>
      if c.toNat < 0x80 then escapedByte c.toNat
      else if c.toNat < 0x10000 then utf8 "\\u" ++ Bytes.hex 4 c.toNat
      else utf8 "\\U" ++ Bytes.hex 8 c.toNat

def escapedItem (mark : Char) : Utf8.Item → Bytes
  | .char c => escapedChar mark c
  | .stray b => escapedByte b.toNat

def quote (text : Bytes) : Bytes :=
  utf8 "\"" ++ (Utf8.items text).flatMap (escapedItem '"') ++ utf8 "\""

def quoteChar (c : Char) : Bytes :=
  utf8 "'" ++ escapedChar '\'' c ++ utf8 "'"

/-- Whether a character keeps a text from standing bare in a list of `key=value` pairs. -/
def breaksPair (c : Char) : Bool :=
  if c.toNat < 0x80 then c.toNat < 0x20 || c = ' ' || c = '=' || c = '"'
  else c = Utf8.replacement || Blank.isBlank c || !Printable.isPrintable c

/-- The value of a `key=value` pair: bare, or quoted when it is empty or could be misread. -/
def pairValue (text : Bytes) : Bytes :=
  if text.isEmpty || (Utf8.chars text).any breaksPair then quote text else text

end Quoted

end Dlx
