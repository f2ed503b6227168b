import Dlx.Text.Numeral

/-!
# String literals

A string literal is a text between double quotes. Inside it a plain character denotes its UTF-8
bytes and an escape denotes its value: a letter escape a control character, `\xHH` and `\OOO` a
single byte, `\uHHHH` and `\UHHHHHHHH` the UTF-8 bytes of a code point.

The reader is a machine with a state per character, so that a literal is taken apart from left to
right and nothing is looked at twice.
-/

namespace Dlx

namespace Literal

inductive State where
  /-- Between two items. -/
  | plain
  /-- After a backslash. -/
  | escape
  /-- In a numeric escape with `left` more digits to come; `wide` escapes denote a code point. -/
  | digits (base left value : Nat) (wide : Bool)
  /-- After the closing quote. -/
  | closed
  deriving DecidableEq, Repr

/-- The byte that a letter escape denotes. -/
def letterByte? (c : Char) : Option UInt8 :=
  match c with
  | 'a' => some 0x07
  | 'b' => some 0x08
  | 'f' => some 0x0C
  | 'n' => some 0x0A
  | 'r' => some 0x0D
  | 't' => some 0x09
  | 'v' => some 0x0B
  | '\\' => some 0x5C
  | '"' => some 0x22
  | _ => none

/-- The bytes that a numeric escape denotes: one byte, or the encoding of a code point. -/
def valueBytes? (value : Nat) (wide : Bool) : Option Bytes :=
  if wide then
    if value.isValidChar then some (String.utf8EncodeChar (Char.ofNat value)) else none
  else
    if value < 256 then some [value.toUInt8] else none

def escapeStep (c : Char) : Option (State × Bytes) :=
  match letterByte? c with
  | some b => some (.plain, [b])
  | none =>
    match c with
    | 'x' => some (.digits 16 2 0 false, [])
    | 'u' => some (.digits 16 4 0 true, [])
    | 'U' => some (.digits 16 8 0 true, [])
    | _ => (Numeral.digit? 8 c.toNat).map (fun d => (.digits 8 2 d false, []))

/-- One character: the state after it and the bytes it completes. -/
def step : State → Char → Option (State × Bytes)
  | .plain, c =>
    if c = '"' then some (.closed, [])
    else if c = '\\' then some (.escape, [])
    else if c = '\n' then none
    else some (.plain, String.utf8EncodeChar c)
  | .escape, c => escapeStep c
  | .digits base left value wide, c => do
    let d ← Numeral.digit? base c.toNat
    let value := value * base + d
    if left ≤ 1 then
      let bytes ← valueBytes? value wide
      return (.plain, bytes)
    else return (.digits base (left - 1) value wide, [])
  | .closed, _ => none

/-- The reader's step with the bytes so far, the latest first. -/
def advance (read : State × Bytes) (c : Char) : Option (State × Bytes) := do
  let (state, bytes) ← step read.1 c
  return (state, bytes.reverseAux read.2)

def value? (text : Bytes) : Option Bytes :=
  match Utf8.chars text with
  | '"' :: body =>
    match body.foldlM advance (.plain, []) with
    | some (.closed, bytes) => some bytes.reverse
    | _ => none
  | _ => none

end Literal

end Dlx
