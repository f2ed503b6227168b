import Dlx.Text.Bytes

/-!
# UTF-8

A byte string is read as a list of items: the characters it encodes, and the stray bytes that belong
to no character. The reader takes the longest view that is right: a byte that starts no valid
encoding (overlong forms, surrogates and values past the last code point included) is stray on its
own, and reading goes on at the next byte.

`Utf8.chars` is the view in which a stray byte stands for the replacement character.
-/

namespace Dlx

namespace Utf8

/-- One step of reading: a character, or a byte that is part of none. -/
inductive Item where
  | char (c : Char)
  | stray (b : UInt8)
  deriving DecidableEq, Repr

/-- What is shown in the place of a stray byte. -/
def replacement : Char := '�'

/-- The character an item stands for. -/
def Item.toChar : Item → Char
  | .char c => c
  | .stray _ => replacement

/-- The bytes an item was read from. -/
def Item.bytes : Item → Bytes
  | .char c => String.utf8EncodeChar c
  | .stray b => [b]

/-- The low six bits of a continuation byte. -/
def continuation? (b : UInt8) : Option Nat :=
  if 0x80 ≤ b ∧ b < 0xC0 then some (b.toNat % 64) else none

/-- The character of a code point that needs at least `least`, or nothing when it has a shorter
encoding or is no code point of a character. -/
def charAbove? (least value : Nat) : Option Char :=
  if least ≤ value ∧ value.isValidChar then some (Char.ofNat value) else none

/-- The character whose encoding starts with `b` and goes on in `rest`, and how many bytes of `rest`
it takes. -/
def head? (b : UInt8) (rest : Bytes) : Option (Char × Nat) :=
  if b < 0x80 then some (Char.ofNat b.toNat, 0)
  else if b < 0xC0 then none
  else if b < 0xE0 then do
    let b₁ ← rest[0]? >>= continuation?
    let c ← charAbove? 0x80 (b.toNat % 32 * 64 + b₁)
    return (c, 1)
  else if b < 0xF0 then do
    let b₁ ← rest[0]? >>= continuation?
    let b₂ ← rest[1]? >>= continuation?
    let c ← charAbove? 0x800 ((b.toNat % 16 * 64 + b₁) * 64 + b₂)
    return (c, 2)
  else if b < 0xF8 then do
    let b₁ ← rest[0]? >>= continuation?
    let b₂ ← rest[1]? >>= continuation?
    let b₃ ← rest[2]? >>= continuation?
    let c ← charAbove? 0x10000 (((b.toNat % 8 * 64 + b₁) * 64 + b₂) * 64 + b₃)
    return (c, 3)
  else none

/-- The reader: `skip` bytes belong to the character read last, `read` holds the items so far, the
latest first. -/
def readFrom (read : List Item) : (skip : Nat) → Bytes → List Item
  | _, [] => read.reverse
  | skip + 1, _ :: rest => readFrom read skip rest
  | 0, b :: rest =>
    match head? b rest with
    | some (c, more) => readFrom (.char c :: read) more rest
    | none => readFrom (.stray b :: read) 0 rest

def items (text : Bytes) : List Item :=
  readFrom [] 0 text

/-- The characters of a byte string, with the replacement character for each stray byte. -/
def chars (text : Bytes) : List Char :=
  (items text).map Item.toChar

def encode (text : List Char) : Bytes :=
  text.flatMap String.utf8EncodeChar

def bytes (read : List Item) : Bytes :=
  read.flatMap Item.bytes

end Utf8

end Dlx
