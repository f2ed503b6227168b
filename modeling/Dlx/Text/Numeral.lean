import Dlx.Text.Quoted

/-!
# Numerals

Whole numbers as they are written in sources, definition files and records. A numeral is read digit
by digit against a range; what goes wrong first decides the flaw, so a numeral that has already left
its range is out of range whatever follows.

Besides numerals of a fixed base there are numerals that carry their base: `0x`, `0o` and `0b`, a
leading zero for octal, and decimal. Only these may hold underscores, each between two digits, where
a base mark counts as a digit.
-/

namespace Dlx

namespace Numeral

inductive Flaw where
  | malformed
  | outOfRange
  deriving DecidableEq, Repr

/-- The value of a digit, with letters of either case for ten and more, by its code point. -/
def digitOf? (code : Nat) : Option Nat :=
  if 48 ≤ code ∧ code ≤ 57 then some (code - 48)
  else if 97 ≤ code ∧ code ≤ 122 then some (code - 87)
  else if 65 ≤ code ∧ code ≤ 90 then some (code - 55)
  else none

def digit? (base code : Nat) : Option Nat :=
  (digitOf? code).filter (· < base)

def underscore : UInt8 := 0x5F

/-- Reads the digits of a number below `bound`, going on from the value `value`. -/
def readDigits (base bound : Nat) (separated : Bool) : (value : Nat) → Bytes → Except Flaw Nat
  | value, [] => .ok value
  | value, b :: rest =>
    if separated && b == underscore then readDigits base bound separated value rest
    else match digit? base b.toNat with
      | none => .error .malformed
      | some d =>
        if value * base + d < bound then readDigits base bound separated (value * base + d) rest
        else .error .outOfRange

/-! ## Underscores -/

/-- What stands in front of a place in a numeral. -/
inductive Before where
  | start
  | digit
  | underscore
  | other
  deriving DecidableEq, Repr

/-- One step along a numeral: an underscore needs a digit in front of it and a digit behind it. -/
def separationStep (hexadecimal : Bool) (before : Before) (b : UInt8) : Option Before :=
  if (digit? (if hexadecimal then 16 else 10) b.toNat).isSome then some .digit
  else if b = underscore then (if before = .digit then some .underscore else none)
  else if before = .underscore then none
  else some .other

/-- Whether the underscores of a stretch of a numeral stand between digits. -/
def separatedFrom (hexadecimal : Bool) (before : Before) (text : Bytes) : Bool :=
  match text.foldlM (separationStep hexadecimal) before with
  | some after => after != .underscore
  | none => false

/-- The letter of a base mark, in lower case. -/
def markLetter? (b : UInt8) : Option Char :=
  if b = 0x62 ∨ b = 0x42 then some 'b'
  else if b = 0x6F ∨ b = 0x4F then some 'o'
  else if b = 0x78 ∨ b = 0x58 then some 'x'
  else none

def dropSign : Bytes → Bytes
  | 0x2B :: rest => rest
  | 0x2D :: rest => rest
  | text => text

/-- Whether every underscore of a numeral stands between two digits; a base mark counts as a
digit. -/
def wellSeparated (text : Bytes) : Bool :=
  match dropSign text with
  | 0x30 :: b :: rest =>
    match markLetter? b with
    | some letter => separatedFrom (letter = 'x') .digit rest
    | none => separatedFrom false .start (0x30 :: b :: rest)
  | rest => separatedFrom false .start rest

/-! ## Unsigned numerals -/

/-- A numeral of base `base` for a number of `bits` bits. -/
def natural (base bits : Nat) (text : Bytes) : Except Flaw Nat :=
  if text.isEmpty then .error .malformed
  else readDigits base (Nat.pow 2 bits) false 0 text

/-- The base that a numeral carries, and its digits. -/
def baseOf : Bytes → Nat × Bytes
  | 0x30 :: b :: d :: rest =>
    match markLetter? b with
    | some 'b' => (2, d :: rest)
    | some 'o' => (8, d :: rest)
    | some _ => (16, d :: rest)
    | none => (8, b :: d :: rest)
  | 0x30 :: rest => (8, rest)
  | text => (10, text)

/-- A numeral that carries its base, for a number of `bits` bits. -/
def literal (bits : Nat) (text : Bytes) : Except Flaw Nat :=
  if text.isEmpty then .error .malformed
  else
    let (base, digits) := baseOf text
    match readDigits base (Nat.pow 2 bits) true 0 digits with
    | .error flaw => .error flaw
    | .ok value =>
      if text.contains underscore && !wellSeparated text then .error .malformed
      else .ok value

/-! ## Signed numerals -/

/-- A magnitude with its sign as a number of `bits` bits in two's complement. -/
def bounded (bits : Nat) (negative : Bool) (magnitude : Nat) : Except Flaw Int :=
  if negative then
    if magnitude ≤ Nat.pow 2 (bits - 1) then .ok (-(magnitude : Int)) else .error .outOfRange
  else
    if magnitude < Nat.pow 2 (bits - 1) then .ok magnitude else .error .outOfRange

/-- A numeral with an optional sign, whose magnitude is read by `magnitude`. -/
def withSign (bits : Nat) (magnitude : Bytes → Except Flaw Nat) : Bytes → Except Flaw Int
  | 0x2B :: rest => magnitude rest >>= bounded bits false
  | 0x2D :: rest => magnitude rest >>= bounded bits true
  | text => magnitude text >>= bounded bits false

def integer (base bits : Nat) : Bytes → Except Flaw Int :=
  withSign bits (natural base bits)

/-- A signed numeral that carries its base. -/
def signedLiteral (bits : Nat) : Bytes → Except Flaw Int :=
  withSign bits (literal bits)

/-! ## Truth values -/

def truth? (text : Bytes) : Option Bool :=
  if text ∈ [utf8 "1", utf8 "t", utf8 "T", utf8 "true", utf8 "TRUE", utf8 "True"] then some true
  else if text ∈ [utf8 "0", utf8 "f", utf8 "F", utf8 "false", utf8 "FALSE", utf8 "False"]
    then some false
  else none

/-! ## What is said about a flaw -/

inductive Reading where
  | unsigned
  | signed
  | truth
  deriving DecidableEq, Repr

def Reading.name : Reading → Bytes
  | .unsigned => utf8 "strconv.ParseUint"
  | .signed => utf8 "strconv.ParseInt"
  | .truth => utf8 "strconv.ParseBool"

def Flaw.text : Flaw → Bytes
  | .malformed => utf8 "invalid syntax"
  | .outOfRange => utf8 "value out of range"

structure Error where
  reading : Reading
  text : Bytes
  flaw : Flaw
  deriving DecidableEq, Repr

def Error.message (e : Error) : Bytes :=
  e.reading.name ++ utf8 ": parsing " ++ Quoted.quote e.text ++ utf8 ": " ++ e.flaw.text

/-- An unsigned numeral of base `base`, with the text in the error. -/
def readNatural (base bits : Nat) (text : Bytes) : Except Error Nat :=
  (natural base bits text).mapError (⟨.unsigned, text, ·⟩)

/-- A signed numeral of base `base`, with the text in the error. -/
def readInteger (base bits : Nat) (text : Bytes) : Except Error Int :=
  (integer base bits text).mapError (⟨.signed, text, ·⟩)

end Numeral

end Dlx
