import Dlx.Text.Numeral

/-!
# Binary floating point

Reading a real literal into the bits of a binary interchange format. The value of the literal is
kept exactly, as a natural number times a power of ten or two, and rounded once: to the nearest
value of the format, a tie to the even significand. Too large a value has no bits; too small a one
becomes a subnormal or a zero.

`Binary.nearest` is the rounding. Its result is one formula for subnormal and normal values, because
the bits of a format are the rank of a value among the format's values.
-/

namespace Dlx

namespace Binary

/-- A binary interchange format: the digits of a significand, the bits of an exponent, and the
exponent of the least positive value. -/
structure Format where
  precision : Nat
  exponentBits : Nat
  least : Int
  deriving DecidableEq, Repr

def single : Format := ⟨24, 8, -149⟩

def double : Format := ⟨53, 11, -1074⟩

namespace Format

def width (f : Format) : Nat := f.precision + f.exponentBits

def signBit (f : Format) : Nat := Nat.pow 2 (f.width - 1)

def infinity (f : Format) : Nat := (Nat.pow 2 f.exponentBits - 1) * Nat.pow 2 (f.precision - 1)

/-- The bits of the value that is no number. The wide format sets the lowest bit as well. -/
def notNumber (f : Format) : Nat :=
  f.infinity + Nat.pow 2 (f.precision - 2) + (if f.width = 64 then 1 else 0)

end Format

/-- The quotient of two numbers, rounded to the nearest whole number, a tie to the even one. -/
def roundedQuotient (num den : Nat) : Nat :=
  let quotient := num / den
  let rest := num % den
  if den < 2 * rest ∨ (2 * rest = den ∧ quotient % 2 = 1) then quotient + 1 else quotient

/-- The greatest `e` with `2 ^ e ≤ num / den`, for positive `num` and `den`. -/
def floorLog (num den : Nat) : Int :=
  let guess : Int := (num.log2 : Int) - den.log2
  let reached :=
    if 0 ≤ guess then den * Nat.pow 2 guess.toNat ≤ num else den ≤ num * Nat.pow 2 (-guess).toNat
  if reached then guess else guess - 1

/-- The bits of the value nearest to `num / den`, or nothing when that is past the largest one. -/
def nearest (f : Format) (num den : Nat) : Option Nat :=
  if num = 0 then some 0
  else
    let unit := max f.least (floorLog num den - (f.precision - 1))
    let significand :=
      if 0 ≤ unit then roundedQuotient num (den * Nat.pow 2 unit.toNat)
      else roundedQuotient (num * Nat.pow 2 (-unit).toNat) den
    let bits := (unit - f.least).toNat * Nat.pow 2 (f.precision - 1) + significand
    if bits < f.infinity then some bits else none

/-! ## Literals -/

/-- What a real literal denotes. -/
inductive Real where
  | notNumber
  | infinite (negative : Bool)
  /-- The number `significand * base ^ exponent`, with a sign. -/
  | finite (negative : Bool) (significand base : Nat) (exponent : Int)
  deriving DecidableEq, Repr

def Real.bits? (f : Format) : Real → Option Nat
  | .notNumber => some f.notNumber
  | .infinite negative => some (f.infinity + if negative then f.signBit else 0)
  | .finite negative significand base exponent =>
    let rounded :=
      if 0 ≤ exponent then nearest f (significand * Nat.pow base exponent.toNat) 1
      else nearest f significand (Nat.pow base (-exponent).toNat)
    rounded.map (· + if negative then f.signBit else 0)

/-- The digits in front of an exponent: their value, how many stand behind the point, whether there
is a point and whether there is a digit. -/
structure Digits where
  value : Nat := 0
  places : Nat := 0
  pointed : Bool := false
  any : Bool := false
  deriving DecidableEq, Repr

/-- Reads digits, underscores and at most one point, and gives back what follows. -/
def readSignificand (base : Nat) : Digits → Bytes → Digits × Bytes
  | read, [] => (read, [])
  | read, b :: rest =>
    if b = Numeral.underscore then readSignificand base read rest
    else if b = 0x2E then
      if read.pointed then (read, b :: rest)
      else readSignificand base { read with pointed := true } rest
    else match Numeral.digit? base b.toNat with
      | none => (read, b :: rest)
      | some d =>
        let places := if read.pointed then read.places + 1 else read.places
        readSignificand base ⟨read.value * base + d, places, read.pointed, true⟩ rest

/-- Digits of an exponent past this value no longer count: the value is out of every range by
then. -/
def exponentCap : Nat := 10000

/-- Reads the digits and underscores of an exponent to the end of the text. -/
def readExponent : (value : Nat) → Bytes → Option Nat
  | value, [] => some value
  | value, b :: rest =>
    if b = Numeral.underscore then readExponent value rest
    else match Numeral.digit? 10 b.toNat with
      | none => none
      | some d => readExponent (if value < exponentCap then value * 10 + d else value) rest

/-- An exponent that takes up the rest of the text and starts with a digit. -/
def exponent? : Bytes → Option Nat
  | [] => none
  | b :: rest => if (Numeral.digit? 10 b.toNat).isSome then readExponent 0 (b :: rest) else none

/-- An exponent with an optional sign. -/
def signedExponent? : Bytes → Option Int
  | 0x2B :: rest => (exponent? rest).map (fun e => (e : Int))
  | 0x2D :: rest => (exponent? rest).map (fun e => -(e : Int))
  | text => (exponent? text).map (fun e => (e : Int))

/-- The digits of a number without its sign, and its exponent when there is one. -/
def number? (base : Nat) (marks : List UInt8) (text : Bytes) : Option (Digits × Option Int) :=
  let (digits, rest) := readSignificand base {} text
  if !digits.any then none
  else match rest with
    | [] => some (digits, none)
    | b :: after =>
      if b ∈ marks then (signedExponent? after).map (fun e => (digits, some e)) else none

/-- A number without its sign: hexadecimal after `0x`, where the power of two must be given, or
decimal. -/
def magnitude? (negative : Bool) (text : Bytes) : Option Real :=
  let decimal := do
    let (digits, exponent) ← number? 10 [0x65, 0x45] text
    return .finite negative digits.value 10 (exponent.getD 0 - digits.places)
  match text with
  | 0x30 :: b :: d :: rest =>
    if b = 0x78 ∨ b = 0x58 then do
      let (digits, exponent) ← number? 16 [0x70, 0x50] (d :: rest)
      return .finite negative digits.value 2 ((← exponent) - 4 * digits.places)
    else decimal
  | _ => decimal

def lowerCase (b : UInt8) : UInt8 :=
  if 65 ≤ b ∧ b ≤ 90 then b + 32 else b

/-- Infinity by name, in any case. -/
def isInfinity (text : Bytes) : Bool :=
  [utf8 "inf", utf8 "infinity"].contains (text.map lowerCase)

def unsignedReal? (negative : Bool) (text : Bytes) : Option Real :=
  if isInfinity text then some (.infinite negative) else magnitude? negative text

def real? (text : Bytes) : Option Real :=
  if text.map lowerCase = utf8 "nan" then some .notNumber
  else if text.contains Numeral.underscore && !Numeral.wellSeparated text then none
  else match text with
    | 0x2B :: rest => unsignedReal? false rest
    | 0x2D :: rest => unsignedReal? true rest
    | _ => unsignedReal? false text

def bits? (f : Format) (text : Bytes) : Option Nat :=
  real? text >>= Real.bits? f

end Binary

end Dlx
