import Dlx.Text.Bytes

/-!
# Source lines

This module defines:

* `LineKind`: what a line is: an instruction, a label, one of the directives, a comment
* `Line`: the tokens of a line sorted into labels, mnemonic and operands, with its address
* `Line.ofTokens?`: how the tokens of a line decide all of this but the address

Labels are recognised here by a loose test, so that a badly spelled label is later reported as a
label. `isLabel` is the exact spelling that makes a label known.
-/

namespace Dlx

inductive LineKind where
  | instruction
  | label
  | text
  | data
  | align
  | space
  | ascii
  | asciiz
  | double
  | float
  | word
  | reset
  | comment
  deriving DecidableEq, Repr

namespace LineKind

def all : List LineKind :=
  [.instruction, .label, .text, .data, .align, .space, .ascii, .asciiz, .double, .float, .word,
    .reset, .comment]

def code (k : LineKind) : Nat :=
  all.idxOf k

/-- The kind with a given code; an unknown code is read as a line without effect. -/
def ofCode (code : Int) : LineKind :=
  if code < 0 then .comment else all[code.toNat]?.getD .comment

/-- Whether lines of the kind lay out data elements. -/
def isData : LineKind → Bool
  | .ascii | .asciiz | .double | .float | .word => true
  | _ => false

def ofMnemonic (mnemonic : Bytes) : LineKind :=
  let directives :=
    [(utf8 ".text", text), (utf8 ".data", data), (utf8 ".align", align), (utf8 ".space", space),
      (utf8 ".ascii", ascii), (utf8 ".asciiz", asciiz), (utf8 ".double", double),
      (utf8 ".float", float), (utf8 ".word", word)]
  (directives.lookup mnemonic).getD .instruction

end LineKind

/-- One operand of a data directive: where it goes, how many bytes it takes, and its text. -/
structure Element where
  address : UInt32
  size : UInt32
  value : Bytes
  deriving DecidableEq, Repr

structure Line where
  kind : LineKind
  tokens : List Bytes
  labels : List Bytes := []
  mnemonic : Bytes := []
  operands : List Bytes := []
  address : UInt32 := 0
  lineno : Int := 0
  elements : List Element := []
  deriving DecidableEq, Repr

/-! ## Spelling -/

def isComment : Bytes → Bool
  | b :: _ => b == 0x3B
  | [] => false

/-- Whether a token is taken for a label in front of a line. -/
def looksLikeLabel (token : Bytes) : Bool :=
  1 < token.length && token.getLast? == some 0x3A && token.head? != some 0x22

def isLower (b : UInt8) : Bool :=
  0x61 ≤ b && b ≤ 0x7A

def isAlphanumeric (b : UInt8) : Bool :=
  isLower b || (0x41 ≤ b && b ≤ 0x5A) || (0x30 ≤ b && b ≤ 0x39)

/-- Whether a text is the name of a label: a lower case letter, then letters and digits. -/
def isLabelName : Bytes → Bool
  | b :: rest => isLower b && rest.all isAlphanumeric
  | [] => false

/-- Whether a token defines a label: a label name and a colon. -/
def isLabel (token : Bytes) : Bool :=
  token.getLast? == some 0x3A && isLabelName token.dropLast

/-! ## Sorting the tokens of a line -/

namespace Line

/-- The text of a line: its tokens with a blank between them. -/
def text (line : Line) : Bytes :=
  Bytes.join (utf8 " ") line.tokens

/-- The tokens that are taken for labels in front of a line, at most two, and the tokens behind
them. -/
def splitLabels : List Bytes → List Bytes × List Bytes
  | first :: second :: rest =>
    if looksLikeLabel first then
      if looksLikeLabel second then ([first, second], rest) else ([first], second :: rest)
    else ([], first :: second :: rest)
  | [token] => if looksLikeLabel token then ([token], []) else ([], [token])
  | [] => ([], [])

/-- The line with the given tokens. A line needs at least one. -/
def ofTokens? (tokens : List Bytes) (lineno : Int) : Option Line :=
  match tokens with
  | [] => none
  | first :: _ =>
    if tokens = [utf8 ";"] then some { kind := .reset, tokens, lineno }
    else if isComment first then some { kind := .comment, tokens, lineno }
    else
      let (labels, rest) := splitLabels tokens
      match rest with
      | [] => some { kind := .label, tokens, labels, lineno }
      | mnemonic :: after =>
        if isComment mnemonic then some { kind := .label, tokens, labels, lineno }
        else
          let operands := after.takeWhile (fun token => !isComment token)
          some { kind := .ofMnemonic mnemonic, tokens, labels, mnemonic, operands, lineno }

end Line

end Dlx
