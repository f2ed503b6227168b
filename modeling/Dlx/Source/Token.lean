import Dlx.Text.Blank

/-!
# Tokens

A source line is cut at commas and white space that stand outside double quotes. A string literal
therefore stays in one token, its quotes included; inside it a comma or a tab becomes a blank, and a
backslash keeps the next character from closing it. A quote may open in the middle of a token, and
an unclosed literal runs to the end of the line.

The scanner is a fold over the characters of the line: `Scanner.step` is the whole of it.
-/

namespace Dlx

/-- The scanner between two characters: the tokens so far and the one being read, both with the
latest first, and whether it stands inside quotes and behind a backslash there. -/
structure Scanner where
  tokens : List (List Char)
  word : List Char
  quoted : Bool
  escaped : Bool
  deriving DecidableEq, Repr

namespace Scanner

def start : Scanner := ⟨[], [], false, false⟩

def isSeparator (c : Char) : Bool :=
  c = ',' || Blank.isBlank c

/-- A character inside quotes: commas and tabs become blanks. -/
def soften (c : Char) : Char :=
  if c = ',' ∨ c = '\t' then ' ' else c

/-- Ends the token being read, when there is one. -/
def flush (s : Scanner) : Scanner :=
  if s.word.isEmpty then s else { s with tokens := s.word.reverse :: s.tokens, word := [] }

def step (s : Scanner) (c : Char) : Scanner :=
  if s.quoted then
    { s with
      word := soften c :: s.word
      escaped := !s.escaped && c = '\\'
      quoted := s.escaped || c != '"' }
  else if c = '"' then { s with word := c :: s.word, quoted := true }
  else if isSeparator c then s.flush
  else { s with word := c :: s.word }

def run (line : List Char) : List (List Char) :=
  (line.foldl step start).flush.tokens.reverse

end Scanner

def tokenize (line : Bytes) : List Bytes :=
  (Scanner.run (Utf8.chars line)).map Utf8.encode

end Dlx
