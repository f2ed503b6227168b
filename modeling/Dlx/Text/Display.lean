import Dlx.Text.Blank

/-!
# Text on display

How much room a text takes up on a terminal, and how it is cut into lines. Control characters take
up no room, and neither do escape sequences, which set colours and links: a sequence starts with the
escape character, and one that is opened by `[` ends with `m`, one that is opened by `]` with a
backslash.

* `Display.width`, `Display.longest`: the room of a line, and of the longest line of a text
* `Display.wrap`: a text cut into lines of at most so many characters
* `Display.fill`: a text in lines that are filled with its words
-/

namespace Dlx

namespace Display

def escape : Char := '\x1b'

/-- The sequence that ends all colours. -/
def reset : List Char := [escape, '[', '0', 'm']

def splitAt (isBreak : Char → Bool) (text : List Char) : List (List Char) :=
  text.foldr
    (fun c pieces =>
      if isBreak c then [] :: pieces
      else match pieces with
        | [] => [[c]]
        | piece :: rest => (c :: piece) :: rest)
    [[]]

def splitLines (text : List Char) : List (List Char) :=
  splitAt (· == '\n') text

/-- The words of a text: its pieces between blanks, without the empty ones. -/
def words (text : List Char) : List (List Char) :=
  (splitAt Blank.isBlank text).filter (fun word => !word.isEmpty)

/-- A text with four blanks in the place of each tab. -/
def expandTabs (text : List Char) : List Char :=
  text.flatMap (fun c => if c = '\t' then [' ', ' ', ' ', ' '] else [c])

/-! ## Room -/

/-- Where a character stands to an escape sequence. -/
inductive Sequence where
  /-- Outside of every sequence. -/
  | outside
  /-- In a sequence that has not shown its kind. -/
  | opened
  /-- In a sequence that ends with a given character. -/
  | inside (stop : Char)
  deriving DecidableEq, Repr

def Sequence.next : Sequence → Char → Sequence
  | .outside, c => if c = escape then .opened else .outside
  | .opened, c => if c = '[' then .inside 'm' else if c = ']' then .inside '\\' else .opened
  | .inside stop, c => if c = stop then .outside else .inside stop

/-- One character of a text, with the characters outside of escape sequences so far, the latest
first. -/
def plainStep (read : Sequence × List Char) (c : Char) : Sequence × List Char :=
  let next := read.1.next c
  (next, if read.1 = .outside ∧ next = .outside then c :: read.2 else read.2)

def plain (text : List Char) : List Char :=
  (text.foldl plainStep (.outside, [])).2.reverse

/-- Whether a character takes up a place. Control characters do not. -/
def isVisible (c : Char) : Bool :=
  0x20 ≤ c.toNat && !(0x7F ≤ c.toNat && c.toNat ≤ 0x9F) && c.toNat != 0xAD

def width (line : List Char) : Nat :=
  (plain line).countP isVisible

def longest (text : List Char) : Nat :=
  ((splitLines (plain text)).map (List.countP isVisible)).foldl max 0

/-! ## Cutting -/

structure Style where
  /-- Whether the text is in an escape sequence. -/
  escaped : Bool
  /-- The last escape sequence, the latest character first, unless it ended all colours. -/
  sequence : List Char
  deriving DecidableEq, Repr

namespace Style

def none : Style := ⟨false, []⟩

/-- The style with a character taken into the escape sequence that it starts or is part of. -/
def enter (s : Style) (c : Char) : Style :=
  if c = escape then ⟨true, [c]⟩
  else if s.escaped then ⟨true, c :: s.sequence⟩
  else s

/-- The style behind a character that has been taken in: `m` ends an escape sequence. -/
def leave (s : Style) (c : Char) : Style :=
  ⟨s.escaped && c != 'm', if s.sequence = reset.reverse then [] else s.sequence⟩

end Style

structure Wrapping where
  /-- The text so far, the latest character first. -/
  output : List Char
  /-- How much stands in the line. -/
  size : Nat
  /-- The colours in force. -/
  style : Style
  deriving DecidableEq, Repr

/-- What goes between two lines, the latest character first. Colours end with their line and start
again in the next one. -/
def lineBreak (sequence : List Char) : List Char :=
  if sequence.isEmpty then ['\n'] else sequence ++ '\n' :: reset.reverse

/-- One character of a text that is cut into lines of at most `limit` characters, where those of
escape sequences do not count. -/
def wrapStep (limit : Nat) (w : Wrapping) (c : Char) : Wrapping :=
  let style := w.style.enter c
  -- A full line is broken by the character behind it, so that none is empty at the end.
  let full := c == '\n' || (!style.escaped && w.size == limit)
  let output := if full then lineBreak style.sequence ++ w.output else w.output
  let size := if full then 0 else w.size
  { output := if c = '\n' then output else c :: output
    size := if c = '\n' ∨ style.escaped then size else size + 1
    style := style.leave c }

def wrap (limit : Nat) (text : List Char) : List (List Char) :=
  let w := text.foldl (wrapStep limit) ⟨[], 0, .none⟩
  splitLines (w.output.reverse ++ if w.style.sequence.isEmpty then [] else reset)

/-! ## Filling -/

/-- The colours that are left on behind a word, as an escape sequence, the latest character
first. -/
def styleOf (word : List Char) : List Char :=
  (word.foldl (fun s c => (s.enter c).leave c) Style.none).sequence

structure Filling where
  /-- The text so far, the latest character first. -/
  output : List Char
  /-- How much stands in the line. -/
  size : Nat
  /-- The last escape sequence that turned colours on, the latest character first. -/
  sequence : List Char
  deriving DecidableEq, Repr

namespace Filling

/-- Ends a line, with blanks up to its full width. -/
def endLine (limit : Nat) (f : Filling) : Filling :=
  { f with
    output := lineBreak f.sequence ++ (List.replicate (limit - f.size) ' ' ++ f.output)
    size := 0 }

/-- Puts a word at the start of a line. One that does not fit into a line is cut. -/
def startLine (limit : Nat) (f : Filling) (word : List Char) : Filling :=
  if width word ≤ limit then { f with output := word.reverse ++ f.output, size := width word }
  else
    let w := word.foldl (wrapStep limit) ⟨f.output, f.size, ⟨false, f.sequence⟩⟩
    { f with output := w.output, size := w.size }

/-- Adds a word, in the line if there is room for it, or else in a new one. -/
def add (limit : Nat) (f : Filling) (word : List Char) : Filling :=
  let f := if (styleOf word).isEmpty then f else { f with sequence := styleOf word }
  let gap := if f.size = 0 then 0 else 1
  if f.size + gap + width word ≤ limit then
    { f with
      output := word.reverse ++ (List.replicate gap ' ' ++ f.output)
      size := f.size + gap + width word }
  else (if f.size = 0 then f else f.endLine limit).startLine limit word

/-- Adds words. A line that is full ends at once when there are more. -/
def addAll (limit : Nat) (f : Filling) : List (List Char) → Filling
  | [] => f
  | [word] => f.add limit word
  | word :: rest =>
    let f := f.add limit word
    addAll limit (if f.size = limit then f.endLine limit else f) rest

/-- The text of a paragraph. Colours that are still on end with it. -/
def text (f : Filling) : List Char :=
  -- The last word may have ended its colours itself.
  if f.sequence.isEmpty || reset.reverse.isPrefixOf f.output then f.output.reverse
  else f.output.reverse ++ reset

end Filling

def fillParagraph (limit : Nat) (paragraph : List Char) : List Char :=
  (Filling.addAll limit ⟨[], 0, []⟩ (words paragraph)).text

/-- The paragraphs of a text, which stand between pairs of newlines, behind the characters `before`,
the latest first. -/
def paragraphsFrom (before : List Char) : List Char → List (List Char)
  | [] => [before.reverse]
  | '\n' :: '\n' :: rest => before.reverse :: paragraphsFrom [] rest
  | c :: rest => paragraphsFrom (c :: before) rest

/-- A text in lines of at most `limit` places. A text of no more characters than that stays as it
is; the paragraphs of any other are filled word by word. -/
def fill (limit : Nat) (text : List Char) : List (List Char) :=
  let text := expandTabs text
  if text.length ≤ limit then splitLines text
  else splitLines (['\n', '\n'].intercalate ((paragraphsFrom [] text).map (fillParagraph limit)))

end Display

end Dlx
