/-!
# Templates without arguments

A template is a text with directives. A directive starts with a percent sign; flags, an index in
brackets, a width, a precision behind a dot and another index may follow, and a character that says
what to do, its verb, ends it. A doubled percent sign, whatever stands between the two, is a plain
one.

Where there are no arguments, a directive has nothing to stand for, and what is shown in its place
says so:

* a width or precision that is a star is taken from an argument, which is missing
* a directive with an index has no argument of that index, and any other has none left
* a directive may end with the text before its verb

`Template.expand` is the text that a template without arguments stands for.
-/

namespace Dlx

namespace Template

/-! ## Parts of a directive -/

def isFlag (c : Char) : Bool :=
  c ∈ ['#', '0', '+', '-', ' ']

/-- No digit may follow a number greater than this. -/
def numberLimit : Nat := 1000000

/-- Reads the digits of a number behind `value`: whether there is a number, and what follows it. A
number that is too large is none, and what follows it is lost. -/
def numberFrom (value : Nat) (found : Bool) : List Char → Bool × List Char
  | [] => (found, [])
  | c :: rest =>
    if !c.isDigit then (found, c :: rest)
    else if numberLimit < value then (false, [])
    else numberFrom (value * 10 + (c.toNat - '0'.toNat)) true rest

def number (text : List Char) : Bool × List Char :=
  numberFrom 0 false text

structure Reading where
  /-- What is shown of it so far. -/
  shown : List Char
  /-- Whether there was an index. -/
  indexed : Bool
  /-- Whether the part read last is an index with a number, which no other index may follow. -/
  settled : Bool
  /-- The text that follows. -/
  rest : List Char
  deriving DecidableEq, Repr

namespace Reading

/-- A directive behind its percent sign and its flags. -/
def start (text : List Char) : Reading :=
  ⟨[], false, false, text.dropWhile isFlag⟩

/-- Reads an index, if there is one. A bracket that nothing closes stands alone, and so does one
that is closed at once by the last character of the text. -/
def index (r : Reading) : Reading :=
  match r.rest with
  | '[' :: rest =>
    let inside := rest.takeWhile (· != ']')
    if inside.length = rest.length ∨ rest = [']'] then
      { r with indexed := true, settled := false, rest := rest }
    else
      { r with
        indexed := true
        settled := number inside = (true, [])
        rest := rest.drop (inside.length + 1) }
  | _ => { r with settled := false }

/-- Reads an amount: a number, or a star, about which there is a complaint. -/
def amount (r : Reading) (complaint : String) : Reading :=
  match r.rest with
  | '*' :: rest => { r with shown := r.shown ++ complaint.toList, settled := false, rest := rest }
  | _ => { r with rest := (number r.rest).2 }

/-- Reads a precision, if there is one. A dot at the end of the text starts none. -/
def precision (r : Reading) : Reading :=
  match r.rest with
  | '.' :: c :: rest => ({ r with rest := c :: rest }).index.amount "%!(BADPREC)"
  | _ => r

/-- Reads an index in front of the verb, unless one has just been read. -/
def lastIndex (r : Reading) : Reading :=
  if r.settled then r else r.index

/-- Ends a directive with its verb: what is shown of it, and the text that follows. -/
def verb (r : Reading) : List Char × List Char :=
  match r.rest with
  | [] => (r.shown ++ "%!(NOVERB)".toList, [])
  | '%' :: rest => (r.shown ++ ['%'], rest)
  | verb :: rest =>
    let reason := if r.indexed then "(BADINDEX)" else "(MISSING)"
    (r.shown ++ ['%', '!', verb] ++ reason.toList, rest)

end Reading

/-- Reads a directive behind its percent sign: what is shown of it, and the text that follows. -/
def directive (text : List Char) : List Char × List Char :=
  ((Reading.start text).index.amount "%!(BADWIDTH)").precision.lastIndex.verb

/-! ## Reading never lengthens the text -/

theorem numberFrom_rest_le (value : Nat) (found : Bool) (text : List Char) :
    (numberFrom value found text).2.length ≤ text.length := by
  induction text generalizing value found with
  | nil => simp [numberFrom]
  | cons c rest ih =>
    rw [numberFrom]
    split
    · simp
    · split
      · simp
      · exact Nat.le_succ_of_le (ih _ _)

namespace Reading

theorem start_rest_le (text : List Char) : (start text).rest.length ≤ text.length :=
  (List.dropWhile_suffix _).length_le

theorem index_rest_le (r : Reading) : r.index.rest.length ≤ r.rest.length := by
  unfold index
  split
  · rename_i rest h
    rw [h]
    dsimp only
    split
    · simp
    · simp only [List.length_drop, List.length_cons]
      omega
  · simp

theorem amount_rest_le (r : Reading) (complaint : String) :
    (r.amount complaint).rest.length ≤ r.rest.length := by
  unfold amount
  split
  · rename_i rest h
    simp [h]
  · exact numberFrom_rest_le 0 false r.rest

theorem precision_rest_le (r : Reading) : r.precision.rest.length ≤ r.rest.length := by
  unfold precision
  split
  · rename_i c rest h
    have hAmount := amount_rest_le ({ r with rest := c :: rest }).index "%!(BADPREC)"
    have hIndex := index_rest_le { r with rest := c :: rest }
    simp only [h, List.length_cons] at *
    omega
  · simp

theorem lastIndex_rest_le (r : Reading) : r.lastIndex.rest.length ≤ r.rest.length := by
  unfold lastIndex
  split
  · simp
  · exact index_rest_le r

theorem verb_rest_le (r : Reading) : r.verb.2.length ≤ r.rest.length := by
  unfold verb
  split <;> simp_all

end Reading

/-- What follows a directive is no longer than the text it was read from. -/
theorem directive_rest_le (text : List Char) : (directive text).2.length ≤ text.length := by
  have hStart := Reading.start_rest_le text
  have hIndex := Reading.index_rest_le (Reading.start text)
  have hWidth := Reading.amount_rest_le (Reading.start text).index "%!(BADWIDTH)"
  have hPrecision :=
    Reading.precision_rest_le ((Reading.start text).index.amount "%!(BADWIDTH)")
  have hLast :=
    Reading.lastIndex_rest_le ((Reading.start text).index.amount "%!(BADWIDTH)").precision
  have hVerb :=
    Reading.verb_rest_le ((Reading.start text).index.amount "%!(BADWIDTH)").precision.lastIndex
  unfold directive
  omega

/-! ## Templates -/

/-- The text that a template without arguments stands for. -/
def expand (text : List Char) : List Char :=
  match _hFound : text.dropWhile (· != '%') with
  | [] => text
  | _ :: rest => text.takeWhile (· != '%') ++ ((directive rest).1 ++ expand (directive rest).2)
termination_by text.length
decreasing_by
  have hDrop := (List.dropWhile_suffix (l := text) (· != '%')).length_le
  have hRest := directive_rest_le rest
  rw [_hFound, List.length_cons] at hDrop
  omega

end Template

end Dlx
