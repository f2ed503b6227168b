import Dlx.Text.Bytes

/-!
# Status lines

The command tells what it is doing: cyan for the start and the end of a run, yellow for progress,
red for what stopped it. Colours are left out where nobody would see them.
-/

namespace Dlx

inductive Status where
  | started
  | ended
  | heading (title : Bytes)
  | note (text : Bytes)
  | done
  | failed (text : Bytes)
  deriving DecidableEq, Repr

namespace Status

def color : Status → Nat
  | .started | .ended => 36
  | .heading _ | .note _ | .done => 33
  | .failed _ => 31

def lines : Status → List Bytes
  | .started => [utf8 "DLXASM RUNNING", utf8 "======================================== START"]
  | .ended => [utf8 "DLXASM FINISHED", utf8 "======================================== END"]
  | .heading title => [title, utf8 "~~~~~~~~~~~~~~~~~~~~~~~~~~~~~~~~~~~~~~~~"]
  | .note text => [text]
  | .done => [utf8 "---------------------------------------- DONE"]
  | .failed text => [text, utf8 "======================================== STOPPED"]

def escape : Bytes := utf8 "\x1b"

def paint (color : Nat) (text : Bytes) : Bytes :=
  escape ++ utf8 "[" ++ Bytes.decimal color ++ utf8 "m" ++ text ++ escape ++ utf8 "[0m"

/-- A message as text, in colour or without. -/
def render (colored : Bool) (s : Status) : Bytes :=
  s.lines.flatMap (fun line => (if colored then paint s.color line else line) ++ utf8 "\n")

end Status

end Dlx
