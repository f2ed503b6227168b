import Dlx.Text.Bytes

/-!
# Paths

File names as the command line gives them: components between slashes. These functions look at the
text of a path alone and at no file.
-/

namespace Dlx

namespace Path

def slash : UInt8 := 0x2F

/-- The components of a path, empty ones included. -/
def components (path : Bytes) : List Bytes :=
  Bytes.split slash path

def isRooted (path : Bytes) : Bool :=
  path.head? == some slash

/-- The ending of the last component, from its last dot on, or nothing when it has no dot. -/
def ending (path : Bytes) : Bytes :=
  let name := (components path).getLastD []
  if name.contains 0x2E then 0x2E :: (name.reverse.takeWhile (· != 0x2E)).reverse else []

def dropSlashes (path : Bytes) : Bytes :=
  (path.reverse.dropWhile (· == slash)).reverse

/-- The last component that is not empty; the root for a path of slashes, and a dot for the empty
path. -/
def base (path : Bytes) : Bytes :=
  if path.isEmpty then utf8 "."
  else
    let name := (components (dropSlashes path)).getLastD []
    if name.isEmpty then utf8 "/" else name

/-- One component on the way through a path, with the components kept so far, the latest first:
empty components and single dots fall away, and a double dot takes back a component. -/
def cleanStep (rooted : Bool) (kept : List Bytes) (component : Bytes) : List Bytes :=
  if component.isEmpty || component == utf8 "." then kept
  else if component == utf8 ".." then
    match kept with
    | [] => if rooted then [] else [component]
    | last :: before => if last == utf8 ".." then component :: kept else before
  else component :: kept

/-- The shortest path that leads to the same place. -/
def clean (path : Bytes) : Bytes :=
  let rooted := isRooted path
  let kept := ((components path).foldl (cleanStep rooted) []).reverse
  let joined := Bytes.join (utf8 "/") kept
  if rooted then utf8 "/" ++ joined
  else if kept.isEmpty then utf8 "."
  else joined

def inside (directory name : Bytes) : Bytes :=
  clean (directory ++ utf8 "/" ++ name)

def sourceEnding : Bytes := utf8 ".dlx"

/-- Where the output of a source goes: next to it, or in a directory of its own, with another
ending. -/
def output (source directory : Bytes) : Bytes :=
  let path := Bytes.dropEnding sourceEnding source ++ utf8 ".hex"
  if directory.isEmpty then path else inside directory (base path)

end Path

end Dlx
