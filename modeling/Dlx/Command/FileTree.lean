import Dlx.Command.Path

/-!
# File trees

The files and directories that a run of the command can see, and what reading, creating and removing
a file does in them. A place in the tree is a list of names, read from the working directory on; a
path is followed name by name, and every name but the last has to be a directory.

Places above the working directory start with double dots, and places under the root with a slash.
The directories above are always there; what they hold is known only as far as it has been put into
the tree.

A tree has plain files and directories and nothing else. Links are left out, symbolic or hard, so
that two places are two files; so are devices, pipes and other special files, and permissions.
-/

namespace Dlx

abbrev Place := List Bytes

structure FileTree where
  directories : List Place
  files : List (Place × Bytes)
  deriving DecidableEq, Repr

/-- Why a file could not be used. Following a path has reasons of its own; a disk that fails has
reasons in the words of the system. -/
inductive FileFlaw where
  | notFound
  | notDirectory
  | isDirectory
  | nameTooLong
  | invalidName
  | device (words : Bytes)
  deriving DecidableEq, Repr

def FileFlaw.text : FileFlaw → Bytes
  | .notFound => utf8 "no such file or directory"
  | .notDirectory => utf8 "not a directory"
  | .isDirectory => utf8 "is a directory"
  | .nameTooLong => utf8 "file name too long"
  | .invalidName => utf8 "invalid argument"
  | .device words => words

inductive FileAction where
  | opening
  | reading
  | writing
  | closing
  deriving DecidableEq, Repr

def FileAction.text : FileAction → Bytes
  | .opening => utf8 "open"
  | .reading => utf8 "read"
  | .writing => utf8 "write"
  | .closing => utf8 "close"

structure FileError where
  action : FileAction
  path : Bytes
  flaw : FileFlaw
  deriving DecidableEq, Repr

def FileError.message (e : FileError) : Bytes :=
  e.action.text ++ utf8 " " ++ e.path ++ utf8 ": " ++ e.flaw.text

namespace FileTree

def empty : FileTree := ⟨[], []⟩

def find? (t : FileTree) (place : Place) : Option Bytes :=
  t.files.lookup place

/-- The working directory and those above it need not be listed. -/
def isDirectory (t : FileTree) (place : Place) : Bool :=
  place.all (· == utf8 "..") || t.directories.contains place

/-- Puts a text into a file, in the place of what it held. -/
def put (t : FileTree) (place : Place) (text : Bytes) : FileTree :=
  { t with files := t.files.filter (fun f => f.1 != place) ++ [(place, text)] }

def delete (t : FileTree) (place : Place) : FileTree :=
  { t with files := t.files.filter (fun f => f.1 != place) }

/-! ## Following paths -/

/-- The length from which on a path is too long. -/
def pathLimit : Nat := 4096

/-- The length of the longest name in a path. -/
def nameLimit : Nat := 255

def parent (place : Place) : Place :=
  if place = [utf8 "/"] then place
  else if place.all (· == utf8 "..") then place ++ [utf8 ".."]
  else place.dropLast

/-- Follows names from a directory on. The last name need not be there. -/
def follow (t : FileTree) : (place : Place) → (names : List Bytes) → Except FileFlaw Place
  | place, [] => .ok place
  | place, name :: rest =>
    if !t.isDirectory place then
      .error (if (t.find? place).isSome then .notDirectory else .notFound)
    else if name.isEmpty || name == utf8 "." then follow t place rest
    else if name == utf8 ".." then follow t (parent place) rest
    else if nameLimit < name.length then .error .nameTooLong
    else follow t (place ++ [name]) rest

def locate (t : FileTree) (path : Bytes) : Except FileFlaw Place :=
  if path.contains 0 then .error .invalidName
  else if path.isEmpty then .error .notFound
  else if pathLimit ≤ path.length then .error .nameTooLong
  else t.follow (if Path.isRooted path then [utf8 "/"] else []) (Path.components path)

/-! ## Reading, creating and removing -/

/-- The text of the file at a path. A directory can be opened but not read. -/
def read (t : FileTree) (path : Bytes) : Except FileError Bytes :=
  match t.locate path with
  | .error flaw => .error ⟨.opening, path, flaw⟩
  | .ok place =>
    match t.find? place with
    | some text => .ok text
    | none =>
      if t.isDirectory place then .error ⟨.reading, path, .isDirectory⟩
      else .error ⟨.opening, path, .notFound⟩

/-- Writes a file at a path, which may be there already. A path that ends in a slash names a
directory. -/
def create (t : FileTree) (path text : Bytes) : Except FileError FileTree :=
  -- The slashes at the end of a path count only once it has led somewhere.
  let named := Path.dropSlashes path
  match t.locate (if named.isEmpty then path else named) with
  | .error flaw => .error ⟨.opening, path, flaw⟩
  | .ok place =>
    if t.isDirectory place || named.length < path.length then .error ⟨.opening, path, .isDirectory⟩
    else .ok (t.put place text)

/-- The tree without the file at a path, if there is one. -/
def remove (t : FileTree) (path : Bytes) : FileTree :=
  match t.locate path with
  | .error _ => t
  | .ok place => t.delete place

/-! ## Building and comparing -/

/-- The place that a path would lead to if every directory on the way were there. -/
def placeOf (path : Bytes) : Place :=
  (Path.components path).foldl
    (fun place name =>
      if name.isEmpty || name == utf8 "." then place
      else if name == utf8 ".." then parent place
      else place ++ [name])
    (if Path.isRooted path then [utf8 "/"] else [])

/-- The directories that it is in are added with it. -/
def addDirectory (t : FileTree) (place : Place) : FileTree :=
  { t with directories := (List.range (place.length + 1)).map place.take ++ t.directories }

def addFile (t : FileTree) (place : Place) (text : Bytes) : FileTree :=
  (t.addDirectory place.dropLast).put place text

/-- Directory by directory, by the bytes of the names. -/
def placeLe : Place → Place → Bool
  | [], _ => true
  | _ :: _, [] => false
  | a :: as, b :: bs => if a = b then placeLe as bs else Bytes.le a b

/-- The files that are new or changed since `before`. -/
def updates (before after : FileTree) : List (Place × Bytes) :=
  after.files.filter (fun (place, text) => before.find? place != some text)

/-- In the working directory or below. -/
def isInside (place : Place) : Bool :=
  place.head? != some (utf8 "..") && place.head? != some (utf8 "/")

def pathOf (place : Place) : Bytes :=
  Bytes.join (utf8 "/") place

/-- The paths and texts of the files in the working directory and below that are new or changed
since `before`, in the order of their places. -/
def changes (before after : FileTree) : List (Bytes × Bytes) :=
  let inside := (updates before after).filter (fun f => isInside f.1)
  (inside.mergeSort (fun a b => placeLe a.1 b.1)).map (fun (place, text) => (pathOf place, text))

end FileTree

end Dlx
