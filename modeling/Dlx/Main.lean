import Dlx.Command.Run

/-!
# The program

Runs the command on the disk. The part of the disk that the run may touch is read into a file tree,
the command runs on that tree, and the files that it changed or removed are brought back to the
disk.
-/

namespace Dlx

namespace Disk

def fileName (path : Bytes) : String :=
  String.ofList (Utf8.chars path)

/-- Adds to a tree what stands at a path on the disk, if anything does. -/
def look (tree : FileTree) (path : Bytes) : IO FileTree := do
  let place := FileTree.placeOf path
  try
    let found ← IO.FS.realPath (fileName path)
    if ← found.isDir then return tree.addDirectory place
    else return tree.put place (← IO.FS.readBinFile found).data.toList
  catch _ => return tree

/-- A path and the paths of the directories on its way. -/
def steps (path : Bytes) : List Bytes :=
  let names := Path.components path
  (List.range names.length).map (fun n => Bytes.join (utf8 "/") (names.take (n + 1)))

/-- The part of the disk that a command line may touch. -/
def snapshot (arguments : List Bytes) : IO FileTree :=
  match Options.read arguments with
  | .error _ => return .empty
  | .ok (options, files) =>
    let start := if (Command.paths options files).any Path.isRooted
      then FileTree.empty.addDirectory [utf8 "/"] else FileTree.empty
    ((Command.paths options files).flatMap steps).foldlM look start

def put (stream : IO.FS.Stream) (text : Bytes) : IO Unit := do
  stream.write ⟨text.toArray⟩
  stream.flush

/-- Brings the disk from one tree to another: new and changed files are written, others removed. -/
def store (before after : FileTree) : IO Unit := do
  for (place, text) in FileTree.updates before after do
    IO.FS.writeBinFile (fileName (FileTree.pathOf place)) ⟨text.toArray⟩
  for (place, _) in before.files do
    if (after.find? place).isNone then IO.FS.removeFile (fileName (FileTree.pathOf place))

end Disk

end Dlx

open Dlx in
/-- Runs the command. A command line that cannot be read is reported here, since the run itself
prints nothing about it. -/
def main (args : List String) : IO UInt32 := do
  let arguments := args.map utf8
  let out ← IO.getStdout
  let err ← IO.getStderr
  let tree ← Disk.snapshot arguments
  let outcome := Command.run
    { tree, outTerminal := ← out.isTty, errTerminal := ← err.isTty } arguments
  Disk.store tree outcome.atExit
  Disk.put out outcome.stdout
  Disk.put err (outcome.log.flatMap (fun e => e.render ++ utf8 "\n") ++ outcome.stderr)
  Disk.put err (outcome.exitLog.flatMap (fun e => e.render ++ utf8 "\n"))
  match outcome.error with
  | none => return 0
  | some (.usage error) =>
    Disk.put err (error.message ++ utf8 "\n")
    return 1
  | some _ => return 1
