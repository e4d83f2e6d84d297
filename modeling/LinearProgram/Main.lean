import LinearProgram.CommandLine.Run
import LinearProgram.FileTree

/-!
# `LinearProgram.Main`: the program

The files that a command line names are read into a `FileTree`, the run
is made on the tree, and what has changed in it is written back. Links
count as what they lead to. No backend is linked into the program.
-/

set_option autoImplicit false

namespace LinearProgram.Main

open CommandLine

/-- Where a location is found in the file system. -/
def systemPath (place : Location) : String := "/" ++ Path.text place

/-- Adds what stands at a location. -/
def addNode (tree : FileTree) (place : Location) : IO FileTree := do
  let path := (← IO.currentDir) / systemPath place
  if ← path.isDir then return tree.put place .directory
  else if ← path.pathExists then
    return tree.put place (.file (← IO.FS.readBinFile path).data.toList)
  else return tree

/-- Adds everything below a location. -/
partial def addBelow (tree : FileTree) (place : Location) : IO FileTree := do
  let path := (← IO.currentDir) / systemPath place
  let mut tree := tree
  if ← path.isDir then
    for entry in ← path.readDir do
      tree ← addBelow (← addNode tree (place ++ [entry.fileName])) (place ++ [entry.fileName])
  return tree

/-- Adds what stands on the way of a path and at its end, and gives the
location of its end. -/
def addPath (tree : FileTree) (path : Path) : IO (FileTree × Location) := do
  let mut tree := tree
  let mut place := if path.isAbsolute then [] else tree.here
  for part in path do
    if part = ".." then place := place.dropLast
    else if !Path.stays part then
      place := place ++ [part]
      tree ← addNode tree place
  return (tree, place)

/-- The files that a command line names. -/
def snapshot (a : Arguments) : IO FileTree := do
  let here := (Path.ofText (← IO.currentDir).toString).filter fun name => !Path.stays name
  let mut tree := FileTree.emptyAt here
  for name in a.config.toList ++ a.input :: a.output.toList do
    tree := (← addPath tree (.ofText name)).1
  match configOf tree a with
  | .error _ => return tree
  | .ok config =>
    for name in config.cacheDir.toList do
      let (larger, place) ← addPath tree (.ofText name)
      tree ← addBelow larger place
    return tree

/-- Makes the files and directories that are new or have changed. -/
def writeBack (before after : FileTree) : IO Unit := do
  for (place, node) in after.nodes.toList do
    if before.nodes.get? place != some node then
      match node with
      | .directory => IO.FS.createDirAll (systemPath place)
      | .file content => IO.FS.writeBinFile (systemPath place) ⟨content.toArray⟩

/-- Looks for the library of a backend, none of which can be loaded. -/
def noLoader (a : Arguments) : Loader Unit Unit := fun name u =>
  (.error ((libraryPath a.pluginDir name).text ++ ": cannot be loaded"), u)

/-- Does what a command line asks for and prints the outcome. -/
def runArguments (a : Arguments) : IO UInt32 := do
  let env : Environment := ⟨← IO.getEnv "LPKIT_SOLVER_LIST", .none⟩
  let before ← snapshot a
  let (outcome, after) := run env a (noLoader a) () before
  writeBack before after
  IO.print outcome.output
  outcome.errorLines.forM IO.eprintln
  return outcome.exitCode.toUInt32

end LinearProgram.Main

open LinearProgram LinearProgram.CommandLine in
/-- The program. -/
def main (arguments : List String) : IO UInt32 := do
  match parse arguments with
  | .run a => Main.runArguments a
  | .help => do
    IO.print helpText
    return 0
  | .version => do
    IO.print versionText
    return 0
  | .misuse => return 255
