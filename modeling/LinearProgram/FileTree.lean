import LinearProgram.OrderedMap
import LinearProgram.Storage

/-!
# `LinearProgram.FileTree`: a tree of files and directories

A `FileTree` is a file store that is a plain value: files and
directories by location, and the location at which paths begin that are
not absolute. Operations are refused only for what is in the way.

* `walk` follows a path step by step. It can only step on from a
  directory, so a path that goes into a file or through something
  missing leads nowhere, even if later steps go back up.
* `node?` is the view, and `node?_put` says what a change does to it.
* `read` and `write` are for files, `createDirectories` for directories.
* `files` lists the files.
-/

set_option autoImplicit false

namespace LinearProgram

/-- Where something stands: names of directories from the root, then
its own. -/
abbrev Location := List String

/-- What stands at a location. -/
inductive Node where
  | file (content : List UInt8)
  | directory
deriving DecidableEq, Repr

/-- Files and directories by location. -/
structure FileTree where
  nodes : OrderedMap Location Node
  /-- Where paths begin that are not absolute. This is a directory, and
  so is everything above it. -/
  here : Location

namespace FileTree

/-- A tree with nothing in it, and the location where paths begin. -/
def emptyAt (here : Location) : FileTree := ⟨∅, here⟩

instance : EmptyCollection FileTree := ⟨emptyAt []⟩
instance : Inhabited FileTree := ⟨∅⟩

/-- What stands at a location, if anything. -/
def node? (t : FileTree) (place : Location) : Option Node :=
  if place.isPrefixOf t.here then some .directory else t.nodes.get? place

/-- Puts something at a location. -/
def put (t : FileTree) (place : Location) (node : Node) : FileTree :=
  { t with nodes := t.nodes.insert place node }

/-- Putting something at a location changes nothing elsewhere, and
nothing above the location where paths begin. -/
theorem node?_put (t : FileTree) (place other : Location) (node : Node) :
    (t.put place node).node? other
      = if other.isPrefixOf t.here then some .directory
        else if other = place then some node else t.node? other := by
  unfold node? put
  by_cases h : other.isPrefixOf t.here
  · simp [h]
  · simp [h, OrderedMap.get?_insert]

/-! ### Following paths -/

/-- The most bytes that a name can have. -/
def nameLimit : Nat := 255

/-- The most bytes that a path can have. -/
def pathLimit : Nat := 4095

/-- Where the parts of a path lead from a location. Nothing needs to
stand where the last of them leads. -/
def walk (t : FileTree) (place : Location) : Path → Except FileError Location
  | [] => .ok place
  | part :: rest =>
    match t.node? place with
    | none => .error .notFound
    | some (.file _) => .error .notADirectory
    | some .directory =>
      if Path.stays part then t.walk place rest
      else if part = ".." then t.walk place.dropLast rest
      else if nameLimit < part.utf8ByteSize then .error .nameTooLong
      else t.walk (place ++ [part]) rest

/-- Where a path begins, if it can lead anywhere. -/
def start (t : FileTree) (path : Path) : Except FileError Location :=
  if path.any fun part => part.toList.contains '\x00' then .error .badName
  else if pathLimit < path.text.utf8ByteSize then .error .nameTooLong
  else if path = .blank then .error .notFound
  else .ok (if path.isAbsolute then [] else t.here)

/-- Where a path leads. -/
def locate (t : FileTree) (path : Path) : Except FileError Location :=
  match t.start path with
  | .ok place => t.walk place path
  | .error e => .error e

/-- Where a path leads that may name a new directory; a slash at its end
does not count. -/
def locateNew (t : FileTree) (path : Path) : Except FileError Location :=
  match t.start path with
  | .ok place => t.walk place path.withoutSlash
  | .error e => .error e

/-! ### Files -/

/-- The content of a file. -/
def read (t : FileTree) (path : Path) : Except FileError (List UInt8) :=
  match t.locate path with
  | .error e => .error e
  | .ok place =>
    match t.node? place with
    | some (.file content) => .ok content
    | some .directory => .error .isADirectory
    | none => .error .notFound

/-- Whether a path leads to a file. -/
def isFile (t : FileTree) (path : Path) : Bool :=
  match t.read path with
  | .ok _ => true
  | .error _ => false

/-- Where the file stands that a path names for writing. A path with a
slash at its end names no file, whatever its last name, as long as the
way there leads on. -/
def locateFile (t : FileTree) (path : Path) : Except FileError Location :=
  match t.start path with
  | .error e => .error e
  | .ok place =>
    if path.endsInSlash then
      match t.walk place path.enclosing with
      | .ok _ => .error .isADirectory
      | .error e => .error e
    else
      match t.walk place path with
      | .ok place => if t.node? place == some .directory then .error .isADirectory else .ok place
      | .error e => .error e

/-- Stores a file. Its directory has to exist. -/
def write (path : Path) (content : List UInt8) : Action FileTree FileError Unit := fun t =>
  match t.locateFile path with
  | .ok place => (.ok (), t.put place (.file content))
  | .error e => (.error e, t)

/-! ### Directories -/

/-- Whether a path leads to a directory. -/
def isDirectory (t : FileTree) (path : Path) : Bool :=
  match t.locate path with
  | .ok place => t.node? place == some .directory
  | .error _ => false

/-- Makes a directory where nothing stands yet. -/
def makeDirectory (path : Path) : Action FileTree FileError Unit := fun t =>
  match t.locateNew path with
  | .error e => (.error e, t)
  | .ok place =>
    if (t.node? place).isSome then (.error .alreadyExists, t)
    else (.ok (), t.put place .directory)

/-- Does something that may fail for a directory that is there. -/
def orDirectory (path : Path) (make : Action FileTree FileError Unit) :
    Action FileTree FileError Unit := fun t =>
  match make t with
  | (.ok (), t) => (.ok (), t)
  | (.error e, t) => if t.isDirectory path then (.ok (), t) else (.error e, t)

/-- Makes the first of some directories. If that fails because
something is missing, the others are made before it is tried again. -/
def makeInside : List Path → Action FileTree FileError Unit
  | [] => .done ()
  | path :: above => fun t =>
    match orDirectory path (makeDirectory path) t with
    | (.error .notFound, t) =>
      Action.andThen (makeInside above) (fun _ => orDirectory path (makeDirectory path)) t
    | outcome => outcome

/-- Makes a directory and those above it, where they are missing. -/
def createDirectories (path : Path) : Action FileTree FileError Unit :=
  if path.staysPut then .done () else makeInside (path :: path.ancestors)

instance : Storage FileTree := ⟨isFile, read, createDirectories, write⟩

/-- The files below the location where paths begin, with their
contents, in the order of their locations. -/
def files (t : FileTree) : List (Path × List UInt8) :=
  t.nodes.toList.filterMap fun p =>
    match p.2 with
    | .file content =>
      if t.here.isPrefixOf p.1 then some (p.1.drop t.here.length, content) else none
    | .directory => none

end FileTree

end LinearProgram
