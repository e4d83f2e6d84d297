/-!
# `LinearProgram.Path`: paths as they are written

A path says step by step where something stands, and what the steps
amount to depends on what stands on the way. So a `Path` keeps them as
they are written: names, points that stay in place, and pairs of points
that go up. Only a file store can tell where that leads.

* `ofText` and `text` take a written path apart and put it together.
* `join` continues a path by another one.
* `ancestors` are the directories on the way.
-/

set_option autoImplicit false

namespace LinearProgram

/-- What stands between the slashes of a written path. Nothing stands
in front of the slash that begins an absolute path, and nothing behind
one that ends a path. -/
abbrev Path := List String

namespace Path

/-- The path that a text with slashes spells. -/
def ofText (text : String) : Path := (text.toList.splitOn '/').map String.ofList

/-- A path as text. -/
def text (p : Path) : String := "/".intercalate p

/-- The path that has nothing written. It leads nowhere. -/
def blank : Path := [""]

/-- Whether a path begins with a slash, that is, at the root. -/
def isAbsolute : Path → Bool
  | "" :: _ :: _ => true
  | _ => false

/-- Whether a path ends with a slash, and so has to name a directory. -/
def endsInSlash (p : Path) : Bool := p.getLast? == some ""

/-- A path without the slashes at its end. -/
def withoutSlash (p : Path) : Path := (p.reverse.dropWhile (· == "")).reverse

/-- The directory in which the last step of a path is taken, with the
slash that stands before that step. -/
def enclosing (p : Path) : Path := p.withoutSlash.dropLast ++ [""]

/-- The path that leads to `q` for who stands at `p`. -/
def join (p q : Path) : Path :=
  if q.isAbsolute then q else if p.endsInSlash then p.dropLast ++ q else p ++ q

/-- Whether a part of a path stays where it is. -/
def stays (part : String) : Bool := part == "" || part == "."

/-- The paths that end at a name on the way, innermost first, for a
path that is given from its end. -/
def outward : List String → List Path
  | [] => []
  | part :: above =>
    if stays part then outward above else (part :: above).reverse :: outward above

/-- The directories on the way to what a path names, innermost first. -/
def ancestors (p : Path) : List Path := (outward p.reverse).tail

/-- The directory in which a path names something. -/
def parent (p : Path) : Path := p.ancestors.head?.getD ["."]

/-- Whether a path names nothing, but stays where it begins. -/
def staysPut (p : Path) : Bool := p.all stays

end Path

end LinearProgram
