import LinearProgram.Action
import LinearProgram.Path

/-!
# `LinearProgram.Storage`: where files are kept

What the library stores and reads goes through `Storage`, four
operations on the state of some file store, each of which can be refused
for any reason.

* `readText` is the reading of a text, which has to be in UTF-8.
* `writeText` stores a text.
-/

set_option autoImplicit false

namespace LinearProgram

/-- Why a file operation was refused. -/
inductive FileError where
  | notFound
  | notADirectory
  | isADirectory
  | alreadyExists
  | denied
  /-- A name on the way, or the whole path, is too long. -/
  | nameTooLong
  /-- The path contains the character that ends names. -/
  | badName
  /-- The content is no text in UTF-8. -/
  | notText
deriving DecidableEq, Repr

/-- The wording of a refusal. -/
def FileError.message : FileError → String
  | notFound => "No such file or directory (os error 2)"
  | notADirectory => "Not a directory (os error 20)"
  | isADirectory => "Is a directory (os error 21)"
  | alreadyExists => "File exists (os error 17)"
  | denied => "Permission denied (os error 13)"
  | nameTooLong => "File name too long (os error 36)"
  | badName => "file name contained an unexpected NUL byte"
  | notText => "stream did not contain valid UTF-8"

/-- A place to store files, with states in `δ`. -/
class Storage (δ : Type) where
  isFile : δ → Path → Bool
  /-- The content of a file. -/
  read : δ → Path → Except FileError (List UInt8)
  /-- Makes a directory and those above it, where they are missing. -/
  createDirectories : Path → Action δ FileError Unit
  /-- Stores a file in place of an earlier one. -/
  write : Path → List UInt8 → Action δ FileError Unit

/-- The bytes of a text in UTF-8. -/
def encodeText (text : String) : List UInt8 := text.toUTF8.data.toList

/-- The text that bytes stand for, if they are UTF-8. -/
def decodeText? (bytes : List UInt8) : Option String := String.fromUTF8? ⟨bytes.toArray⟩

/-- The content of a file as text. -/
def readText {δ : Type} [Storage δ] (files : δ) (path : Path) : Except FileError String :=
  match Storage.read files path with
  | .error e => .error e
  | .ok bytes =>
    match decodeText? bytes with
    | some text => .ok text
    | none => .error .notText

/-- Stores a text. -/
def writeText {δ : Type} [Storage δ] (path : Path) (text : String) : Action δ FileError Unit :=
  Storage.write path (encodeText text)

end LinearProgram
