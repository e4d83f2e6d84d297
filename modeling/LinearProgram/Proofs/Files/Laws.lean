import LinearProgram.Cache

/-!
# `LinearProgram.Proofs.Files.Laws`: what a file store has to do

`Storage` says which operations a file store has, and nothing about what
they do. A store is lawful if files are where they were put, and if what
is put beside a file leaves it alone. Others may be at work on the same
files, and any operation may be refused.

* `LawfulStorage` has a law for each of these.
* `readText_of_writeText`: a text that has been stored is read.
* `readText_of_writeText_beside` and `readText_of_createDirectories`: it
  goes on being read.
-/

set_option autoImplicit false

namespace LinearProgram

/-- Whether a part of a path is the name of something in a directory. -/
def Path.IsStep (part : String) : Prop := Path.stays part = false ∧ part ≠ ".."

/-- Whether a path leads down, at least one step. -/
structure Path.IsDescent (p : Path) : Prop where
  nonempty : p ≠ []
  steps : ∀ part ∈ p, Path.IsStep part

/-- A file store that keeps what is put into it. -/
class LawfulStorage (δ : Type) [Storage δ] : Prop where
  /-- What can be read is a file. -/
  isFile_of_read {files : δ} {path : Path} {content : List UInt8}
    (h : Storage.read files path = .ok content) : Storage.isFile files path = true
  /-- What has been stored is there. -/
  read_of_write {files files' : δ} {path : Path} {content : List UInt8}
    (h : Storage.write path content files = (.ok (), files')) :
    Storage.read files' path = .ok content
  /-- A file stays as it is if something is stored below the same
  directory, successfully or not. -/
  read_of_write_beside {files : δ} {directory p q : Path} {content : List UInt8}
    (hp : p.IsDescent) (hq : q.IsDescent) (hne : p ≠ q)
    (h : Storage.read files (directory ++ p) = .ok content) (other : List UInt8) :
    Storage.read (Storage.write (directory ++ q) other files).2 (directory ++ p) = .ok content
  /-- A file stays as it is if directories are made. -/
  read_of_createDirectories {files : δ} {path : Path} {content : List UInt8}
    (h : Storage.read files path = .ok content) (directory : Path) :
    Storage.read (Storage.createDirectories directory files).2 path = .ok content

/-- What a text is written as is read as that text. -/
theorem decodeText?_encodeText (text : String) : decodeText? (encodeText text) = some text := by
  have hbytes : (⟨(encodeText text).toArray⟩ : ByteArray) = text.toUTF8 := by
    rw [encodeText, Array.toArray_toList]
  rw [decodeText?, hbytes, String.fromUTF8?, String.toUTF8_eq_toByteArray,
    dif_pos text.isValidUTF8]
  rfl

section Texts

variable {δ : Type} [Storage δ]

/-- A text can be read where bytes can that are one. -/
theorem readText_eq_ok_iff {files : δ} {path : Path} {text : String} :
    readText files path = .ok text
      ↔ ∃ bytes, Storage.read files path = .ok bytes ∧ decodeText? bytes = some text := by
  unfold readText
  cases Storage.read files path with
  | error e => exact ⟨nofun, fun ⟨_, h, _⟩ => nomatch h⟩
  | ok bytes =>
      have hsame : (∃ bytes', Except.ok bytes = Except.ok (ε := FileError) bytes'
          ∧ decodeText? bytes' = some text) ↔ decodeText? bytes = some text :=
        ⟨fun ⟨_, heq, h⟩ => Except.ok.inj heq ▸ h, fun h => ⟨bytes, rfl, h⟩⟩
      rw [hsame]
      cases hdecode : decodeText? bytes with
      | none => simp [hdecode]
      | some found => simp [hdecode]

variable [LawfulStorage δ]

theorem isFile_of_readText {files : δ} {path : Path} {text : String}
    (h : readText files path = .ok text) : Storage.isFile files path = true := by
  obtain ⟨bytes, hread, _⟩ := readText_eq_ok_iff.mp h
  exact LawfulStorage.isFile_of_read hread

/-- A text that has been stored is read. -/
theorem readText_of_writeText {files files' : δ} {path : Path} {text : String}
    (h : writeText path text files = (.ok (), files')) : readText files' path = .ok text :=
  readText_eq_ok_iff.mpr ⟨encodeText text, LawfulStorage.read_of_write h, decodeText?_encodeText text⟩

/-- A text stays as it is if another one is stored beside it. -/
theorem readText_of_writeText_beside {files : δ} {directory p q : Path} {text : String}
    (hp : p.IsDescent) (hq : q.IsDescent) (hne : p ≠ q)
    (h : readText files (directory ++ p) = .ok text) (other : String) :
    readText (writeText (directory ++ q) other files).2 (directory ++ p) = .ok text := by
  obtain ⟨bytes, hread, hdecode⟩ := readText_eq_ok_iff.mp h
  exact readText_eq_ok_iff.mpr
    ⟨bytes, LawfulStorage.read_of_write_beside hp hq hne hread (encodeText other), hdecode⟩

theorem readText_of_createDirectories {files : δ} {path : Path} {text : String}
    (h : readText files path = .ok text) (directory : Path) :
    readText (Storage.createDirectories directory files).2 path = .ok text := by
  obtain ⟨bytes, hread, hdecode⟩ := readText_eq_ok_iff.mp h
  exact readText_eq_ok_iff.mpr
    ⟨bytes, LawfulStorage.read_of_createDirectories hread directory, hdecode⟩

end Texts

end LinearProgram
