import Neutralino.Base.Errors

/-!
Whole files read through the operating system: `fs::readFile`.

* `Disk`: what the operating system answers about the paths it is given.
* `readFile`: the bytes of a file, or of a part of it.
-/

namespace Neutralino

open FilePath

/-- What opening a file for reading gives: nothing, the bytes of a file, or a
stream without a size, such as a directory's, for which no buffer can be made. -/
inductive Opening where
  | closed
  | unsized
  | bytes (content : Str)

/-- What can be read of an opened stream, where it was opened. -/
def Opening.contents : Opening → Option Str
  | closed => none
  | unsized => some []
  | bytes content => some content

/-- The answers of the operating system: the kind of what stands at a path,
where asking may throw, and what opening a file for reading gives. -/
structure Disk where
  kindOf : Str → Except Fault (Option Kind)
  kindOf_nil : kindOf [] = .ok none
  openForRead : Str → Opening

/-- A disk on which nothing can be found. -/
def Disk.empty : Disk where
  kindOf _ := .ok none
  kindOf_nil := rfl
  openForRead _ := .closed

namespace fs

/-- `FileReaderOptions`. -/
structure FileReaderOptions where
  pos : ℤ := -1
  size : ℤ := -1

/-- `FileReaderResult`. -/
structure FileReaderResult where
  status : errors.StatusCode := .NE_ST_OK
  data : Str := []
  size : ℤ := -1

/-- `readFile`. -/
def readFile (disk : Disk) (filename : Str) (options : FileReaderOptions) :
    Except Fault FileReaderResult :=
  match disk.openForRead filename with
  | .closed => .ok { status := .NE_FS_FILRDER }
  | .unsized => .error .badAlloc
  | .bytes content =>
      let origSize : ℤ := content.length
      let pos := if -1 < options.pos then min options.pos origSize else 0
      let rest := origSize - pos
      let size := if -1 < options.size then min options.size rest else rest
      .ok { data := (content.drop pos.toNat).take size.toNat, size := origSize }

/-- Reading is never undefined. -/
lemma readFile_defined (disk : Disk) (filename : Str) (options : FileReaderOptions) :
    readFile disk filename options ≠ .error .undefinedBehaviour := by
  unfold readFile
  cases disk.openForRead filename with
  | closed => simp
  | unsized => simp
  | bytes content => simp

end fs

end Neutralino
