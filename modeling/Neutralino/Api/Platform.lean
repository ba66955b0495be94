import Neutralino.Api.FileReader
import Neutralino.Api.OpenedFiles
import Neutralino.Auth.Permission
import Neutralino.Library.Calls
import Neutralino.Server.Mounts

/-!
The operating system under the native methods, and the record of what they do
to paths.

* `Access`, `Effect`: what is done to a path; `Access.requires` the permissions
  this is meant to need.
* `Os`: the answers of the operating system during one call.
* `World`: the registries behind the native methods, with the log of effects.
* `Logged`: a property of every entry of the log, and one lemma for each
  operation on what it adds.
-/

namespace Neutralino

open permission (FileSystemAccessPermission)
open Calls (ofState Keeps keeps_ofState keeps_bind keeps_lift)

/-- What is done to a path: its content is read, it is listed, asked for its
properties, created, written over, deleted, moved away, changed in its
properties, watched, or exposed by a mount.  A `resource` is a file read as one
of the resources in the directory `dir`. -/
inductive Access where
  | read
  | list
  | inspect
  | create
  | overwrite
  | delete
  | moveAway
  | change
  | watch
  | expose
  | resource (dir : Str)
  deriving DecidableEq

/-- The permissions an access is meant to need, after the release notes: what is
moved away has to be readable and writable. -/
def Access.requires : Access → List FileSystemAccessPermission
  | read => [.read]
  | list => [.read]
  | inspect => [.read]
  | create => [.write]
  | overwrite => [.write]
  | delete => [.write]
  | moveAway => [.read, .write]
  | change => [.write]
  | watch => [.write]
  | expose => [.read]
  | resource _ => [.read]

/-- Every access needs some permission. -/
lemma Access.exists_requires (access : Access) : ∃ kind, kind ∈ access.requires := by
  cases access <;> exact ⟨_, List.mem_cons_self⟩

/-- An access to a path, the text handed to the operating system. -/
structure Effect where
  access : Access
  path : Str
  deriving DecidableEq

namespace fs

/-- `EntryType`. -/
inductive EntryType where
  | file
  | dir
  | other
  deriving DecidableEq

/-- `FileStats` of a path that has any. -/
structure FileStats where
  size : ℤ
  entryType : EntryType
  createdAt : ℤ
  modifiedAt : ℤ

/-- `FileWriterOptions`. -/
structure FileWriterOptions where
  filename : Str
  data : Str
  append : Bool := false

/-- `DirReaderEntry`. -/
structure DirReaderEntry where
  name : Str
  path : Str
  type : EntryType

/-- `filesystem::copy_options`, as far as the methods set them. -/
structure CopyOptions where
  recursive : Bool
  overwriteExisting : Bool
  skipExisting : Bool

/-- `filesystem::perm_options`. -/
inductive PermOptions where
  | replace
  | add
  | remove

end fs

/-- The answers of the operating system during one call, with the host that the
call finds; `maxSize` is the longest buffer, `maxOffset` the largest offset in a file, and the
base64 codec stands here too. -/
structure Os where
  host : Host
  disk : Disk
  maxSize : ℕ
  maxOffset : Str → ℕ
  createDirectories : Str → Except Fault Bool
  removeAll : Str → Except Fault Bool
  openForWrite : Str → Bool → Bool
  stat : Str → Option fs.FileStats
  readDirectory : Str → Bool → Except Fault (List fs.DirReaderEntry)
  copy : Str → Str → fs.CopyOptions → Bool
  rename : Str → Str → Bool
  addWatch : Str → ℤ
  permissions : Str → Except Fault ℕ
  setPermissions : Str → ℕ → fs.PermOptions → Bool
  access : Str → ℤ → Bool
  chmod : Str → ℤ → Bool
  chown : Str → ℤ → ℤ → Bool
  trash : Str → Bool
  snapshot : Str → Bool
  toBase64 : Str → Str
  fromBase64 : Str → Str

/-- The operating system where nothing can be done. -/
def Os.idle (host : Host) : Os where
  host := host
  disk := .empty
  maxSize := 0
  maxOffset _ := 2 ^ 63 - 1
  createDirectories _ := .ok false
  removeAll _ := .ok false
  openForWrite _ _ := false
  stat _ := none
  readDirectory _ _ := .ok []
  copy _ _ _ := false
  rename _ _ := false
  addWatch _ := 0
  permissions _ := .ok 0
  setPermissions _ _ _ := false
  access _ _ := false
  chmod _ _ := false
  chown _ _ _ := false
  trash _ := false
  snapshot _ := false
  toBase64 s := s
  fromBase64 s := s

/-- The registries behind the native methods, and the effects so far, each with
the host it took place on. -/
structure World where
  mounts : router.MountTable := .empty
  openedFiles : fs.OpenedFiles := {}
  watchListeners : List (ℤ × Str) := []
  log : List (Host × Effect) := []

/-- A call of a native method. -/
abbrev Call (α : Type) := Calls.Call Fault World α

namespace Os

variable (os : Os)

/-- An access that is entered in the log. -/
def touch (access : Access) (path : Str) : Call Unit :=
  ofState fun w => (.ok (), { w with log := w.log ++ [(os.host, ⟨access, path⟩)] })

/-! ### What the native methods use of `fs` -/

/-- `fs::readFile`. -/
def readFile (path : Str) (options : fs.FileReaderOptions) : Call fs.FileReaderResult := do
  os.touch .read path
  fs.readFile os.disk path options

/-- `fs::writeFile`: whether the file could be opened. -/
def writeFile (options : fs.FileWriterOptions) : Call Bool := do
  os.touch .overwrite options.filename
  return os.openForWrite options.filename options.append

/-- `fs::openFile`. -/
def openFile (path : Str) : Call ℤ := do
  os.touch .read path
  ofState fun w =>
    let opened := fs.openFile w.openedFiles path
      ((os.disk.openForRead path).contents.map fun bytes => ⟨bytes, os.maxOffset path⟩)
    (.ok opened.1, { w with openedFiles := opened.2 })

/-- `fs::createWatcher`: a path that is watched keeps its watcher. -/
def createWatcher (path : Str) : Call ℤ := do
  os.touch .watch path
  ofState fun w =>
    match w.watchListeners.find? fun watcher => watcher.2 = path with
    | some watcher => (.ok watcher.1, w)
    | none =>
        let watcherId := os.addWatch path
        (.ok watcherId, { w with
          watchListeners := insertMember watcherId path w.watchListeners })

/-- `fs::getStats`. -/
def getStats (path : Str) : Call (Option fs.FileStats) := do
  os.touch .inspect path
  return os.stat path

end Os

/-! ### Properties of the log -/

/-- Every entry of the log has a property. -/
def Logged (Q : Host × Effect → Prop) (w : World) : Prop := ∀ entry ∈ w.log, Q entry

section Log

variable {Q : Host × Effect → Prop} {os : Os} {path : Str}

lemma keeps_touch {access : Access} (h : Q (os.host, ⟨access, path⟩)) :
    Keeps (Logged Q) (os.touch access path) := by
  intro w hw entry hentry
  rcases List.mem_append.mp hentry with hentry | hentry
  · exact hw entry hentry
  · exact List.mem_singleton.mp hentry ▸ h

/-- What leaves the log as it is keeps every property of it. -/
lemma keeps_ofState_of_log {α : Type} {f : World → Except Fault α × World}
    (h : ∀ w, (f w).2.log = w.log) : Keeps (Logged Q) (ofState f) := by
  intro w hw entry hentry
  exact hw entry (h w ▸ hentry)

lemma keeps_readFile {options : fs.FileReaderOptions} (h : Q (os.host, ⟨.read, path⟩)) :
    Keeps (Logged Q) (os.readFile path options) :=
  keeps_bind (keeps_touch h) fun _ => keeps_lift _

lemma keeps_writeFile {options : fs.FileWriterOptions}
    (h : Q (os.host, ⟨.overwrite, options.filename⟩)) : Keeps (Logged Q) (os.writeFile options) :=
  keeps_bind (keeps_touch h) fun _ => Calls.keeps_pure _

lemma keeps_openFile (h : Q (os.host, ⟨.read, path⟩)) : Keeps (Logged Q) (os.openFile path) :=
  keeps_bind (keeps_touch h) fun _ => keeps_ofState_of_log fun _ => rfl

lemma keeps_createWatcher (h : Q (os.host, ⟨.watch, path⟩)) :
    Keeps (Logged Q) (os.createWatcher path) := by
  refine keeps_bind (keeps_touch h) fun _ => keeps_ofState_of_log fun w => ?_
  cases w.watchListeners.find? fun watcher => watcher.2 = path with
  | none => rfl
  | some watcher => rfl

lemma keeps_getStats (h : Q (os.host, ⟨.inspect, path⟩)) : Keeps (Logged Q) (os.getStats path) :=
  keeps_bind (keeps_touch h) fun _ => Calls.keeps_pure _

end Log

end Neutralino
