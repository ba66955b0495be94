import Neutralino.Server.Lookups

/-!
What the static server can be made to open, in the directory mode.

* `Inside`: a file lies in a directory, read lexically.
* `Confined`: whatever the disk holds, a request opens only files inside the
  directory it was routed to.
* `StaysIn`: the condition on a path text under which it does not leave the
  directory whose text it continues; `staysIn_iff` its meaning.
* `confined_iff`: **when a request is confined**.  No dot segment is ever refused.
-/

namespace Neutralino.router

open FilePath Lexical

/-- The file lies in the directory, both read lexically. -/
def Inside (cwd : Location) (dir file : Str) : Prop := locate cwd dir <+: locate cwd file

namespace Lookup

/-- The directory a lookup was routed to. -/
def dir (appPath documentRoot : Str) : Lookup → Str
  | resource _ => appPath ++ documentRoot
  | mounted target _ => target

/-- The file a lookup opens in the directory mode. -/
def file (appPath : Str) : Lookup → Str
  | resource name => appPath ++ name
  | mounted target rest => mountedFile target rest

end Lookup

/-- The document root of a configuration, empty where it cannot be read. -/
def documentRootOf (options : Json) : Str := (neuserver.getDocumentRoot options).toOption.getD []

/-- A request is confined: whatever the disk holds, what it opens lies in the
directory below the application path that is the document root, or in the
target of the mount it was routed to. -/
def Confined (cwd : Location) (options : Json) (mounts : MountTable) (appPath resource : Str) : Prop :=
  ∀ disk globals readerOptions fuel,
    (neuserver.handleHTTP (.directory options mounts appPath disk) globals readerOptions fuel
      resource).In fun lookup =>
        Inside cwd (lookup.dir appPath (documentRootOf options)) (lookup.file appPath)

/-! ### The condition -/

/-- A walk that leaves a directory comes back through the names it left. -/
def Returns (l : Location) (ss : List (Seg Name)) : Prop :=
  l.drop (l.length - climb ss) <+: descent ss

/-- A walk from `start` enters a directory: what it does not leave of where it starts, and the
names that it descends through, begin with the names of the directory. -/
def Enters (l start : Location) (ss : List (Seg Name)) : Prop :=
  l <+: start.take (start.length - climb ss) ++ descent ss

/-- A file named by continuing the text of a directory with a slash stays in it
where the further segments return; any other, such as `/appx` for `/app`, has to enter it by
its own segments. -/
def StaysIn (cwd : Location) (dir file : Str) : Prop :=
  if dir ≠ [] ∧ dir ++ ['/'] <+: file then
    Returns (locate cwd dir) (segments (file.drop (dir.length + 1)))
  else Enters (locate cwd dir) (startOf cwd file) (segments file)

/-- The condition says that the file lies in the directory. -/
theorem staysIn_iff {cwd : Location} {dir file : Str} :
    StaysIn cwd dir file ↔ Inside cwd dir file := by
  unfold StaysIn
  by_cases h : dir ≠ [] ∧ dir ++ ['/'] <+: file
  · rw [if_pos h]
    obtain ⟨hdir, rest, rfl⟩ := h
    have hdrop : (dir ++ ['/'] ++ rest).drop (dir.length + 1) = rest := by simp
    rw [hdrop, List.append_assoc, List.singleton_append, Inside, locate_append_slash cwd hdir,
      prefix_walk_iff]
    rfl
  · rw [if_neg h, Enters, ← walk_eq_rel]
    rfl

/-- The condition for a request: there is a place to look it up, and every such
place stays inside. -/
def RequestStays (cwd : Location) (options : Json) (mounts : MountTable) (appPath resource : Str) :
    Prop :=
  RequestLooks (Placed fun lookup =>
    StaysIn cwd (lookup.dir appPath (documentRootOf options)) (lookup.file appPath))
    options mounts resource

/-- **A request is confined** exactly when its path, decoded and completed, and
the start page it may fall back to, stay inside. -/
theorem confined_iff (cwd : Location) (options : Json) (mounts : MountTable) (appPath resource : Str) :
    Confined cwd options mounts appPath resource ↔
      RequestStays cwd options mounts appPath resource := by
  unfold Confined RequestStays
  simp only [staysIn_iff]
  constructor
  · exact fun h => requestLooks_of_in fun fuel => h .empty (some []) {} fuel
  · intro h disk globals readerOptions fuel
    have hkeeps := @keeps_handleHTTP _ (.directory options mounts appPath disk) globals resource
      readerOptions fuel h
    refine ⟨fun lookup hlookup => placed_some.mp (hkeeps.places lookup hlookup), fun hundef => ?_⟩
    rcases hkeeps.defined hundef with hnone | ⟨lookup, readerOptions, hread⟩
    · exact placed_none hnone
    · exact Site.directory_read_defined lookup hread

/-- A configuration with a document root. -/
def resourcesRoot : Json := .obj [("documentRoot", .str "/resources/")]

/-- A mount of the directory `/data`. -/
def dataMount : MountTable where
  entries := [("/files", "/data")]

/-- Encoded dot segments lead out of the document root, and out of a mount. -/
theorem dot_segments_not_confined :
    ((neuserver.handleHTTP (.directory resourcesRoot {} "/app" .empty) none {} 1
        "/%2e%2e/secret.txt").lookups = [.resource "/resources/../secret.txt"] ∧
      ¬ Inside [] "/app/resources" "/app/resources/../secret.txt" ∧
      ¬ Confined [] resourcesRoot {} "/app" "/%2e%2e/secret.txt") ∧
    ((neuserver.handleHTTP (.directory resourcesRoot dataMount "/app" .empty) none {} 1
        "/files/../secret.txt").lookups = [.mounted "/data" "/../secret.txt"] ∧
      ¬ Inside [] "/data" "/data//../secret.txt" ∧
      ¬ Confined [] resourcesRoot dataMount "/app" "/files/../secret.txt") := by
  have hroot : ¬ Inside [] "/app/resources" "/app/resources/../secret.txt" := by
    unfold Inside; decide
  have hmount : ¬ Inside [] "/data" "/data//../secret.txt" := by
    unfold Inside; decide
  have hlookups : (neuserver.handleHTTP (.directory resourcesRoot {} "/app" .empty) none {} 1
      "/%2e%2e/secret.txt").lookups = [.resource "/resources/../secret.txt"] := by decide
  have hlookups' : (neuserver.handleHTTP (.directory resourcesRoot dataMount "/app" .empty) none {} 1
      "/files/../secret.txt").lookups = [.mounted "/data" "/../secret.txt"] := by decide
  have hdocumentRoot : documentRootOf resourcesRoot = "/resources".toList := rfl
  refine ⟨⟨hlookups, hroot, fun h => hroot ?_⟩, hlookups', hmount, fun h => hmount ?_⟩
  · have hinside := (h .empty none {} 1).places (.resource "/resources/../secret.txt")
      (by rw [hlookups]; exact List.mem_singleton_self _)
    rwa [hdocumentRoot] at hinside
  · have hinside := (h .empty none {} 1).places (.mounted "/data" "/../secret.txt")
      (by rw [hlookups']; exact List.mem_singleton_self _)
    rwa [hdocumentRoot] at hinside

end Neutralino.router
