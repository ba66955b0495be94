import Neutralino.Api.FileReader
import Neutralino.Base.Helpers

/-!
The mounts of the static server: `router::mountPath`, `router::unmountPath`.

* `MountTable`: the mounted paths in their order, each with its target.
* `mountPath`, `unmountPath`: the operations on it, with the texts they leave in
  their arguments.
-/

namespace Neutralino.router

/-- `mountedPaths`: a map ordered by the mounted path.  A mounted path is not
empty, and neither is the target, which was a directory when it was mounted. -/
structure MountTable where
  entries : List (Str × Str) := []
  sorted : entries.Pairwise fun a b => a.1 < b.1 := by simp
  path_ne_nil : ∀ m ∈ entries, m.1 ≠ [] := by simp
  target_ne_nil : ∀ m ∈ entries, m.2 ≠ [] := by simp

namespace MountTable

/-- The table at the start. -/
abbrev empty : MountTable := {}

/-- A table is known by its entries. -/
lemma eq_of_entries {table table' : MountTable} (h : table.entries = table'.entries) :
    table = table' := by
  obtain ⟨entries, _, _, _⟩ := table
  obtain ⟨entries', _, _, _⟩ := table'
  obtain rfl : entries = entries' := h
  rfl

/-- The table with a mount put into it. -/
def insert (table : MountTable) (path target : Str) (hpath : path ≠ []) (htarget : target ≠ []) :
    MountTable where
  entries := insertMember path target table.entries
  sorted := pairwise_insertMember path target table.sorted
  path_ne_nil m hm := by
    rcases eq_or_mem_of_mem_insertMember hm with rfl | hm
    · exact hpath
    · exact table.path_ne_nil m hm
  target_ne_nil m hm := by
    rcases eq_or_mem_of_mem_insertMember hm with rfl | hm
    · exact htarget
    · exact table.target_ne_nil m hm

/-- The table without the mount of a path. -/
def erase (table : MountTable) (path : Str) : MountTable where
  entries := table.entries.filter fun m => m.1 ≠ path
  sorted := table.sorted.filter _
  path_ne_nil m hm := table.path_ne_nil m (List.mem_of_mem_filter hm)
  target_ne_nil m hm := table.target_ne_nil m (List.mem_of_mem_filter hm)

end MountTable

/-- `isMounted`. -/
def isMounted (table : MountTable) (path : Str) : Bool := table.entries.any fun m => m.1 = path

/-- The path under which `mountPath` and `unmountPath` enter a mount. -/
def mountKey (path : Str) : Str :=
  if helpers.normalizePath path = [] then ['/'] else helpers.normalizePath path

lemma mountKey_ne_nil (path : Str) : mountKey path ≠ [] := by
  unfold mountKey
  split_ifs with h
  · simp
  · exact h

/-- What `mountPath` returns, and what it leaves in its two arguments. -/
structure MountResult where
  status : errors.StatusCode
  path : Str
  target : Str
  table : MountTable

/-- `mountPath`. -/
def mountPath (disk : Disk) (table : MountTable) (path target : Str) : Except Fault MountResult :=
  let path' := mountKey path
  let target' := helpers.normalizePath target
  match h : disk.kindOf target' with
  | .error fault => .error fault
  | .ok none => .ok ⟨.NE_FS_NOPATHE, path', target', table⟩
  | .ok (some .file) => .ok ⟨.NE_FS_NOTADIR, path', target', table⟩
  | .ok (some .directory) =>
      if isMounted table path' then .ok ⟨.NE_SR_MPINUSE, path', target', table⟩
      else
        have htarget : target' ≠ [] := fun hnil => by simp [hnil, disk.kindOf_nil] at h
        .ok ⟨.NE_ST_OK, path', target', table.insert path' target' (mountKey_ne_nil path) htarget⟩

/-- What is left in the target. -/
lemma target_of_mountPath {disk : Disk} {table : MountTable} {path target : Str}
    {result : MountResult} (h : mountPath disk table path target = .ok result) :
    result.target = helpers.normalizePath target := by
  simp only [mountPath] at h
  split at h
  · cases h
  · cases h
    rfl
  · cases h
    rfl
  · split_ifs at h
    · cases h
      rfl
    · cases h
      rfl

/-- The target is a directory and the path is free. -/
def Mountable (disk : Disk) (table : MountTable) (path target : Str) : Prop :=
  disk.kindOf (helpers.normalizePath target) = .ok (some .directory) ∧
    isMounted table (mountKey path) = false

/-- What `mountPath` can do: enter a mount that can be made, or fail and leave the
table as it is. -/
lemma mountPath_cases (disk : Disk) (table : MountTable) (path target : Str) :
    (Mountable disk table path target ∧ ∃ result, mountPath disk table path target = .ok result ∧
      result.status = .NE_ST_OK ∧ result.table.entries =
        insertMember (mountKey path) (helpers.normalizePath target) table.entries) ∨
    (¬ Mountable disk table path target ∧
      ((∃ fault, mountPath disk table path target = .error fault) ∨
        ∃ result, mountPath disk table path target = .ok result ∧ result.status ≠ .NE_ST_OK ∧
          result.table = table)) := by
  generalize hanswer : mountPath disk table path target = answer
  simp only [mountPath] at hanswer
  split at hanswer
  · exact .inr ⟨fun h => by simp_all [Mountable], .inl ⟨_, hanswer.symm⟩⟩
  · exact .inr ⟨fun h => by simp_all [Mountable], .inr ⟨_, hanswer.symm, nofun, rfl⟩⟩
  · exact .inr ⟨fun h => by simp_all [Mountable], .inr ⟨_, hanswer.symm, nofun, rfl⟩⟩
  · rename_i hkind
    split_ifs at hanswer with hused
    · exact .inr ⟨fun h => by simp [h.2] at hused, .inr ⟨_, hanswer.symm, nofun, rfl⟩⟩
    · exact .inl ⟨⟨hkind, by simpa using hused⟩, _, hanswer.symm, rfl, rfl⟩

/-- `unmountPath`: whether it succeeded, the text left in its argument, and the table. -/
def unmountPath (table : MountTable) (path : Str) : Bool × Str × MountTable :=
  let path' := mountKey path
  if isMounted table path' then (true, path', table.erase path') else (false, path', table)

end Neutralino.router
