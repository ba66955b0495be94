import Neutralino.Base.Numbers
import Neutralino.Base.Splitting
import Neutralino.Library.FilePath

/-!
The file tree of a resource archive and its lookup, `__seekFilePos`.

* `Tree`, `Tree.Has`: directories and files, and the files of a tree by the
  names that lead to them.
* `Lays`: a JSON value is the header of a tree over a payload.
* `seekFilePos_of_has`: **every file of the tree is found**, with its size and
  a place in the payload that holds it.
-/

namespace Neutralino.resources

open FilePath (Name)

/-! ### The lookup -/

/-- One turn of the loop of `__seekFilePos`. -/
def seekStep (node : Json) (pathSegment : Str) : Except Fault Json :=
  if pathSegment = [] ∨ node.isNull then .ok node
  else do
    let files ← node.index "files"
    if files.isNull then return node else files.index pathSegment

/-- `__seekFilePos`: the size and the offset of a file; the size `-1`, in an
unsigned number, where there is none. -/
def seekFilePos (path : Str) (fileTree : Json) : Except Fault (ℕ × Str) := do
  let node ← (helpers.split path '/' none).foldlM seekStep fileTree
  if node.isNull then return (2 ^ 64 - 1, [])
  let size ← (← node.index "size").getLong
  let offset ← (← node.index "offset").getString
  return (toUnsigned size, offset)

/-! ### Trees and their headers -/

/-- A tree of directories and files. -/
inductive Tree where
  | file (content : Str)
  | dir (entries : List (Name × Tree))

/-- A file of a tree, at the end of a list of names. -/
inductive Tree.Has : Tree → List Name → Str → Prop
  | file (content : Str) : Has (.file content) [] content
  | dir {entries : List (Name × Tree)} {name : Name} {tree : Tree} {names : List Name}
      {content : Str} : (name, tree) ∈ entries → Has tree names content →
      Has (.dir entries) (name :: names) content

/-- A JSON value is the header of a tree over a payload: a directory has the
member `files`, a file has `size` and `offset`, and the payload holds it there. -/
inductive Lays (payload : Str) : Tree → Json → Prop
  | file {content : Str} {members : List (Str × Json)} {offset : ℕ} :
      Json.lookup "size" members = .num content.length →
      Json.lookup "offset" members = .str (decimal offset) → offset ≤ payload.length →
      content <+: payload.drop offset → Lays payload (.file content) (.obj members)
  | dir {entries : List (Name × Tree)} {members files : List (Str × Json)} :
      Json.lookup "files" members = .obj files →
      (∀ e ∈ entries, Lays payload e.2 (Json.lookup e.1.text files)) →
      Lays payload (.dir entries) (.obj members)

/-- The path text of a list of names. -/
def pathText (names : List Name) : Str := names.flatMap fun name => '/' :: name.text

/-! ### Finding a file -/

/-- A name in front of further names is one token. -/
lemma split_name (name : Name) (names : List Name) :
    helpers.split (name.text ++ pathText names) '/' none = name.text :: names.map Name.text := by
  induction names generalizing name with
  | nil =>
      have hpath : name.text ++ pathText [] = name.text := List.append_nil _
      rw [hpath, helpers.split_of_not_mem name.text_ne_nil name.slash_not_mem]
      rfl
  | cons next names ih =>
      have hrest : pathText (next :: names) = '/' :: (next.text ++ pathText names) := rfl
      rw [hrest, helpers.split_append name.slash_not_mem, ih, List.map_cons]

/-- The path of a file is split into its names, after an empty token. -/
lemma split_pathText (name : Name) (names : List Name) :
    helpers.split (pathText (name :: names)) '/' none =
      [] :: name.text :: names.map Name.text := by
  have hpath : pathText (name :: names) = [] ++ '/' :: (name.text ++ pathText names) := rfl
  rw [hpath, helpers.split_append List.not_mem_nil, split_name]

/-- The lookup goes down one directory. -/
lemma seekStep_of_lays {payload : Str} {entries : List (Name × Tree)} {node : Json}
    (h : Lays payload (.dir entries) node) :
    ∃ files, (∀ e ∈ entries, Lays payload e.2 (Json.lookup e.1.text files)) ∧
      ∀ name : Name, seekStep node name.text = .ok (Json.lookup name.text files) := by
  cases h with
  | @dir _ members files hfiles hentries =>
      refine ⟨files, hentries, fun name => ?_⟩
      have hindex : (Json.obj members).index "files" = .ok (.obj files) := congrArg _ hfiles
      rw [seekStep, if_neg (by simp [name.text_ne_nil, Json.isNull]), hindex, ok_bind]
      rfl

/-- The names of a file lead to its node. -/
lemma foldlM_seekStep {payload : Str} {tree : Tree} {names : List Name} {content : Str}
    (hhas : tree.Has names content) {node : Json} (h : Lays payload tree node) :
    ∃ leaf, (names.map Name.text).foldlM seekStep node = .ok leaf ∧
      Lays payload (.file content) leaf := by
  induction hhas generalizing node with
  | file content => exact ⟨node, rfl, h⟩
  | @dir entries name tree names content hmem _ ih =>
      obtain ⟨files, hentries, hstep⟩ := seekStep_of_lays h
      obtain ⟨leaf, hleaf, hlays⟩ := ih (hentries (name, tree) hmem)
      refine ⟨leaf, ?_, hlays⟩
      rw [List.map_cons, List.foldlM_cons, hstep, ok_bind]
      exact hleaf

/-- **Every file of the tree is found.** -/
theorem seekFilePos_of_has {payload : Str} {tree : Tree} {names : List Name} {content : Str}
    (hhas : tree.Has names content) {node : Json} (h : Lays payload tree node) :
    ∃ offset : ℕ, seekFilePos (pathText names) node =
        .ok (toUnsigned content.length, decimal offset) ∧
      offset ≤ payload.length ∧ content <+: payload.drop offset := by
  obtain ⟨leaf, hleaf, hlays⟩ := foldlM_seekStep hhas h
  cases hlays with
  | @file _ members offset hsize hoffset hle hprefix =>
      refine ⟨offset, ?_, hle, hprefix⟩
      have hnode : (helpers.split (pathText names) '/' none).foldlM seekStep node =
          .ok (.obj members) := by
        cases names with
        | nil => exact hleaf
        | cons name names =>
            rw [split_pathText, List.foldlM_cons, seekStep, if_pos (.inl rfl), ok_bind]
            exact hleaf
      have hsize' : (Json.obj members).index "size" = .ok (.num content.length) := congrArg _ hsize
      have hoffset' : (Json.obj members).index "offset" = .ok (.str (decimal offset)) :=
        congrArg _ hoffset
      simp only [seekFilePos, hnode, hsize', hoffset', ok_bind, Json.isNull, Json.getLong,
        Json.getString, Bool.false_eq_true, if_false]
      rfl

end Neutralino.resources
