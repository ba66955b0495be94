import Neutralino.Base.Helpers
import Neutralino.Library.Links
import Neutralino.Library.Replace

/-!
The platform the application runs on, and the path constants resolved on it:
`os::getPath` and `fs::applyPathConstants`.

* `Host`: the working directory, what `std::filesystem` makes of a path on the
  files there are, the application path and the platform folders.
* `PlainHost`, `LinkedHost`: hosts whose files are a tree without symbolic
  links, and hosts whose files may be links.
* `applyPathConstants`: `${NL_PATH}` and the twelve `${NL_OS…PATH}` constants,
  replaced one after another.
* `applyPathConstants_eq_self`: a path without a constant is left unchanged.
* `infix_applyPathConstants`, `count_applyPathConstants_le`: where every folder
  is one text, what a path with a constant comes out as.
* `prefix_applyPathConstants`, `applyPathConstants_append_cons`: the part of a
  path up to a character that no constant holds.
-/

namespace Neutralino

open FilePath Replace

/-- The platform: `weaklyCanonical` is `std::filesystem::weakly_canonical` on the
files that a call finds, `none` where it throws; `folder` gives the raw platform
folder for a name. -/
structure Host where
  cwd : Location
  appPath : Str
  folder : Str → Str
  weaklyCanonical : Str → Option Str

/-- A host whose files are a tree without symbolic links, the working directory
being a directory of it. -/
structure PlainHost extends Host where
  tree : FileTree
  cwd_isDir : tree.kind cwd = some .directory
  canonical : weaklyCanonical = fun s => some (FilePath.weaklyCanonical tree cwd s)

/-- A host whose files may be symbolic links, and whose calls see a path up to
its first NUL. -/
structure LinkedHost extends Host where
  tree : LinkedTree
  cwd_isDir : tree.entry cwd = some .directory
  canonical : weaklyCanonical = fun s => some (tree.weaklyCanonical cwd s)

instance : Coe PlainHost Host := ⟨PlainHost.toHost⟩

instance : Coe LinkedHost Host := ⟨LinkedHost.toHost⟩

/-- A host with nothing but its working directory and the ancestors of it,
every folder being `dir`. -/
def PlainHost.bare (cwd : Location) (dir : Str) : PlainHost where
  tree := .chain cwd
  cwd := cwd
  cwd_isDir := FileTree.chain_kind_self cwd
  appPath := dir
  folder _ := dir
  weaklyCanonical s := some (FilePath.weaklyCanonical (.chain cwd) cwd s)
  canonical := rfl

/-- The same files under another application path and other platform folders. -/
def Host.withFolders (host : Host) (appPath : Str) (folder : Str → Str) : Host :=
  { host with appPath, folder }

@[inherit_doc Host.withFolders]
def LinkedHost.withFolders (host : LinkedHost) (appPath : Str) (folder : Str → Str) : LinkedHost :=
  { host with appPath, folder }

/-- The working directory `/w`, in which nothing exists. -/
def plainWorkDir : PlainHost := .bare [⟨['w'], by decide⟩] "/"

@[inherit_doc plainWorkDir]
def emptyWorkDir : Host := plainWorkDir

namespace os

/-- The names that `getPath` accepts. -/
def knownPaths : List Str :=
  ["config", "data", "cache", "documents", "pictures", "music", "video", "downloads",
    "saveGames1", "saveGames2", "temp", "desktop", "home"].map String.toList

/-- `os::getPath`. -/
def getPath (host : Host) (name : Str) : Str :=
  helpers.normalizePath (if knownPaths.contains name then host.folder name else [])

end os

namespace fs

/-- The names whose folders have a path constant. -/
def pathNames : List Str :=
  ["data", "cache", "documents", "pictures", "music", "video", "downloads",
    "saveGames1", "saveGames2", "temp", "home", "desktop"].map String.toList

/-- The constant `${NL_PATH}`. -/
def appPathConstant : Str := "$\x7bNL_PATH\x7d"

/-- The constant of a platform folder: its name in capitals. -/
def folderConstant (name : Str) : Str :=
  "$\x7bNL_OS".toList ++ name.map Char.toUpper ++ "PATH\x7d".toList

/-- `applyPathConstants`. -/
def applyPathConstants (host : Host) (path : Str) : Str :=
  pathNames.foldl (fun newPath name => replaceAll (folderConstant name) (os.getPath host name) newPath)
    (replaceAll appPathConstant host.appPath path)

/-- The path constants. -/
def pathConstants : List Str := appPathConstant :: pathNames.map folderConstant

/-- No path constant occurs in the path. -/
def NoPathConstant (path : Str) : Prop := ∀ c ∈ pathConstants, ¬ c <:+: path

instance (path : Str) : Decidable (NoPathConstant path) := by
  unfold NoPathConstant; infer_instance

lemma ne_nil_of_mem_pathConstants {k : Str} (hk : k ∈ pathConstants) : k ≠ [] := by
  have hall : ∀ k ∈ pathConstants, k ≠ [] := by decide
  exact hall k hk

/-- The passes of `applyPathConstants`: each constant with its replacement. -/
def passes (host : Host) : List (Str × Str) :=
  (appPathConstant, host.appPath) :: pathNames.map fun n => (folderConstant n, os.getPath host n)

lemma applyPathConstants_eq_foldl (host : Host) (path : Str) :
    applyPathConstants host path =
      (passes host).foldl (fun s pass => replaceAll pass.1 pass.2 s) path := by
  rw [passes, List.foldl_cons, List.foldl_map]
  rfl

lemma passes_fst (host : Host) : (passes host).map Prod.fst = pathConstants := by
  simp [passes, pathConstants, List.map_map, Function.comp_def]

/-- A path without a constant is left unchanged. -/
theorem applyPathConstants_eq_self (host : Host) {path : Str} (h : NoPathConstant path) :
    applyPathConstants host path = path := by
  rw [applyPathConstants_eq_foldl]
  have key : ∀ ps : List (Str × Str), (∀ c ∈ ps.map Prod.fst, ¬ c <:+: path) →
      ps.foldl (fun s pass => replaceAll pass.1 pass.2 s) path = path := by
    intro ps
    induction ps with
    | nil => simp
    | cons pass ps ih =>
        intro hps
        rw [List.foldl_cons, replaceAll_eq_self (hps _ (by simp))]
        exact ih fun c hc => hps c (by simp [hc])
  exact key _ fun c hc => h c (passes_fst host ▸ hc)

/-- Every pass puts the one folder in. -/
lemma passes_withFolders (host : Host) {dir : Str} (hdir : helpers.normalizePath dir = dir) :
    ∀ pass ∈ passes (host.withFolders dir fun _ => dir), pass.2 = dir := by
  have hknown : ∀ name ∈ pathNames, name ∈ os.knownPaths := by decide
  intro pass hpass
  rcases List.mem_cons.mp hpass with rfl | hpass
  · rfl
  · obtain ⟨name, hname, rfl⟩ := List.mem_map.mp hpass
    have hcontains : os.knownPaths.contains name = true := by simpa using hknown name hname
    show helpers.normalizePath (if os.knownPaths.contains name then dir else []) = dir
    rw [if_pos hcontains, hdir]

section OneFolder

variable {host : Host} {dir : Str} (hdir : ∀ pass ∈ passes host, pass.2 = dir)

include hdir

/-- Where every folder is one text, which shares no character with the
constants, a path with a constant comes out with that text inside it. -/
theorem infix_applyPathConstants (hne : dir ≠ []) (hdisjoint : ∀ c ∈ dir, ∀ k ∈ pathConstants, c ∉ k)
    {path : Str} (h : ¬ NoPathConstant path) : dir <:+: applyPathConstants host path := by
  have hconstants : ∀ k ∈ pathConstants, k ≠ [] ∧ '$' ∈ k := by decide
  have hdollar : '$' ∉ dir := fun hc =>
    hdisjoint _ hc appPathConstant (by simp [pathConstants]) (by decide)
  -- the first constant that occurs puts the text in, and no later pass takes it away
  have key : ∀ (ps : List (Str × Str)) (s : Str),
      (∀ pass ∈ ps, pass.2 = dir ∧ pass.1 ∈ pathConstants) →
      (dir <:+: s ∨ ∃ pass ∈ ps, pass.1 <:+: s) →
      dir <:+: ps.foldl (fun s pass => replaceAll pass.1 pass.2 s) s := by
    intro ps
    induction ps with
    | nil => intro s _ hs; simpa using hs
    | cons pass ps ih =>
        intro s hps hs
        obtain ⟨hpass, hmem⟩ := hps pass List.mem_cons_self
        have hrest : ∀ pass ∈ ps, pass.2 = dir ∧ pass.1 ∈ pathConstants :=
          fun pass hp => hps pass (List.mem_cons_of_mem _ hp)
        have hk := (hconstants _ hmem).1
        rw [List.foldl_cons, hpass]
        rcases hs with hs | ⟨other, hother, hs⟩
        · exact ih _ hrest
            (.inl (infix_replaceAll_of_disjoint hk hne (fun c hc => hdisjoint c hc _ hmem) hs))
        · by_cases hfirst : pass.1 <:+: s
          · exact ih _ hrest (.inl (infix_replaceAll hdollar hk hfirst))
          · rw [replaceAll_eq_self hfirst]
            rcases List.mem_cons.mp hother with rfl | hother
            · exact absurd hs hfirst
            · exact ih _ hrest (.inr ⟨other, hother, hs⟩)
  rw [applyPathConstants_eq_foldl]
  refine key _ _ (fun pass hpass => ⟨hdir pass hpass, ?_⟩) (.inr ?_)
  · exact passes_fst host ▸ List.mem_map_of_mem hpass
  · simp only [NoPathConstant, not_forall, not_not] at h
    obtain ⟨k, hk, hin⟩ := h
    obtain ⟨pass, hpass, rfl⟩ := List.mem_map.mp (passes_fst host ▸ hk)
    exact ⟨pass, hpass, hin⟩

/-- No pass adds a character that the folder does not hold. -/
lemma count_applyPathConstants_le {c : Char} (hdollar : '$' ∉ dir) (hc : c ∉ dir) (path : Str) :
    (applyPathConstants host path).count c ≤ path.count c := by
  have key : ∀ (ps : List (Str × Str)) (s : Str), (∀ pass ∈ ps, pass.2 = dir) →
      (ps.foldl (fun s pass => replaceAll pass.1 pass.2 s) s).count c ≤ s.count c := by
    intro ps
    induction ps with
    | nil => intro s _; exact le_rfl
    | cons pass ps ih =>
        intro s hps
        rw [List.foldl_cons, hps pass List.mem_cons_self]
        exact (ih _ fun pass hp => hps pass (List.mem_cons_of_mem _ hp)).trans
          (count_replaceAll_le hdollar hc s)
  rw [applyPathConstants_eq_foldl]
  exact key _ _ hdir

/-- Then a path can be cut in two at a character that no constant holds. -/
theorem applyPathConstants_append_cons {c : Char} (hdollar : '$' ∉ dir)
    (hc : ∀ k ∈ pathConstants, c ∉ k) (a b : Str) :
    applyPathConstants host (a ++ c :: b) =
      applyPathConstants host a ++ c :: applyPathConstants host b := by
  have key : ∀ (ps : List (Str × Str)) (a b : Str),
      (∀ pass ∈ ps, pass.2 = dir ∧ pass.1 ∈ pathConstants) →
      ps.foldl (fun s pass => replaceAll pass.1 pass.2 s) (a ++ c :: b) =
        ps.foldl (fun s pass => replaceAll pass.1 pass.2 s) a ++
          c :: ps.foldl (fun s pass => replaceAll pass.1 pass.2 s) b := by
    intro ps
    induction ps with
    | nil => intro a b _; rfl
    | cons pass ps ih =>
        intro a b hps
        obtain ⟨hpass, hmem⟩ := hps pass List.mem_cons_self
        rw [List.foldl_cons, List.foldl_cons, List.foldl_cons, hpass,
          replaceAll_append_cons hdollar (ne_nil_of_mem_pathConstants hmem) (hc _ hmem)]
        exact ih _ _ fun pass hp => hps pass (List.mem_cons_of_mem _ hp)
  rw [applyPathConstants_eq_foldl, applyPathConstants_eq_foldl, applyPathConstants_eq_foldl]
  refine key _ _ _ fun pass hpass => ⟨hdir pass hpass, ?_⟩
  exact passes_fst host ▸ List.mem_map_of_mem hpass

end OneFolder

/-- A part without a constant is kept, up to a character that no constant holds. -/
theorem prefix_applyPathConstants (host : Host) {c : Char} (hc : ∀ k ∈ pathConstants, c ∉ k) {a : Str}
    (ha : NoPathConstant a) (b : Str) :
    ∃ b', applyPathConstants host (a ++ c :: b) = a ++ c :: b' := by
  have key : ∀ (ps : List (Str × Str)) (b : Str), (∀ pass ∈ ps, pass.1 ∈ pathConstants) →
      ∃ b', ps.foldl (fun s pass => replaceAll pass.1 pass.2 s) (a ++ c :: b) = a ++ c :: b' := by
    intro ps
    induction ps with
    | nil => exact fun b _ => ⟨b, rfl⟩
    | cons pass ps ih =>
        intro b hps
        have hmem := hps pass List.mem_cons_self
        obtain ⟨b₁, hb₁⟩ := prefix_replaceAll (ne_nil_of_mem_pathConstants hmem) (hc _ hmem) (ha _ hmem) b
        rw [List.foldl_cons, hb₁]
        exact ih b₁ fun pass hp => hps pass (List.mem_cons_of_mem _ hp)
  rw [applyPathConstants_eq_foldl]
  exact key _ b fun pass hpass => passes_fst host ▸ List.mem_map_of_mem hpass

end fs

end Neutralino
