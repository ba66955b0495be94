import Neutralino.Config.CommandLine
import Neutralino.Resources.HeaderBytes

/-!
The devtools extension: the flag `--neu-dev-extension` of `setGlobalArgs` and the
resource mode that `resources::init` settles on.

* `Archives`, `resources.init`: the archives that exist, and the chain of fallbacks
  over them.
* `selectedMode`, `EndsInDirectory`: the mode that the last flag selects, and the
  arguments and archives that lead to the directory.
* `PassedInDirectory`: the flag stands where the last selection before it is the
  directory.  Only this is what the loop looks at.
* `devtools_iff_dir_iff`: **when the extension is loaded in directory mode only**.
-/

namespace Neutralino

/-! ### The fallbacks of `resources::init` -/

namespace resources

/-- The archives of an application: whether there is an embedded resource, its blob
and what the memory holds past its end; the bytes of `resources.neu` and what the
buffer of its first words held. -/
structure Archives where
  hasResource : Bool := false
  blob : Str := []
  beyondBlob : ℕ → Char := fun _ => '\x00'
  bundle : Option Str := none
  sizeBuf : ℕ → Char := fun _ => '\x00'

/-- The header text that `__makeBundleFileTree` parses. -/
def bundleHeader (sizeBuf : ℕ → Char) (bytes : Str) : Str :=
  let word := readU32le ((List.range' 4 4).map (byteAt sizeBuf bytes))
  fillBuffer ((word + (2 ^ 32 - 8)) % 2 ^ 32) (bytes.drop 16)

/-- The header text that `__makeEmbeddedFileTree` parses. -/
def blobHeader (beyond : ℕ → Char) (bytes : Str) : Str :=
  let word := readU32le ((List.range' 4 4).map (byteAt beyond bytes))
  let size := (word + (2 ^ 32 - 8)) % 2 ^ 32
  fillBuffer size ((List.range' 16 ((16 + size) % 2 ^ 32 - 16)).map (byteAt beyond bytes))

section Init

variable (parse : Str → Option Json)

/-- `init`: the embedded resource, then the bundle, then the directory. -/
def init (archives : Archives) (mode : ResourceMode) (tree : FileTree) :
    ResourceMode × FileTree :=
  if mode = .dir then (mode, tree)
  else
    let embedded :=
      if mode = .embedded ∧ archives.hasResource then
        loadEmbeddedFileTree parse archives.beyondBlob tree archives.blob
      else { tree := tree }
    if embedded.loaded then (mode, embedded.tree)
    else match archives.bundle with
      | none => (.dir, embedded.tree)
      | some bytes =>
          let bundle := loadBundleFileTree parse archives.sizeBuf bytes
          (if bundle.loaded then .bundle else .dir, bundle.tree)

/-- A file tree is made of the embedded resource. -/
def Archives.HasEmbedded (archives : Archives) : Prop :=
  archives.hasResource ∧ archives.blob ≠ [] ∧
    ¬ Refused parse (blobHeader archives.beyondBlob archives.blob)

/-- A file tree is made of `resources.neu`. -/
def Archives.HasBundle (archives : Archives) : Prop :=
  ∃ bytes ∈ archives.bundle, ¬ Refused parse (bundleHeader archives.sizeBuf bytes)

variable {parse}

lemma loadBundleFileTree_loaded_iff {sizeBuf : ℕ → Char} {bytes : Str} :
    (loadBundleFileTree parse sizeBuf bytes).loaded = true ↔
      ¬ Refused parse (bundleHeader sizeBuf bytes) := by
  rw [← Bool.not_eq_false, not_iff_not]
  exact isNull_treeOf_iff

lemma loadEmbeddedFileTree_loaded_iff {beyond : ℕ → Char} {tree : FileTree} {bytes : Str} :
    (loadEmbeddedFileTree parse beyond tree bytes).loaded = true ↔
      bytes ≠ [] ∧ ¬ Refused parse (blobHeader beyond bytes) := by
  by_cases hnil : bytes = []
  · simp [loadEmbeddedFileTree, hnil]
  · rw [and_iff_right hnil, ← Bool.not_eq_false, not_iff_not, loadEmbeddedFileTree, if_neg hnil]
    exact isNull_treeOf_iff

/-- The mode ends at the directory if it starts there, or if nothing else is left. -/
lemma init_eq_dir_iff (archives : Archives) (mode : ResourceMode) (tree : FileTree) :
    (init parse archives mode tree).1 = .dir ↔
      mode = .dir ∨ ¬ archives.HasBundle parse ∧
        (mode = .embedded → ¬ archives.HasEmbedded parse) := by
  have hbundle : archives.HasBundle parse ↔ ∃ bytes ∈ archives.bundle,
      (loadBundleFileTree parse archives.sizeBuf bytes).loaded = true := by
    simp only [Archives.HasBundle, loadBundleFileTree_loaded_iff]
  have hembedded : archives.HasEmbedded parse ↔ archives.hasResource ∧
      (loadEmbeddedFileTree parse archives.beyondBlob tree archives.blob).loaded = true := by
    rw [Archives.HasEmbedded, loadEmbeddedFileTree_loaded_iff]
  rw [hbundle, hembedded]
  cases mode with
  | dir => simp [init]
  | bundle => cases hfile : archives.bundle <;> simp [init, hfile]
  | embedded =>
      by_cases hhas : archives.hasResource
      · cases hloaded : (loadEmbeddedFileTree parse archives.beyondBlob tree archives.blob).loaded with
        | false => cases hfile : archives.bundle <;> simp [init, hhas, hloaded, hfile]
        | true => simp [init, hhas, hloaded]
      · cases hfile : archives.bundle <;> simp [init, hhas, hfile]

end Init

end resources

namespace settings

open resources (ResourceMode Archives)

/-! ### The flags of the resource mode -/

/-- The resource mode that a flag selects. -/
def selects (arg : CliArg) : Option ResourceMode :=
  if arg.key = "--load-dir-res".toList then some .dir
  else if arg.key = "--res-mode".toList then
    if arg.value = "directory".toList then some .dir
    else if arg.value = "bundle".toList then some .bundle
    else if arg.value = "embedded".toList then some .embedded
    else none
  else none

/-- The mode that the last flag selects; without one it is the embedded mode. -/
def selectedMode (args : List Str) : ResourceMode :=
  ((args.filterMap fun arg => selects (parseArg arg)).getLast?).getD .embedded

/-- The identifier of the devtools extension. -/
def devtools : Str := "js.neutralino.devtools"

/-- An argument is `--neu-dev-extension`. -/
def IsDevFlag (arg : Str) : Prop := (parseArg arg).key = "--neu-dev-extension".toList

instance (arg : Str) : Decidable (IsDevFlag arg) :=
  inferInstanceAs (Decidable ((parseArg arg).key = _))

/-- `--neu-dev-extension` was passed. -/
def Passed (args : List Str) : Prop := ∃ arg ∈ args, IsDevFlag arg

/-- `--neu-dev-extension` was passed where the last selection before it is the
directory. -/
def PassedInDirectory (args : List Str) : Prop :=
  ∃ before arg after, args = before ++ arg :: after ∧ IsDevFlag arg ∧ selectedMode before = .dir

/-- The arguments and the archives lead to the directory: it is selected last, or
the archives of the selected mode and of those behind it are missing or refused. -/
def EndsInDirectory (parse : Str → Option Json) (args : List Str) (archives : Archives) : Prop :=
  selectedMode args = .dir ∨ ¬ archives.HasBundle parse ∧
    (selectedMode args = .embedded → ¬ archives.HasEmbedded parse)

/-- The start of an application: `setGlobalArgs`, then `resources::init`. -/
def start (parse : Str → Option Json) (currentDirectory : Str) (args : List Str)
    (archives : Archives) : State :=
  let s := setGlobalArgs currentDirectory args {}
  { s with resMode := (resources.init parse archives s.resMode {}).1 }

/-! ### The loop -/

section Loop

variable (currentDirectory : Str)

lemma selectedMode_append_singleton (args : List Str) (arg : Str) :
    selectedMode (args ++ [arg]) = (selects (parseArg arg)).getD (selectedMode args) := by
  rw [selectedMode, selectedMode, List.filterMap_append]
  cases hselects : selects (parseArg arg) <;> simp [hselects]

/-- `--res-mode` sets the mode that it selects. -/
lemma setResMode_resMode {arg : CliArg} (hload : arg.key ≠ "--load-dir-res".toList)
    (hres : arg.key = "--res-mode".toList) (s : State) :
    (s.setResMode arg.value).resMode = (selects arg).getD s.resMode := by
  rw [selects, if_neg hload, if_pos hres, State.setResMode]
  by_cases hdir : arg.value = "directory".toList
  · rw [if_pos hdir, if_pos hdir, Option.getD_some]
  rw [if_neg hdir, if_neg hdir]
  by_cases hbundle : arg.value = "bundle".toList
  · rw [if_pos hbundle, if_pos hbundle, Option.getD_some]
  rw [if_neg hbundle, if_neg hbundle]
  by_cases hembedded : arg.value = "embedded".toList
  · rw [if_pos hembedded, if_pos hembedded, Option.getD_some]
  · rw [if_neg hembedded, if_neg hembedded, Option.getD_none]

@[simp] lemma setResMode_loadedExtensions (value : Str) (s : State) :
    (s.setResMode value).loadedExtensions = s.loadedExtensions := by
  unfold State.setResMode
  split_ifs <;> rfl

/-- The flags of the command line differ. -/
lemma key_ne {arg : CliArg} {flag other : String} (hkey : arg.key = flag.toList)
    (hne : flag ≠ other) : arg.key ≠ other.toList := by
  rw [hkey]
  exact fun h => hne (String.toList_inj.mp h)

/-- One argument changes the mode to what it selects, and it loads the extension if
it is the flag and the mode is the directory just then. -/
lemma setGlobalArg_spec (acc : State × ℕ) (arg : Str) :
    (setGlobalArg currentDirectory acc arg).1.resMode =
        (selects (parseArg arg)).getD acc.1.resMode ∧
      (setGlobalArg currentDirectory acc arg).1.loadedExtensions =
        acc.1.loadedExtensions ++
          if IsDevFlag arg ∧ acc.1.resMode = .dir then [devtools] else [] := by
  obtain ⟨s, argIndex⟩ := acc
  obtain ⟨t, ht, hmode, hloaded⟩ : ∃ t : State,
      (if argIndex = 0 then s.setDefaultPath currentDirectory arg else s) = t ∧
        t.resMode = s.resMode ∧ t.loadedExtensions = s.loadedExtensions := by
    refine ⟨_, rfl, ?_⟩
    split_ifs <;> exact ⟨rfl, rfl⟩
  simp only [setGlobalArg, ht]
  by_cases hload : (parseArg arg).key = "--load-dir-res".toList
  · have hdev : ¬ IsDevFlag arg := key_ne hload (by decide)
    simp only [if_pos hload, selects, hdev, false_and, if_false, List.append_nil, hloaded,
      Option.getD_some, and_self]
  by_cases hres : (parseArg arg).key = "--res-mode".toList
  · have hdev : ¬ IsDevFlag arg := key_ne hres (by decide)
    simp only [if_neg hload, if_pos hres, hdev, false_and, if_false, List.append_nil,
      setResMode_resMode hload hres, setResMode_loadedExtensions, hloaded, hmode, and_self]
  have hselects : selects (parseArg arg) = none := by
    rw [selects, if_neg hload, if_neg hres]
  rw [if_neg hload, if_neg hres, hselects, Option.getD_none]
  by_cases hpath : (parseArg arg).key = "--path".toList
  · have hdev : ¬ IsDevFlag arg := key_ne hpath (by decide)
    simp only [if_pos hpath, hdev, false_and, if_false, List.append_nil, hloaded, hmode, and_self]
  by_cases hconfig : (parseArg arg).key = "--config-file".toList
  · have hdev : ¬ IsDevFlag arg := key_ne hconfig (by decide)
    simp only [if_neg hpath, if_pos hconfig, hdev, false_and, if_false, List.append_nil, hloaded,
      hmode, and_self]
  rw [if_neg hpath, if_neg hconfig]
  by_cases hdev : IsDevFlag arg ∧ s.resMode = .dir
  · have hflag : (parseArg arg).key = "--neu-dev-extension".toList ∧ t.resMode = .dir :=
      ⟨hdev.1, hmode.trans hdev.2⟩
    rw [if_pos hflag, if_pos hdev]
    exact ⟨hmode, congrArg (· ++ [devtools]) hloaded⟩
  · have hflag : ¬ ((parseArg arg).key = "--neu-dev-extension".toList ∧ t.resMode = .dir) :=
      fun h => hdev ⟨h.1, hmode.symm.trans h.2⟩
    rw [if_neg hflag, if_neg hdev, List.append_nil]
    exact ⟨hmode, hloaded⟩

/-- The flag was passed in directory mode before the last argument, or it is this
argument. -/
lemma passedInDirectory_append_singleton {args : List Str} {arg : Str} :
    PassedInDirectory (args ++ [arg]) ↔
      PassedInDirectory args ∨ IsDevFlag arg ∧ selectedMode args = .dir := by
  constructor
  · rintro ⟨before, flag, after, hsplit, hflag, hmode⟩
    rcases List.eq_nil_or_concat after with rfl | ⟨after, last, rfl⟩
    · obtain ⟨rfl, rfl⟩ := List.append_singleton_inj.mp hsplit
      exact .inr ⟨hflag, hmode⟩
    · have hsplit' : args ++ [arg] = (before ++ flag :: after) ++ [last] := by
        simpa using hsplit
      exact .inl ⟨before, flag, after, (List.append_singleton_inj.mp hsplit').1, hflag, hmode⟩
  · rintro (⟨before, flag, after, rfl, hflag, hmode⟩ | ⟨hflag, hmode⟩)
    · exact ⟨before, flag, after ++ [arg], by simp, hflag, hmode⟩
    · exact ⟨args, arg, [], rfl, hflag, hmode⟩

/-- The whole loop, argument by argument. -/
lemma foldl_setGlobalArg (args : List Str) (s : State) (hmode : s.resMode = .embedded)
    (hloaded : s.loadedExtensions = []) :
    (args.foldl (setGlobalArg currentDirectory) (s, 0)).1.resMode = selectedMode args ∧
      (devtools ∈ (args.foldl (setGlobalArg currentDirectory) (s, 0)).1.loadedExtensions ↔
        PassedInDirectory args) := by
  induction args using List.reverseRecOn with
  | nil =>
      refine ⟨hmode, ?_⟩
      simp [hloaded, PassedInDirectory]
  | append_singleton args arg ih =>
      obtain ⟨ihmode, ihloaded⟩ := ih
      obtain ⟨hstepMode, hstepLoaded⟩ := setGlobalArg_spec currentDirectory
        (args.foldl (setGlobalArg currentDirectory) (s, 0)) arg
      rw [ihmode] at hstepMode hstepLoaded
      rw [List.foldl_append, List.foldl_cons, List.foldl_nil, hstepMode, hstepLoaded,
        selectedMode_append_singleton, List.mem_append, ihloaded,
        passedInDirectory_append_singleton]
      refine ⟨rfl, or_congr_right ?_⟩
      split_ifs with hflag
      · exact iff_of_true List.mem_cons_self hflag
      · exact iff_of_false List.not_mem_nil hflag

/-- What `setGlobalArgs` selects and loads. -/
lemma setGlobalArgs_spec (args : List Str) :
    (setGlobalArgs currentDirectory args {}).resMode = selectedMode args ∧
      (devtools ∈ (setGlobalArgs currentDirectory args {}).loadedExtensions ↔
        PassedInDirectory args) :=
  foldl_setGlobalArg currentDirectory args _ rfl rfl

end Loop

/-! ### The extension and the mode -/

section Start

variable (parse : Str → Option Json) (currentDirectory : Str) (args : List Str) (archives : Archives)

lemma PassedInDirectory.passed {args : List Str} (h : PassedInDirectory args) : Passed args := by
  obtain ⟨before, flag, after, rfl, hflag, -⟩ := h
  exact ⟨flag, by simp, hflag⟩

/-- The extension is loaded if the flag was passed in directory mode. -/
lemma devtools_mem_start_iff :
    devtools ∈ (start parse currentDirectory args archives).loadedExtensions ↔
      PassedInDirectory args :=
  (setGlobalArgs_spec currentDirectory args).2

/-- The mode that the application runs in. -/
lemma resMode_start_iff :
    (start parse currentDirectory args archives).resMode = .dir ↔
      EndsInDirectory parse args archives := by
  rw [start, resources.init_eq_dir_iff, (setGlobalArgs_spec currentDirectory args).1]
  rfl

/-- **The devtools extension is loaded in directory mode only**, exactly where the
flag, if it was passed at all, was passed in directory mode just in case the
application ends there. -/
theorem devtools_iff_dir_iff :
    (devtools ∈ (start parse currentDirectory args archives).loadedExtensions ↔
        Passed args ∧ (start parse currentDirectory args archives).resMode = .dir) ↔
      (Passed args → (PassedInDirectory args ↔ EndsInDirectory parse args archives)) := by
  rw [devtools_mem_start_iff, resMode_start_iff]
  constructor
  · intro h hpassed
    rw [h, and_iff_right hpassed]
  · intro h
    constructor
    · intro hdir
      exact ⟨hdir.passed, (h hdir.passed).mp hdir⟩
    · rintro ⟨hpassed, hends⟩
      exact (h hpassed).mpr hends

end Start

/-- The header of an archive without files. -/
def emptyHeader : Str := "\x7b\"files\":\x7b\x7d\x7d".toList

/-- A parser of this header. -/
def parseEmptyHeader (text : Str) : Option Json :=
  if text = emptyHeader then some (.obj [("files".toList, .obj [])]) else none

/-- The directory is selected before the flag, and the bundle after it. -/
def bundleArgs : List Str :=
  ["app".toList, "--load-dir-res".toList, "--neu-dev-extension".toList, "--res-mode=bundle".toList]

/-- An application that runs from `resources.neu` has the extension loaded. -/
theorem devtools_in_bundle :
    ¬ ∀ (parse : Str → Option Json) (currentDirectory : Str) (args : List Str)
        (archives : Archives),
      devtools ∈ (start parse currentDirectory args archives).loadedExtensions ↔
        Passed args ∧ (start parse currentDirectory args archives).resMode = .dir := by
  intro h
  have hiff := h parseEmptyHeader [] bundleArgs
    { bundle := some (resources.archiveText emptyHeader []) }
  rw [devtools_mem_start_iff, resMode_start_iff] at hiff
  have hloaded : PassedInDirectory bundleArgs :=
    ⟨["app".toList, "--load-dir-res".toList], "--neu-dev-extension".toList,
      ["--res-mode=bundle".toList], rfl, by decide +kernel, by decide +kernel⟩
  have hmode : selectedMode bundleArgs = .bundle := by decide +kernel
  have hheader : resources.bundleHeader (fun _ => '\x00') (resources.archiveText emptyHeader []) =
      emptyHeader := by
    decide +kernel
  have hbundle : Archives.HasBundle parseEmptyHeader
      { bundle := some (resources.archiveText emptyHeader []) } := by
    refine ⟨_, rfl, ?_⟩
    rw [hheader, resources.Refused, parseEmptyHeader, if_pos rfl]
    simp
  rcases (hiff.mp hloaded).2 with hdir | ⟨hnone, -⟩
  · rw [hmode] at hdir
    cases hdir
  · exact hnone hbundle

end settings

end Neutralino
