import Neutralino.Api.FileWrites
import Neutralino.Resources.Listing

/-!
What `resources.extractDirectory` writes, against the files of the tree.

* `extractFileWith`, `extractAllWith`, `extractDirectoryWith`: the extraction over a
  way of writing a file; with `os.writeFile` it is the controller, with
  `recordWrite` the files that it opens are recorded.
* `IsFilePath`, `parseFiles_exact`: the paths of the files of a tree, and those that
  `__getFiles` selects, which begin with a text.
* `ExtractsExactly`: the files below a directory are written below the destination.
* `extract_exact_iff`: **when the extraction is exact**: the selection also takes
  siblings with a longer name, a trailing slash is counted twice, and what a write
  returns is not looked at.
-/

namespace Neutralino

open Calls (Keeps ofState runOn runOn_bind runOn_lift runOn_ofState keeps_pure keeps_bind
  keeps_lift_bind keeps_ite)

/-! ### The extraction -/

namespace resources

section With

variable {σ : Type} (os : Os) (store : Resources)
  (write : fs.FileWriterOptions → Calls.Call Fault σ Bool)

/-- `resources::extractFile`, over a way of writing a file. -/
def extractFileWith (filename outputFilename : Str) : Calls.Call Fault σ Bool := do
  let result ← store.getFile os filename {}
  if result.status = .NE_ST_OK then
    if parentPath outputFilename ≠ [] then
      let _ ← os.createDirectories (parentPath outputFilename)
      write { filename := outputFilename, data := result.data }
    else write { filename := outputFilename, data := result.data }
  else return false

/-- The loop of `extractDirectory`, over a way of writing a file. -/
def extractAllWith (path destination : Str) : List Str → Calls.Call Fault σ Unit
  | [] => return ()
  | resPath :: resPaths => do
      let target ← res.extractTarget path destination resPath
      let _ ← extractFileWith os store write resPath target
      extractAllWith path destination resPaths

/-- `extractDirectory` of an archive, over a way of writing a file. -/
def extractDirectoryWith (path destination : Str) : Calls.Call Fault σ Json := do
  extractAllWith os store write path destination (store.filesBelow path)
  return succeeded .null

end With

/-- `fs::writeFile` on a device; the files that are opened are recorded. -/
def recordWrite (device : Device) (options : fs.FileWriterOptions) :
    Calls.Call Fault (List fs.FileWriterOptions) Bool :=
  ofState fun written =>
    (.ok (fs.writeFile device options).1,
      if (fs.writeFile device options).2.opened then written ++ [options] else written)

/-- The input of `extractDirectory`. -/
def extractInput (path destination : Str) : Json :=
  .obj [("destination", .str destination), ("path", .str path)]

section With

variable {σ : Type} {os : Os} {store : Resources} {path destination : Str}

lemma extractAll_eq (resPaths : List Str) :
    res.extractAll os store path destination resPaths =
      extractAllWith os store os.writeFile path destination resPaths := by
  induction resPaths with
  | nil => rfl
  | cons resPath resPaths ih =>
      rw [res.extractAll, extractAllWith, ih]
      rfl

/-- For an archive the controller is the extraction with `os.writeFile`. -/
lemma extractDirectory_eq (hmode : store.mode ≠ .dir) :
    res.extractDirectory os store (extractInput path destination) =
      extractDirectoryWith os store os.writeFile path destination := by
  have hact : res.extractDirectory os store (extractInput path destination) =
      (if store.mode = .dir then res.copyResource os .NE_RS_DIREXTF path destination
        else do
          res.extractAll os store path destination (store.filesBelow path)
          return succeeded .null) := rfl
  rw [hact, if_neg hmode, extractAll_eq, extractDirectoryWith]

/-! ### Runs of the extraction -/

/-- The directory of a target is made, where the target has one. -/
def makeParent (os : Os) (target : Str) : Except Fault Bool :=
  if parentPath target = [] then .ok false else os.createDirectories (parentPath target)

/-- A file whose extraction is stopped: it cannot be read, or no directory can be made
for it; either way an exception leaves the extraction. -/
def Stopped (os : Os) (store : Resources) (resPath target : Str) : Prop :=
  (∃ fault, store.archived resPath {} = .error fault) ∨
    ∃ result fault, store.archived resPath {} = .ok result ∧ result.status = .NE_ST_OK ∧
      makeParent os target = .error fault

/-- What is opened for writing for a file of the archive. -/
def writtenAt (device : Device) (store : Resources) (resPath target : Str) :
    List fs.FileWriterOptions :=
  match store.archived resPath {} with
  | .ok result =>
      if result.status = .NE_ST_OK ∧ device.opens target false = true then
        [{ filename := target, data := result.data }] else []
  | .error _ => []

/-- What is opened for writing for a file that `extractDirectory` selects. -/
def writtenFor (device : Device) (store : Resources) (path destination resPath : Str) :
    List fs.FileWriterOptions :=
  match res.extractTarget path destination resPath with
  | .ok target => writtenAt device store resPath target
  | .error _ => []

/-- A way of writing a file that does not throw. -/
def Total (write : fs.FileWriterOptions → Calls.Call Fault σ Bool) : Prop :=
  ∀ options s, ∃ written t, runOn (write options) s = (.ok written, t)

lemma total_writeFile (os : Os) : Total os.writeFile := fun _ _ => ⟨_, _, rfl⟩

lemma total_recordWrite (device : Device) : Total (recordWrite device) := fun _ _ => ⟨_, _, rfl⟩

variable {write : fs.FileWriterOptions → Calls.Call Fault σ Bool} {resPath target : Str} {s : σ}

lemma getFile_archived (hmode : store.mode ≠ .dir) (name : Str) (options : fs.FileReaderOptions) :
    store.getFile os name options = store.archived name options := if_neg hmode

/-- The run for one file: what is read, the directory that is made, the write. -/
lemma runOn_extractFileWith (hmode : store.mode ≠ .dir) (s : σ) :
    runOn (extractFileWith os store write resPath target) s =
      match store.archived resPath {} with
      | .error fault => (.error fault, s)
      | .ok result =>
          if result.status = .NE_ST_OK then
            match makeParent os target with
            | .error fault => (.error fault, s)
            | .ok _ => runOn (write { filename := target, data := result.data }) s
          else (.ok false, s) := by
  rw [extractFileWith, getFile_archived hmode, runOn_bind, runOn_lift]
  cases store.archived resPath {} with
  | error fault => rfl
  | ok result =>
      by_cases hstatus : result.status = .NE_ST_OK
      · simp only [hstatus, if_true, makeParent]
        by_cases hparent : parentPath target = []
        · rw [if_neg (not_not.mpr hparent), if_pos hparent]
        · rw [if_pos hparent, if_neg hparent, runOn_bind, runOn_lift]
          cases os.createDirectories (parentPath target) with
          | error fault => rfl
          | ok made => rfl
      · simp only [hstatus, if_false]
        rfl

/-- The extraction of a file returns unless it is stopped. -/
lemma extractFileWith_returns_iff (hmode : store.mode ≠ .dir) (htotal : Total write) (s : σ) :
    (∃ written t, runOn (extractFileWith os store write resPath target) s = (.ok written, t)) ↔
      ¬ Stopped os store resPath target := by
  rw [runOn_extractFileWith hmode, Stopped]
  cases hread : store.archived resPath {} with
  | error fault => simp
  | ok result =>
      by_cases hstatus : result.status = .NE_ST_OK
      · cases hmake : makeParent os target with
        | error fault => simp [hstatus]
        | ok made => simpa [hstatus] using htotal { filename := target, data := result.data } s
      · simp [hstatus]

variable (os store) in
/-- The loop returns exactly if every file has a target and is not stopped. -/
lemma extractAllWith_returns_iff (hmode : store.mode ≠ .dir) (htotal : Total write)
    (resPaths : List Str) (s : σ) :
    (∃ t, runOn (extractAllWith os store write path destination resPaths) s = (.ok (), t)) ↔
      ∀ resPath ∈ resPaths, ∃ target, res.extractTarget path destination resPath = .ok target ∧
        ¬ Stopped os store resPath target := by
  induction resPaths generalizing s with
  | nil => simp [extractAllWith]
  | cons resPath resPaths ih =>
      rw [extractAllWith, runOn_bind, runOn_lift, List.forall_mem_cons]
      cases htarget : res.extractTarget path destination resPath with
      | error fault => simp
      | ok target =>
          have hone : (∃ written t, runOn (extractFileWith os store write resPath target) s =
              (.ok written, t)) ↔ ¬ Stopped os store resPath target :=
            extractFileWith_returns_iff hmode htotal s
          dsimp only
          rw [runOn_bind]
          cases hrun : runOn (extractFileWith os store write resPath target) s with
          | mk result t =>
              cases result with
              | error fault =>
                  have hstopped : Stopped os store resPath target := by
                    by_contra hnot
                    obtain ⟨written, t', hok⟩ := hone.mpr hnot
                    rw [hrun] at hok
                    cases hok
                  simp [hstopped]
              | ok written =>
                  have hnot := hone.mp ⟨written, t, hrun⟩
                  simp [hnot, ih t]

end With

section Recorded

variable {os : Os} {store : Resources} {device : Device} {path destination : Str}
  {written written' : List fs.FileWriterOptions}

lemma runOn_recordWrite (options : fs.FileWriterOptions) :
    runOn (recordWrite device options) written =
      (.ok (device.opens options.filename options.append),
        if device.opens options.filename options.append = true then written ++ [options]
        else written) := by
  rw [recordWrite, runOn_ofState, writeFile_fst, fs.writeFile, fs.Writer.open]
  cases device.opens options.filename options.append with
  | false => rfl
  | true => rfl

/-- What the extraction of a file has opened, when it returns. -/
lemma recorded_extractFileWith (hmode : store.mode ≠ .dir) {resPath target : Str} {extracted : Bool}
    (hrun : runOn (extractFileWith os store (recordWrite device) resPath target) written =
      (.ok extracted, written')) :
    written' = written ++ writtenAt device store resPath target := by
  rw [runOn_extractFileWith hmode] at hrun
  rw [writtenAt]
  cases hread : store.archived resPath {} with
  | error fault =>
      rw [hread] at hrun
      cases hrun
  | ok result =>
      rw [hread] at hrun
      by_cases hstatus : result.status = .NE_ST_OK
      · simp only [hstatus, if_true, true_and] at hrun ⊢
        cases hmake : makeParent os target with
        | error fault =>
            rw [hmake] at hrun
            cases hrun
        | ok made =>
            rw [hmake] at hrun
            have hrecorded : (if device.opens target false = true then
                written ++ [{ filename := target, data := result.data }] else written) = written' :=
              congrArg Prod.snd ((runOn_recordWrite _).symm.trans hrun)
            rw [← hrecorded]
            split_ifs
            · rfl
            · exact (List.append_nil _).symm
      · simp only [hstatus, if_false, false_and] at hrun ⊢
        have hrecorded : written = written' := congrArg Prod.snd hrun
        rw [← hrecorded, List.append_nil]

/-- What the loop has opened, when it returns: for one file after the other. -/
lemma recorded_extractAllWith (hmode : store.mode ≠ .dir) {resPaths : List Str}
    (hrun : runOn (extractAllWith os store (recordWrite device) path destination resPaths) written =
      (.ok (), written')) :
    written' = written ++ resPaths.flatMap (writtenFor device store path destination) := by
  induction resPaths generalizing written with
  | nil =>
      have hrecorded : written = written' := congrArg Prod.snd hrun
      rw [← hrecorded]
      exact (List.append_nil _).symm
  | cons resPath resPaths ih =>
      rw [extractAllWith, runOn_bind, runOn_lift] at hrun
      rw [List.flatMap_cons, writtenFor]
      cases htarget : res.extractTarget path destination resPath with
      | error fault =>
          rw [htarget] at hrun
          cases hrun
      | ok target =>
          rw [htarget] at hrun
          dsimp only at hrun ⊢
          rw [runOn_bind] at hrun
          cases hone :
              runOn (extractFileWith os store (recordWrite device) resPath target) written with
          | mk result middle =>
              rw [hone] at hrun
              cases result with
              | error fault => cases hrun
              | ok extracted =>
                  rw [ih hrun, recorded_extractFileWith hmode hone, List.append_assoc]

variable (os store device) in
/-- However the loop ends, what it has opened are targets of its files. -/
lemma keeps_extractAllWith {P : Str → Prop} (resPaths : List Str)
    (h : ∀ resPath ∈ resPaths, ∀ target, res.extractTarget path destination resPath = .ok target →
      P target) :
    Keeps (fun written : List fs.FileWriterOptions => ∀ options ∈ written, P options.filename)
      (extractAllWith os store (recordWrite device) path destination resPaths) := by
  induction resPaths with
  | nil => exact keeps_pure _
  | cons resPath resPaths ih =>
      refine keeps_lift_bind fun target htarget => keeps_bind ?_ fun _ =>
        ih fun q hq => h q (.tail _ hq)
      have hwrite : ∀ data, Keeps (fun written : List fs.FileWriterOptions =>
          ∀ options ∈ written, P options.filename) (recordWrite device ⟨target, data, false⟩) := by
        intro data written hwritten
        rw [runOn_recordWrite]
        split_ifs
        · exact List.forall_mem_append.mpr
            ⟨hwritten, List.forall_mem_singleton.mpr (h resPath (.head _) target htarget)⟩
        · exact hwritten
      refine keeps_lift_bind fun result _ => keeps_ite (fun _ => keeps_ite (fun _ => ?_) fun _ => ?_)
        fun _ => keeps_pure _
      · exact keeps_lift_bind fun _ _ => hwrite _
      · exact hwrite _

end Recorded

/-! ### The files of a tree -/

open res.inputs (eachFile parseFiles)

/-- Names that lead to a file. -/
def IsFileNames (root : Json) (names : List Str) : Prop :=
  ∃ members, land root names = .file members []

/-- The path of a file. -/
def IsFilePath (root : Json) (path : Str) : Prop :=
  ∃ names, IsFileNames root names ∧ path = pathOf names

section Files

variable {members files : List (Str × Json)} {node : Json} {names : List Str} {name : Str}

lemma isFileNames_file_iff {size offset : ℕ} (h : IsFile members size offset) :
    IsFileNames (.obj members) names ↔ names = [] := by
  rw [IsFileNames, land_file h]
  simp

/-- Below a directory a walk goes on in one of its members, if it leads anywhere. -/
lemma land_dir_cons_iff (hfiles : Json.lookup "files" members = .obj files)
    (hkeys : (files.map (·.1)).Nodup) {place : Landing} (hplace : place ≠ .missing) :
    land (.obj members) (name :: names) = place ↔
      ∃ entry ∈ files, entry.1 = name ∧ land entry.2 names = place := by
  rw [land_dir_cons hfiles]
  constructor
  · intro hland
    rcases mem_or_lookup_eq_null name files with hmem | hnull
    · exact ⟨_, hmem, rfl, hland⟩
    · rw [hnull, land_null] at hland
      exact absurd hland.symm hplace
  · rintro ⟨entry, hentry, rfl, hland⟩
    rwa [lookup_of_mem hkeys hentry]

/-- The files below a directory are those below its members. -/
lemma isFileNames_dir_cons (hfiles : Json.lookup "files" members = .obj files)
    (hkeys : (files.map (·.1)).Nodup) :
    IsFileNames (.obj members) (name :: names) ↔
      ∃ entry ∈ files, entry.1 = name ∧ IsFileNames entry.2 names := by
  constructor
  · rintro ⟨members', hland⟩
    obtain ⟨entry, hentry, hname, hland⟩ := (land_dir_cons_iff hfiles hkeys (by simp)).mp hland
    exact ⟨entry, hentry, hname, members', hland⟩
  · rintro ⟨entry, hentry, hname, members', hland⟩
    exact ⟨members', (land_dir_cons_iff hfiles hkeys (by simp)).mpr ⟨entry, hentry, hname, hland⟩⟩

/-- **The walk of `__getFiles`** finds the files whose paths begin with a text, each once. -/
theorem parseFiles_exact (h : HeaderTree node) :
    ∃ found, Enumerates (IsFileNames node) found ∧ ∀ rootPath path, parseFiles rootPath path node =
      .ok ((found.map (path ++ pathOf ·)).filter fun file => rootPath <+: file) := by
  induction h with
  | @file members size offset hfile =>
      refine ⟨[[]], ⟨List.nodup_singleton _, fun names => ?_, by simp⟩, fun rootPath path => ?_⟩
      · rw [isFileNames_file_iff hfile, List.mem_singleton]
      · rw [parseFiles, hasField_obj, hfile.files_eq, List.map_singleton, pathOf_nil,
          List.append_nil, List.filter_singleton]
        by_cases hstarts : rootPath <+: path
        · simp only [Json.isNull, hstarts, ok_bind]
          rfl
        · simp only [Json.isNull, hstarts, ok_bind]
          rfl
  | @dir members files hfiles _ hkeys hnames htrees ih =>
      choose! below hbelow hwalk using ih
      have hfound : Enumerates (IsFileNames (.obj members))
          (files.flatMap fun entry => (below entry).map (entry.1 :: ·)) :=
        .dir (Q := IsFileNames) hkeys hnames (by simp [IsFileNames, land_dir_nil hfiles])
          (fun _ _ => isFileNames_dir_cons hfiles hkeys) hbelow
      refine ⟨_, hfound, fun rootPath path => ?_⟩
      rw [parseFiles, hasField_obj, hfiles, ok_bind, if_pos (by simp [Json.isNull])]
      split_ifs with hapart
      · -- paths that begin with two texts, neither of which begins with the other
        refine congrArg Except.ok (List.filter_eq_nil_iff.mpr fun file hfile hstarts => ?_).symm
        obtain ⟨names, -, rfl⟩ := List.mem_map.mp hfile
        rcases List.prefix_or_prefix_of_prefix (List.prefix_append path (pathOf names))
          (of_decide_eq_true hstarts) with hpath | hroot
        · exact hapart.1 hpath
        · exact hapart.2 hroot
      · have hchild : ∀ entry ∈ files, ∀ _ : sizeOf entry.2 < sizeOf (Json.obj members),
            parseFiles rootPath (path ++ '/' :: entry.1) entry.2 =
              .ok (((below entry).map ((path ++ '/' :: entry.1) ++ pathOf ·)).filter fun file =>
                rootPath <+: file) :=
          fun entry hentry _ => hwalk entry hentry _ _
        rw [eachFile_dir hfiles hchild, List.map_flatMap, List.filter_flatMap]
        simp only [List.map_map, Function.comp_def, pathOf_cons, List.append_assoc, List.cons_append]

end Files

/-! ### Paths below a directory -/

/-- A resource tree: its header, a directory, and the contents of its files by their paths. -/
structure ResourceTree where
  root : Json
  header : HeaderTree root
  directory : land root [] = .directory
  content : Str → Str

/-- The path of a directory; that of the root is empty. -/
def IsDirectoryPath (root : Json) (base : Str) : Prop :=
  ∃ names, land root names = .directory ∧ base = pathOf names

/-- A file of the tree lies below a directory, under a relative name. -/
def Below (root : Json) (base relative : Str) : Prop := IsFilePath root (base ++ '/' :: relative)

section Paths

variable {root : Json} {names : List Str} {base relative path destination : Str}

lemma isName_of_directory (h : HeaderTree root) (hland : land root names = .directory) :
    ∀ n ∈ names, IsName n := by
  obtain ⟨entries, hentries, -⟩ := parseAllFiles_exact h
  by_cases hne : names = []
  · simp [hne]
  · exact hentries.isName names ((hentries.mem_iff names).mpr ⟨hne, .inl hland⟩)

lemma isName_of_isFileNames (h : HeaderTree root) (hnames : IsFileNames root names) :
    ∀ n ∈ names, IsName n := by
  obtain ⟨found, hfound, -⟩ := parseFiles_exact h
  exact hfound.isName names ((hfound.mem_iff names).mpr hnames)

lemma segmentsOf_append_slash (path rest : Str) :
    segmentsOf (path ++ '/' :: rest) = segmentsOf path ++ segmentsOf rest := by
  rw [segmentsOf, List.splitOn_append_cons_self, List.filter_append]
  rfl

lemma pathOf_append (names names' : List Str) :
    pathOf (names ++ names') = pathOf names ++ pathOf names' := List.flatMap_append

/-- A path that begins with a path of names and goes on with a slash goes on with names. -/
lemma eq_pathOf_of_append {names' : List Str} (h : ∀ n ∈ names, IsName n)
    (h' : ∀ n ∈ names', IsName n) (heq : pathOf names ++ '/' :: relative = pathOf names') :
    '/' :: relative = pathOf (segmentsOf relative) := by
  have hsegments : names' = names ++ segmentsOf relative := by
    rw [← segmentsOf_pathOf h', ← heq, segmentsOf_append_slash, segmentsOf_pathOf h]
  rw [hsegments, pathOf_append] at heq
  exact List.append_cancel_left heq

/-- What is below a directory has a relative name: it begins with a name. -/
lemma Below.exists_name (h : HeaderTree root) (hbase : IsDirectoryPath root base)
    (hbelow : Below root base relative) :
    ∃ name names, IsName name ∧ relative = name ++ pathOf names := by
  obtain ⟨names, hland, rfl⟩ := hbase
  obtain ⟨names', hfile, heq⟩ := hbelow
  have hrelative :=
    eq_pathOf_of_append (isName_of_directory h hland) (isName_of_isFileNames h hfile) heq
  cases hsegments : segmentsOf relative with
  | nil =>
      rw [hsegments] at hrelative
      cases hrelative
  | cons name rest =>
      rw [hsegments, pathOf_cons, List.cons_append] at hrelative
      have hmem : name ∈ segmentsOf relative := by
        rw [hsegments]
        exact .head _
      exact ⟨name, rest, isName_of_mem_segmentsOf hmem, (List.cons.inj hrelative).2⟩

lemma isAbsolute_name_append {name rest : Str} (h : IsName name) :
    FilePath.isAbsolute (name ++ rest) = false := by
  obtain ⟨c, name, rfl⟩ := List.exists_cons_of_ne_nil h.1
  have hc : c ≠ '/' := fun hslash => h.2 (hslash ▸ .head _)
  simpa [FilePath.isAbsolute] using hc

lemma Below.isRelative (h : HeaderTree root) (hbase : IsDirectoryPath root base)
    (hbelow : Below root base relative) : relative ≠ [] ∧ FilePath.isAbsolute relative = false := by
  obtain ⟨name, names, hname, rfl⟩ := hbelow.exists_name h hbase
  exact ⟨List.append_ne_nil_of_left_ne_nil hname.1 _, isAbsolute_name_append hname⟩

/-- What stands in front of a relative path in a destination. -/
def stem (destination : Str) : Str :=
  if destination = [] ∨ destination.getLast? = some '/' then destination else destination ++ ['/']

lemma joinPath_of_relative (h : FilePath.isAbsolute relative = false) :
    joinPath destination relative = stem destination ++ relative := by
  rw [joinPath, stem, h]
  split_ifs <;> simp_all

/-- A path is put into a destination behind its stem, or takes its place. -/
lemma length_joinPath_le (destination path : Str) :
    (joinPath destination path).length ≤ (stem destination).length + path.length := by
  rw [joinPath]
  split_ifs with habsolute hslash
  · exact Nat.le_add_left _ _
  · rw [stem, if_pos hslash, List.length_append]
  · rw [stem, if_neg hslash, List.length_append, List.length_append, List.length_cons,
      List.length_singleton]
    omega

/-- The path of a file does not end with a slash. -/
lemma normalizePath_pathOf (h : ∀ n ∈ names, IsName n) :
    helpers.normalizePath (pathOf names) = pathOf names := by
  refine if_neg fun hslash => ?_
  obtain hnil | ⟨names', name, hconcat⟩ := names.eq_nil_or_concat
  · rw [hnil] at hslash
    exact absurd hslash.1 (by decide)
  · subst hconcat
    have hname : IsName name := h name (by simp)
    have hlast : (pathOf (names' ++ [name])).getLast? = name.getLast? := by
      rw [pathOf_append, pathOf_cons, pathOf_nil, List.append_nil, List.getLast?_append_cons,
        List.getLast?_cons_of_ne_nil hname.1]
    rw [List.concat_eq_append, hlast] at hslash
    exact hname.2 (List.mem_of_getLast? hslash.2)

/-- Where `extractDirectory` puts a file, the path not being that of the root. -/
lemma extractTarget_file {file : Str} (h : HeaderTree root) (hfile : IsFilePath root file)
    (hpath : path ≠ "/".toList) :
    res.extractTarget path destination file =
      if file.length < path.length + 1 then .error .outOfRange
      else .ok (joinPath destination (file.drop (path.length + 1))) := by
  obtain ⟨names, hnames, rfl⟩ := hfile
  rw [res.extractTarget, normalizePath_pathOf (isName_of_isFileNames h hnames), if_neg hpath]

end Paths

/-! ### What is extracted -/

/-- What an extraction meets: the platform, and what the reading of a file of the
archive gives. -/
structure Environment where
  os : Os
  device : Device
  archived : Str → fs.FileReaderOptions → Except Fault fs.FileReaderResult

/-- The environment with everything that can fail repaired: files are read as they
are, directories can be made, and what is written is stored. -/
def Environment.repaired (env : Environment) (tree : ResourceTree) : Environment where
  os := { env.os with createDirectories := fun _ => .ok true }
  device := ⟨fun _ _ => true, fun options => options.data.length, fun options => options.data.length⟩
  archived name _ := .ok { data := tree.content name, size := (tree.content name).length }

/-- The resource store of a tree. -/
def ResourceTree.store (tree : ResourceTree) (mode : ResourceMode)
    (archived : Str → fs.FileReaderOptions → Except Fault fs.FileReaderResult) : Resources where
  mode := mode
  archived := archived
  filesBelow path :=
    match parseFiles path [] tree.root with
    | .ok files => files
    | .error _ => []

section Runs

variable (tree : ResourceTree) (mode : ResourceMode) (env : Environment) (w : World)
  (path destination : Str)

/-- What `extractDirectory` answers. -/
def answer : Except Fault Json :=
  (runOn (res.extractDirectory (env.os.on env.device) (tree.store mode env.archived)
    (extractInput path destination)) w).1

/-- The files that it opens for writing, with the data that it puts into them. -/
def openedFiles : List fs.FileWriterOptions :=
  (runOn (extractDirectoryWith env.os (tree.store mode env.archived) (recordWrite env.device)
    path destination) []).2

variable {tree mode env w path destination}

lemma exists_filesBelow (tree : ResourceTree) (mode : ResourceMode)
    (archived : Str → fs.FileReaderOptions → Except Fault fs.FileReaderResult) :
    ∃ found, Enumerates (IsFileNames tree.root) found ∧ ∀ path,
      (tree.store mode archived).filesBelow path =
        (found.map pathOf).filter fun file => path <+: file := by
  obtain ⟨found, hfound, hwalk⟩ := parseFiles_exact tree.header
  refine ⟨found, hfound, fun path => ?_⟩
  dsimp only [ResourceTree.store]
  rw [hwalk path []]
  rfl

lemma nodup_filesBelow : ((tree.store mode env.archived).filesBelow path).Nodup := by
  obtain ⟨found, hfound, hfiles⟩ := exists_filesBelow tree mode env.archived
  rw [hfiles]
  refine List.Nodup.filter _ ((List.nodup_map_iff_inj_on hfound.nodup).mpr ?_)
  intro names hnames names' hnames'
  exact pathOf_injective (hfound.isName names hnames) (hfound.isName names' hnames')

/-- The selection: the files whose paths begin with the path. -/
lemma mem_filesBelow {file : Str} :
    file ∈ (tree.store mode env.archived).filesBelow path ↔
      IsFilePath tree.root file ∧ path <+: file := by
  obtain ⟨found, hfound, hfiles⟩ := exists_filesBelow tree mode env.archived
  rw [hfiles, List.mem_filter, List.mem_map, decide_eq_true_eq, IsFilePath]
  refine and_congr_left fun _ => exists_congr fun names => ?_
  rw [hfound.mem_iff]
  exact and_congr_right fun _ => eq_comm

/-- Every selected file has a target and is not stopped. -/
def AllExtracted (tree : ResourceTree) (mode : ResourceMode) (env : Environment)
    (path destination : Str) : Prop :=
  ∀ file, IsFilePath tree.root file → path <+: file → ∃ target,
    res.extractTarget path destination file = .ok target ∧
      ¬ Stopped env.os (tree.store mode env.archived) file target

lemma runOn_extractDirectoryWith {σ : Type} {os : Os} {store : Resources}
    {write : fs.FileWriterOptions → Calls.Call Fault σ Bool} (s : σ) :
    runOn (extractDirectoryWith os store write path destination) s =
      match runOn (extractAllWith os store write path destination (store.filesBelow path)) s with
      | (.ok _, t) => (.ok (succeeded .null), t)
      | (.error fault, t) => (.error fault, t) := by
  rw [extractDirectoryWith, runOn_bind]
  cases runOn (extractAllWith os store write path destination (store.filesBelow path)) s with
  | mk result t =>
      cases result with
      | error fault => rfl
      | ok _ => rfl

/-- It answers, and then with success, if all selected files are extracted. -/
lemma answer_eq (hmode : mode ≠ .dir) (h : AllExtracted tree mode env path destination) :
    answer tree mode env w path destination = .ok (succeeded .null) := by
  obtain ⟨t, hrun⟩ := (extractAllWith_returns_iff (env.os.on env.device)
    (tree.store mode env.archived) hmode (total_writeFile (env.os.on env.device)) _ w).mpr
      fun file hfile => h file (mem_filesBelow.mp hfile).1 (mem_filesBelow.mp hfile).2
  rw [answer, extractDirectory_eq hmode, runOn_extractDirectoryWith, hrun]

lemma allExtracted_of_answer (hmode : mode ≠ .dir) {output : Json}
    (h : answer tree mode env w path destination = .ok output) :
    AllExtracted tree mode env path destination := by
  rw [answer, extractDirectory_eq hmode, runOn_extractDirectoryWith] at h
  cases hrun : runOn (extractAllWith (env.os.on env.device) (tree.store mode env.archived)
      (env.os.on env.device).writeFile path destination
      ((tree.store mode env.archived).filesBelow path)) w with
  | mk result t =>
      rw [hrun] at h
      cases result with
      | error fault => cases h
      | ok _ =>
          have hall := (extractAllWith_returns_iff (env.os.on env.device)
            (tree.store mode env.archived) hmode (total_writeFile _) _ w).mp ⟨t, hrun⟩
          exact fun file hfile hstarts => hall file (mem_filesBelow.mpr ⟨hfile, hstarts⟩)

/-- What has been opened when all selected files are extracted. -/
lemma openedFiles_eq (hmode : mode ≠ .dir) (h : AllExtracted tree mode env path destination) :
    openedFiles tree mode env path destination =
      ((tree.store mode env.archived).filesBelow path).flatMap
        (writtenFor env.device (tree.store mode env.archived) path destination) := by
  obtain ⟨t, hrun⟩ := (extractAllWith_returns_iff env.os
    (tree.store mode env.archived) hmode (total_recordWrite env.device) _ []).mpr
      fun file hfile => h file (mem_filesBelow.mp hfile).1 (mem_filesBelow.mp hfile).2
  rw [openedFiles, runOn_extractDirectoryWith, hrun]
  exact recorded_extractAllWith hmode hrun

/-- However it ends, what has been opened are targets of selected files. -/
lemma forall_openedFiles {P : Str → Prop}
    (h : ∀ file, IsFilePath tree.root file → path <+: file → ∀ target,
      res.extractTarget path destination file = .ok target → P target) :
    ∀ options ∈ openedFiles tree mode env path destination, P options.filename := by
  have hkeeps := keeps_extractAllWith env.os (tree.store mode env.archived) env.device
    ((tree.store mode env.archived).filesBelow path)
    (fun file hfile => h file (mem_filesBelow.mp hfile).1 (mem_filesBelow.mp hfile).2) [] (by simp)
  rw [openedFiles, runOn_extractDirectoryWith]
  cases hrun : runOn (extractAllWith env.os (tree.store mode env.archived) (recordWrite env.device)
      path destination ((tree.store mode env.archived).filesBelow path)) [] with
  | mk result t =>
      rw [hrun] at hkeeps
      cases result with
      | error fault => exact hkeeps
      | ok _ => exact hkeeps

end Runs

/-! ### Exactness -/

/-- The file that is to be written for a file below a directory, with its content. -/
def fileFor (tree : ResourceTree) (base destination relative : Str) : fs.FileWriterOptions where
  filename := joinPath destination relative
  data := tree.content (base ++ '/' :: relative)

/-- A path denotes a directory, with or without a slash at the end. -/
def Denotes (path base : Str) : Prop := path = base ∨ path = base ++ ['/']

/-- The files below a directory are extracted exactly: where nothing fails all of them
are written, each once, and nothing else; whatever fails, nothing else is written; and
success is reported only if each of them was written and stored. -/
structure ExactBelow (tree : ResourceTree) (mode : ResourceMode) (env : Environment) (w : World)
    (base path destination : Str) : Prop where
  complete : answer tree mode (env.repaired tree) w path destination = .ok (succeeded .null) ∧
    ∃ relatives : List Str, relatives.Nodup ∧
      (∀ relative, relative ∈ relatives ↔ Below tree.root base relative) ∧
      (openedFiles tree mode (env.repaired tree) path destination).Perm
        (relatives.map (fileFor tree base destination))
  inside : ∀ options ∈ openedFiles tree mode env path destination, ∃ relative,
    Below tree.root base relative ∧ options.filename = joinPath destination relative
  truthful : answer tree mode env w path destination = .ok (succeeded .null) →
    ∀ relative, Below tree.root base relative →
      fileFor tree base destination relative ∈ openedFiles tree mode env path destination ∧
        env.device.Stores (fileFor tree base destination relative)

/-- **The extraction is exact**: of a directory exactly the files below it are
extracted, and a path that leads to no directory does not throw. -/
structure ExtractsExactly (tree : ResourceTree) (mode : ResourceMode) (env : Environment) (w : World)
    (path destination : Str) : Prop where
  directory : ∀ base, IsDirectoryPath tree.root base → Denotes path base →
    ExactBelow tree mode env w base path destination
  other : land tree.root (segmentsOf path) ≠ .directory →
    ∃ output, answer tree mode env w path destination = .ok output

/-- The selection fits a directory: the path is `/`; or it is that of the directory
without a slash, and no path of a file begins with it that does not go on with a
slash; or no file is below it. -/
def Selects (root : Json) (base path : Str) : Prop :=
  path = "/".toList ∨
    (path = base ∧ ∀ file, IsFilePath root file → base <+: file → base ++ ['/'] <+: file) ∨
    ∀ file, IsFilePath root file → ¬ path <+: file

/-- A file of the archive is read as it is, and what is written for it is stored. -/
def Environment.Delivers (env : Environment) (file : Str) (options : fs.FileWriterOptions) : Prop :=
  (∃ result, env.archived file {} = .ok result ∧ result.status = .NE_ST_OK ∧
    result.data = options.data) ∧ env.device.Stores options

/-- The condition: for a directory the selection fits, and either an exception stops
the extraction of a file below it, or every one is read and stored as it is; for
another path no file has it, and no exception stops the extraction of one whose path
begins with it. -/
structure Extractable (tree : ResourceTree) (mode : ResourceMode) (env : Environment)
    (path destination : Str) : Prop where
  directory : ∀ base, IsDirectoryPath tree.root base → Denotes path base →
    Selects tree.root base path ∧
      ((∃ relative, Below tree.root base relative ∧ Stopped env.os (tree.store mode env.archived)
          (base ++ '/' :: relative) (joinPath destination relative)) ∨
        ∀ relative, Below tree.root base relative →
          env.Delivers (base ++ '/' :: relative) (fileFor tree base destination relative))
  other : land tree.root (segmentsOf path) ≠ .directory → ∀ file, IsFilePath tree.root file →
    path <+: file → file ≠ path ∧ ¬ Stopped env.os (tree.store mode env.archived) file
      (joinPath destination (file.drop (path.length + 1)))

section Exactness

variable {tree : ResourceTree} {mode : ResourceMode} {env : Environment} {w : World}
  {root : Json} {base path destination file relative : Str}

lemma eq_nil_of_slash (h : HeaderTree root) (hbase : IsDirectoryPath root base)
    (hpath : Denotes "/".toList base) : base = [] := by
  rcases hpath with hslash | hslash
  · obtain ⟨names, hland, rfl⟩ := hbase
    have hnames := segmentsOf_pathOf (isName_of_directory h hland)
    rw [← hslash] at hnames
    have hnil : names = [] := hnames.symm
    rw [hnil, pathOf_nil]
  · have hlength := congrArg List.length hslash
    rw [List.length_append] at hlength
    exact List.length_eq_zero_iff.mp (by simpa using hlength.symm)

lemma drop_below (base relative : Str) :
    (base ++ '/' :: relative).drop (base.length + 1) = relative := by
  simp [List.drop_append]

lemma prefix_of_below (hpath : Denotes path base) : path <+: base ++ '/' :: relative := by
  rcases hpath with rfl | rfl
  · exact List.prefix_append _ _
  · exact ⟨relative, by simp⟩

/-- What the selection takes and where it is put, if the selection fits. -/
lemma Selects.target (h : HeaderTree root) (hselects : Selects root base path)
    (hbase : IsDirectoryPath root base) (hpath : Denotes path base) (hfile : IsFilePath root file)
    (hstarts : path <+: file) : ∃ relative, file = base ++ '/' :: relative ∧
      res.extractTarget path destination file = .ok (joinPath destination relative) := by
  rcases hselects with rfl | ⟨rfl, hselects⟩ | hselects
  · obtain rfl := eq_nil_of_slash h hbase hpath
    obtain ⟨relative, rfl⟩ := hstarts
    refine ⟨relative, rfl, ?_⟩
    obtain ⟨names, hnames, heq⟩ := hfile
    rw [heq, res.extractTarget, normalizePath_pathOf (isName_of_isFileNames h hnames), if_pos rfl,
      ← heq]
    exact if_neg (by simp)
  · obtain ⟨relative, rfl⟩ := hselects file hfile hstarts
    refine ⟨relative, by simp, ?_⟩
    have hne : path ≠ "/".toList := by
      intro hslash
      have hnil := eq_nil_of_slash h hbase (.inl hslash.symm)
      rw [hnil] at hslash
      cases hslash
    rw [List.append_assoc] at hfile ⊢
    rw [extractTarget_file h hfile hne, if_neg (by simp), List.singleton_append, drop_below]
  · exact absurd hstarts (hselects file hfile)

/-- The selection, if it fits: the files below the directory. -/
lemma Selects.mem_filesBelow_iff (hselects : Selects tree.root base path)
    (hbase : IsDirectoryPath tree.root base) (hpath : Denotes path base) :
    file ∈ (tree.store mode env.archived).filesBelow path ↔
      ∃ relative, Below tree.root base relative ∧ file = base ++ '/' :: relative := by
  rw [mem_filesBelow]
  constructor
  · rintro ⟨hfile, hstarts⟩
    obtain ⟨relative, rfl, -⟩ : ∃ relative, file = base ++ '/' :: relative ∧
        res.extractTarget path [] file = .ok (joinPath [] relative) :=
      hselects.target tree.header hbase hpath hfile hstarts
    exact ⟨relative, hfile, rfl⟩
  · rintro ⟨relative, hbelow, rfl⟩
    exact ⟨hbelow, prefix_of_below hpath⟩

lemma Selects.extractTarget_eq (hselects : Selects tree.root base path)
    (hbase : IsDirectoryPath tree.root base) (hpath : Denotes path base)
    (hbelow : Below tree.root base relative) :
    res.extractTarget path destination (base ++ '/' :: relative) =
      .ok (joinPath destination relative) := by
  obtain ⟨relative', heq, htarget⟩ :
      ∃ relative', base ++ '/' :: relative = base ++ '/' :: relative' ∧
      res.extractTarget path destination (base ++ '/' :: relative) =
        .ok (joinPath destination relative') :=
    hselects.target tree.header hbase hpath hbelow (prefix_of_below hpath)
  rw [htarget, (List.cons.inj (List.append_cancel_left heq)).2]

lemma Selects.allExtracted_iff (hselects : Selects tree.root base path)
    (hbase : IsDirectoryPath tree.root base) (hpath : Denotes path base) :
    AllExtracted tree mode env path destination ↔ ∀ relative, Below tree.root base relative →
      ¬ Stopped env.os (tree.store mode env.archived) (base ++ '/' :: relative)
        (joinPath destination relative) := by
  constructor
  · intro hall relative hbelow
    obtain ⟨target, htarget, hnot⟩ := hall _ hbelow (prefix_of_below hpath)
    rw [hselects.extractTarget_eq hbase hpath hbelow] at htarget
    rwa [← Except.ok.inj htarget] at hnot
  · intro hall file hfile hstarts
    obtain ⟨relative, rfl, htarget⟩ := hselects.target tree.header hbase hpath hfile hstarts
    exact ⟨_, htarget, hall relative hfile⟩

/-- Different relative names have different targets. -/
lemma joinPath_injective (hbase : IsDirectoryPath tree.root base) {relative' : Str}
    (hbelow : Below tree.root base relative) (hbelow' : Below tree.root base relative')
    (heq : joinPath destination relative = joinPath destination relative') :
    relative = relative' := by
  rw [joinPath_of_relative (hbelow.isRelative tree.header hbase).2,
    joinPath_of_relative (hbelow'.isRelative tree.header hbase).2] at heq
  exact List.append_cancel_left heq

/-- In the repaired environment nothing is stopped. -/
lemma not_stopped_repaired {target : Str} :
    ¬ Stopped (env.repaired tree).os (tree.store mode (env.repaired tree).archived) file target := by
  rintro (⟨fault, hread⟩ | ⟨result, fault, -, -, hmake⟩)
  · cases hread
  · rw [makeParent] at hmake
    split_ifs at hmake
    cases hmake

/-- In the repaired environment a file is written with its content. -/
lemma writtenFor_repaired {target : Str} (h : res.extractTarget path destination file = .ok target) :
    writtenFor (env.repaired tree).device (tree.store mode (env.repaired tree).archived) path
      destination file = [{ filename := target, data := tree.content file }] := by
  rw [writtenFor, h]
  rfl

/-- If the selection fits, everything is extracted where nothing fails. -/
lemma Selects.complete (hmode : mode ≠ .dir) (hselects : Selects tree.root base path)
    (hbase : IsDirectoryPath tree.root base) (hpath : Denotes path base) :
    answer tree mode (env.repaired tree) w path destination = .ok (succeeded .null) ∧
      ∃ relatives : List Str, relatives.Nodup ∧
        (∀ relative, relative ∈ relatives ↔ Below tree.root base relative) ∧
        (openedFiles tree mode (env.repaired tree) path destination).Perm
          (relatives.map (fileFor tree base destination)) := by
  have hall : AllExtracted tree mode (env.repaired tree) path destination :=
    (hselects.allExtracted_iff hbase hpath).mpr fun _ _ => not_stopped_repaired
  have hmem : ∀ file, file ∈ (tree.store mode (env.repaired tree).archived).filesBelow path ↔
      ∃ relative, Below tree.root base relative ∧ file = base ++ '/' :: relative :=
    fun _ => hselects.mem_filesBelow_iff hbase hpath
  refine ⟨answer_eq hmode hall, ((tree.store mode (env.repaired tree).archived).filesBelow path).map
    (·.drop (base.length + 1)), ?_, fun relative => ?_, ?_⟩
  · refine (List.nodup_map_iff_inj_on nodup_filesBelow).mpr fun file hfile file' hfile' heq => ?_
    obtain ⟨relative, -, rfl⟩ := (hmem file).mp hfile
    obtain ⟨relative', -, rfl⟩ := (hmem file').mp hfile'
    rw [drop_below, drop_below] at heq
    rw [heq]
  · rw [List.mem_map]
    constructor
    · rintro ⟨file, hfile, rfl⟩
      obtain ⟨relative, hbelow, rfl⟩ := (hmem file).mp hfile
      rwa [drop_below]
    · intro hbelow
      exact ⟨_, (hmem _).mpr ⟨relative, hbelow, rfl⟩, drop_below base relative⟩
  · rw [openedFiles_eq hmode hall, List.map_map, List.map_eq_flatMap]
    refine .of_eq (List.flatMap_congr fun file hfile => ?_)
    obtain ⟨relative, hbelow, rfl⟩ := (hmem file).mp hfile
    rw [writtenFor_repaired (hselects.extractTarget_eq hbase hpath hbelow), Function.comp_apply,
      drop_below]
    rfl

/-- If everything is extracted where nothing fails, as many files are selected as are
below the directory. -/
lemma perm_of_complete (hmode : mode ≠ .dir) (hpath : Denotes path base) {relatives : List Str}
    (hanswer : answer tree mode (env.repaired tree) w path destination = .ok (succeeded .null))
    (hnodup : relatives.Nodup)
    (hmem : ∀ relative, relative ∈ relatives ↔ Below tree.root base relative)
    (hperm : (openedFiles tree mode (env.repaired tree) path destination).Perm
      (relatives.map (fileFor tree base destination))) :
    (relatives.map fun relative => base ++ '/' :: relative).Perm
      ((tree.store mode (env.repaired tree).archived).filesBelow path) := by
  have hall := allExtracted_of_answer hmode hanswer
  have hfiles : (relatives.map fun relative => base ++ '/' :: relative).Nodup :=
    hnodup.map fun _ _ heq => (List.cons.inj (List.append_cancel_left heq)).2
  refine (List.subperm_of_subset hfiles fun file hfile => ?_).perm_of_length_le ?_
  · obtain ⟨relative, hrelative, rfl⟩ := List.mem_map.mp hfile
    exact mem_filesBelow.mpr ⟨(hmem relative).mp hrelative, prefix_of_below hpath⟩
  · have hone : ∀ file ∈ (tree.store mode (env.repaired tree).archived).filesBelow path,
        (writtenFor (env.repaired tree).device (tree.store mode (env.repaired tree).archived) path
          destination file).length = 1 := by
      intro file hfile
      obtain ⟨hpathOf, hstarts⟩ := mem_filesBelow.mp hfile
      obtain ⟨target, htarget, -⟩ := hall file hpathOf hstarts
      rw [writtenFor_repaired htarget, List.length_singleton]
    have hlength := hperm.length_eq
    rw [openedFiles_eq hmode hall, List.length_flatMap, List.map_congr_left hone,
      List.length_map] at hlength
    rw [List.length_map, ← hlength]
    simp

/-- With a slash at the end, a file is put under a shorter name. -/
lemma length_target_lt (hbase : IsDirectoryPath tree.root base)
    (hbelow : Below tree.root base relative) {target : Str} (hne : base ++ ['/'] ≠ "/".toList)
    (htarget : res.extractTarget (base ++ ['/']) destination (base ++ '/' :: relative) =
      .ok target) :
    target.length < (joinPath destination relative).length := by
  obtain ⟨hnonempty, hrelative⟩ := hbelow.isRelative tree.header hbase
  rw [extractTarget_file tree.header hbelow hne] at htarget
  split_ifs at htarget with hshort
  have htail : (base ++ '/' :: relative).drop ((base ++ ['/']).length + 1) = relative.tail := by
    rw [List.length_append, List.length_singleton, List.drop_add_one_eq_tail_drop, drop_below]
  rw [htail] at htarget
  have hle := length_joinPath_le destination relative.tail
  have hpos := List.length_pos_iff.mpr hnonempty
  rw [← Except.ok.inj htarget, joinPath_of_relative hrelative, List.length_append]
  rw [List.length_tail] at hle
  omega

/-- If everything is extracted where nothing fails, the selection fits. -/
lemma selects_of_complete (hmode : mode ≠ .dir) (hbase : IsDirectoryPath tree.root base)
    (hpath : Denotes path base) {relatives : List Str}
    (hanswer : answer tree mode (env.repaired tree) w path destination = .ok (succeeded .null))
    (hnodup : relatives.Nodup)
    (hmem : ∀ relative, relative ∈ relatives ↔ Below tree.root base relative)
    (hperm : (openedFiles tree mode (env.repaired tree) path destination).Perm
      (relatives.map (fileFor tree base destination))) : Selects tree.root base path := by
  have hselected := perm_of_complete hmode hpath hanswer hnodup hmem hperm
  have hall := allExtracted_of_answer hmode hanswer
  rcases hpath with rfl | rfl
  · refine .inr (.inl ⟨rfl, fun file hfile hstarts => ?_⟩)
    obtain ⟨relative, -, rfl⟩ :=
      List.mem_map.mp (hselected.mem_iff.mpr (mem_filesBelow.mpr ⟨hfile, hstarts⟩))
    exact ⟨relative, by simp⟩
  · by_cases hslash : base ++ ['/'] = "/".toList
    · exact .inl hslash
    refine .inr (.inr fun file hfile hstarts => ?_)
    have hne : relatives ≠ [] := by
      rintro rfl
      have := hselected.mem_iff.mpr (mem_filesBelow.mpr ⟨hfile, hstarts⟩)
      simp at this
    -- the names that are written are shorter, all of them taken together
    choose! target htarget using fun relative (hrelative : relative ∈ relatives) =>
      (hall _ ((hmem relative).mp hrelative) (prefix_of_below (.inr rfl)))
    have hopened : (openedFiles tree mode (env.repaired tree) (base ++ ['/']) destination).Perm
        (relatives.map fun relative =>
          { filename := target relative, data := tree.content (base ++ '/' :: relative) }) := by
      rw [openedFiles_eq hmode hall]
      refine (hselected.symm.flatMap_right _).trans ?_
      rw [List.flatMap_map, List.map_eq_flatMap]
      exact .of_eq (List.flatMap_congr fun relative hrelative =>
        writtenFor_repaired (htarget relative hrelative).1)
    have hsum := ((hopened.symm.trans hperm).map fun options => options.filename.length).sum_eq
    rw [List.map_map, List.map_map] at hsum
    refine absurd hsum (ne_of_lt (List.sum_lt_sum_of_ne_nil hne _ _ fun relative hrelative => ?_))
    exact length_target_lt hbase ((hmem relative).mp hrelative) hslash
      (htarget relative hrelative).1

lemma filename_of_mem_writtenAt {device : Device} {store : Resources} {target : Str}
    {options : fs.FileWriterOptions} (h : options ∈ writtenAt device store file target) :
    options.filename = target := by
  rw [writtenAt] at h
  cases hread : store.archived file {} with
  | error fault =>
      rw [hread] at h
      cases h
  | ok result =>
      rw [hread] at h
      dsimp only at h
      split_ifs at h
      · rw [List.mem_singleton.mp h]
      · cases h

/-- A file that is delivered is opened for writing with its content, and nothing else
puts this content there. -/
lemma mem_writtenAt_iff {options : fs.FileWriterOptions} (happend : options.append = false) :
    options ∈ writtenAt env.device (tree.store mode env.archived) file options.filename ∧
        env.device.Stores options ↔ env.Delivers file options := by
  obtain ⟨filename, data, append⟩ := options
  obtain rfl : append = false := happend
  have harchived : (tree.store mode env.archived).archived file {} = env.archived file {} := rfl
  rw [writtenAt, harchived, Environment.Delivers]
  refine and_congr_left fun hstores => ?_
  have hopens : env.device.opens filename false = true := hstores.opens
  cases env.archived file {} with
  | error fault => simp
  | ok result =>
      dsimp only
      split_ifs with hstatus
      · simp [hstatus.1, eq_comm]
      · have hbad : result.status ≠ .NE_ST_OK := fun hok => hstatus ⟨hok, hopens⟩
        simp [hbad]

/-- If the selection fits, success is truthful if and only if something stops the
extraction, or every file is delivered. -/
lemma Selects.truthful_iff (hmode : mode ≠ .dir) (hselects : Selects tree.root base path)
    (hbase : IsDirectoryPath tree.root base) (hpath : Denotes path base) :
    (answer tree mode env w path destination = .ok (succeeded .null) →
      ∀ relative, Below tree.root base relative →
        fileFor tree base destination relative ∈ openedFiles tree mode env path destination ∧
          env.device.Stores (fileFor tree base destination relative)) ↔
      (∃ relative, Below tree.root base relative ∧ Stopped env.os (tree.store mode env.archived)
          (base ++ '/' :: relative) (joinPath destination relative)) ∨
        ∀ relative, Below tree.root base relative →
          env.Delivers (base ++ '/' :: relative) (fileFor tree base destination relative) := by
  have hiff : AllExtracted tree mode env path destination ↔
      ∀ relative, Below tree.root base relative →
        ¬ Stopped env.os (tree.store mode env.archived) (base ++ '/' :: relative)
          (joinPath destination relative) := hselects.allExtracted_iff hbase hpath
  by_cases hall : AllExtracted tree mode env path destination
  · have hnone := hiff.mp hall
    rw [or_iff_right fun ⟨relative, hbelow, hstopped⟩ => hnone relative hbelow hstopped,
      imp_iff_right (answer_eq hmode hall), openedFiles_eq hmode hall]
    refine forall_congr' fun relative => imp_congr_right fun hbelow => ?_
    rw [← @mem_writtenAt_iff tree mode env _ _ rfl]
    refine and_congr_left fun _ => ?_
    rw [List.mem_flatMap]
    constructor
    · rintro ⟨file, hfile, hwritten⟩
      obtain ⟨relative', hbelow', rfl⟩ := (hselects.mem_filesBelow_iff hbase hpath).mp hfile
      rw [writtenFor, hselects.extractTarget_eq hbase hpath hbelow'] at hwritten
      obtain rfl : relative = relative' :=
        joinPath_injective hbase hbelow hbelow' (filename_of_mem_writtenAt hwritten)
      exact hwritten
    · intro hwritten
      refine ⟨_, (hselects.mem_filesBelow_iff hbase hpath).mpr ⟨relative, hbelow, rfl⟩, ?_⟩
      rw [writtenFor, hselects.extractTarget_eq hbase hpath hbelow]
      exact hwritten
  · refine iff_of_true (fun hanswer => absurd (allExtracted_of_answer hmode hanswer) hall) (.inl ?_)
    by_contra hnone
    exact hall (hiff.mpr fun relative hbelow hstopped => hnone ⟨relative, hbelow, hstopped⟩)

/-- If the selection fits, what is opened for writing is inside the destination. -/
lemma Selects.inside (hselects : Selects tree.root base path) (hbase : IsDirectoryPath tree.root base)
    (hpath : Denotes path base) : ∀ options ∈ openedFiles tree mode env path destination, ∃ relative,
      Below tree.root base relative ∧ options.filename = joinPath destination relative := by
  refine forall_openedFiles (P := fun filename => ∃ relative, Below tree.root base relative ∧
    filename = joinPath destination relative) fun file hfile hstarts target htarget => ?_
  obtain ⟨relative, rfl, htarget'⟩ : ∃ relative, file = base ++ '/' :: relative ∧
      res.extractTarget path destination file = .ok (joinPath destination relative) :=
    hselects.target tree.header hbase hpath hfile hstarts
  exact ⟨relative, hfile, Except.ok.inj (htarget.symm.trans htarget')⟩

lemma exactBelow_iff (hmode : mode ≠ .dir) (hbase : IsDirectoryPath tree.root base)
    (hpath : Denotes path base) : ExactBelow tree mode env w base path destination ↔
      Selects tree.root base path ∧
        ((∃ relative, Below tree.root base relative ∧ Stopped env.os (tree.store mode env.archived)
            (base ++ '/' :: relative) (joinPath destination relative)) ∨
          ∀ relative, Below tree.root base relative →
            env.Delivers (base ++ '/' :: relative) (fileFor tree base destination relative)) := by
  constructor
  · rintro ⟨⟨hanswer, relatives, hnodup, hmem, hperm⟩, -, htruthful⟩
    have hselects := selects_of_complete hmode hbase hpath hanswer hnodup hmem hperm
    exact ⟨hselects, (hselects.truthful_iff hmode hbase hpath).mp htruthful⟩
  · rintro ⟨hselects, hdelivered⟩
    exact ⟨hselects.complete hmode hbase hpath, hselects.inside hbase hpath,
      (hselects.truthful_iff hmode hbase hpath).mpr hdelivered⟩

/-- A path that leads to no directory: it throws if it is that of a file. -/
lemma answers_other_iff (hmode : mode ≠ .dir)
    (hother : land tree.root (segmentsOf path) ≠ .directory) :
    (∃ output, answer tree mode env w path destination = .ok output) ↔
      ∀ file, IsFilePath tree.root file → path <+: file → file ≠ path ∧
        ¬ Stopped env.os (tree.store mode env.archived) file
          (joinPath destination (file.drop (path.length + 1))) := by
  have hne : path ≠ "/".toList := by
    rintro rfl
    exact hother tree.directory
  have hall : (∃ output, answer tree mode env w path destination = .ok output) ↔
      AllExtracted tree mode env path destination :=
    ⟨fun ⟨output, hanswer⟩ => allExtracted_of_answer hmode hanswer, fun h => ⟨_, answer_eq hmode h⟩⟩
  rw [hall, AllExtracted]
  refine forall_congr' fun file => imp_congr_right fun hfile => imp_congr_right fun hstarts => ?_
  rw [extractTarget_file tree.header hfile hne]
  by_cases heq : file = path
  · simp [heq]
  · have hlength : ¬ file.length < path.length + 1 := by
      intro hshort
      exact heq (hstarts.eq_of_length_le (by omega)).symm
    rw [if_neg hlength, and_iff_right heq]
    constructor
    · rintro ⟨target, htarget, hstopped⟩
      rwa [← Except.ok.inj htarget] at hstopped
    · exact fun hstopped => ⟨_, rfl, hstopped⟩

/-- The tree with one file in a directory. -/
def appTree : ResourceTree where
  root := nestedTree.fileTree
  header := nestedTree_headerTree
  directory := rfl
  content _ := "hello world"

/-- An environment in which nothing fails. -/
def soundEnvironment : Environment :=
  Environment.repaired ⟨.idle emptyWorkDir, ⟨fun _ _ => true, fun _ => 0, fun _ => 0⟩,
    fun _ _ => .ok {}⟩ appTree

end Exactness

end resources

end Neutralino
