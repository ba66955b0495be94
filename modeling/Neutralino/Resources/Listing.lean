import Neutralino.Api.Inputs
import Neutralino.Resources.PathLookup

/-!
The listing of an archive, `resources.getFiles`, against the two lookups of a path.

* `HeaderTree`: a header tree whose names are not empty and have no slash; `pathOf`:
  the path of names.
* `IsEntry`: names that lead to a directory or to a file of the tree.
* `parseAllFiles_exact`: the walk of `__getAllFiles` finds the entries, each once.
* `listing_agrees_iff`: **when the listing agrees with the lookups at a path**:
  `__seekFilePos` takes what goes on after a file for the file, and a size or an
  offset that does not fit its type is listed all the same.
-/

namespace Neutralino

namespace res

/-- `getFiles`; in the directory mode the files are those of the disk. -/
def getFiles (mode : resources.ResourceMode) (fileTree : Json)
    (resourceFiles : Except Fault (List Str)) (_ : Json) : Except Fault Json := do
  let files ← if mode = .dir then resourceFiles else inputs.parseAllFiles [] fileTree
  return returned .null (.arr (files.map .str))

end res

namespace resources

open res.inputs (eachFile parseAllFiles)

/-! ### Names and paths -/

/-- A name of a directory: not empty, and without a slash. -/
def IsName (name : Str) : Prop := name ≠ [] ∧ '/' ∉ name

/-- A header tree with the names of its files: in a directory they are different. -/
inductive HeaderTree : Json → Prop
  | file {members : List (Str × Json)} {size offset : ℕ} :
      IsFile members size offset → HeaderTree (.obj members)
  | dir {members files : List (Str × Json)} :
      Json.lookup "files" members = .obj files → Json.lookup "size" members = .null →
        (files.map (·.1)).Nodup → (∀ entry ∈ files, IsName entry.1) →
        (∀ entry ∈ files, HeaderTree entry.2) → HeaderTree (.obj members)

lemma HeaderTree.wellFormed {node : Json} (h : HeaderTree node) : WellFormed node := by
  induction h with
  | file hfile => exact .file hfile
  | dir hfiles hsize _ _ _ ih => exact .dir hfiles hsize ih

/-- The path of names. -/
def pathOf (names : List Str) : Str := names.flatMap ('/' :: ·)

@[simp] lemma pathOf_nil : pathOf [] = [] := rfl

@[simp] lemma pathOf_cons (name : Str) (names : List Str) :
    pathOf (name :: names) = '/' :: name ++ pathOf names := rfl

lemma splitOn_pathOf {name : Str} {names : List Str} (h : ∀ n ∈ name :: names, IsName n) :
    (name ++ pathOf names).splitOn '/' = name :: names := by
  induction names generalizing name with
  | nil => rw [pathOf_nil, List.append_nil, List.splitOn_eq_singleton (h name (.head _)).2]
  | cons next names ih =>
      rw [pathOf_cons, List.cons_append,
        List.splitOn_append_cons_self_of_not_mem (h name (.head _)).2,
        ih fun n hn => h n (.tail _ hn)]

/-- The segments of the path of names are the names. -/
lemma segmentsOf_pathOf {names : List Str} (h : ∀ n ∈ names, IsName n) :
    segmentsOf (pathOf names) = names := by
  have hnames : names.filter (· ≠ []) = names :=
    List.filter_eq_self.mpr fun n hn => by simpa using (h n hn).1
  cases names with
  | nil => rfl
  | cons name names =>
      have hsplit : (pathOf (name :: names)).splitOn '/' = [] :: name :: names := by
        rw [pathOf_cons, List.cons_append]
        exact (List.splitOn_append_cons_self_of_not_mem (List.not_mem_nil) _).trans
          (congrArg _ (splitOn_pathOf h))
      rw [segmentsOf, hsplit, List.filter_cons_of_neg (by simp), hnames]

lemma isName_of_mem_segmentsOf {path name : Str} (h : name ∈ segmentsOf path) : IsName name := by
  obtain ⟨hmem, hne⟩ := List.mem_filter.mp h
  exact ⟨by simpa using hne, FilePath.slash_not_mem_piece hmem⟩

lemma pathOf_injective {names names' : List Str} (h : ∀ n ∈ names, IsName n)
    (h' : ∀ n ∈ names', IsName n) (heq : pathOf names = pathOf names') : names = names' := by
  rw [← segmentsOf_pathOf h, heq, segmentsOf_pathOf h']

/-! ### The entries of a tree -/

/-- Names that lead to a directory or to a file. -/
def IsEntry (root : Json) (names : List Str) : Prop :=
  names ≠ [] ∧ (land root names = .directory ∨ ∃ members, land root names = .file members [])

section Entries

variable {members files : List (Str × Json)} {node : Json} {names : List Str} {name : Str}

/-- A member of an object with different keys is found under its key. -/
lemma lookup_of_mem (hkeys : (files.map (·.1)).Nodup) {entry : Str × Json} (h : entry ∈ files) :
    Json.lookup entry.1 files = entry.2 := by
  rw [Json.lookup]
  cases hfind : files.find? fun m => m.1 = entry.1 with
  | none => exact absurd (List.find?_eq_none.mp hfind entry h) (by simp)
  | some m =>
      have hkey : m.1 = entry.1 := by simpa using List.find?_some hfind
      have heq := List.inj_on_of_nodup_map hkeys (List.mem_of_find?_eq_some hfind) h hkey
      rw [heq]
      rfl

/-- What is found under a key is a member, or nothing. -/
lemma mem_or_lookup_eq_null (name : Str) (files : List (Str × Json)) :
    (name, Json.lookup name files) ∈ files ∨ Json.lookup name files = .null := by
  rw [Json.lookup]
  cases hfind : files.find? fun m => m.1 = name with
  | none => exact .inr rfl
  | some m =>
      have hkey : m.1 = name := by simpa using List.find?_some hfind
      exact .inl (hkey ▸ List.mem_of_find?_eq_some hfind)

/-- A file has nothing below it. -/
lemma not_isEntry_file {size offset : ℕ} (h : IsFile members size offset) (names : List Str) :
    ¬ IsEntry (.obj members) names := by
  rintro ⟨hne, hland | ⟨members', hland⟩⟩
  · rw [land_file h] at hland
    cases hland
  · rw [land_file h] at hland
    exact hne (Landing.file.inj hland).2

/-- A node of the tree is a directory or a file. -/
lemma HeaderTree.land_nil (h : HeaderTree node) :
    land node [] = .directory ∨ ∃ members, land node [] = .file members [] := by
  cases h with
  | file hfile => exact .inr ⟨_, land_file hfile []⟩
  | dir hfiles => exact .inl (land_dir_nil hfiles)

/-- The entries below a directory: its members, and the entries below these. -/
lemma isEntry_dir_cons (hfiles : Json.lookup "files" members = .obj files)
    (hkeys : (files.map (·.1)).Nodup) (htrees : ∀ entry ∈ files, HeaderTree entry.2) :
    IsEntry (.obj members) (name :: names) ↔
      ∃ entry ∈ files, entry.1 = name ∧ (names = [] ∨ IsEntry entry.2 names) := by
  rw [IsEntry, land_dir_cons hfiles]
  constructor
  · rintro ⟨-, hland⟩
    rcases mem_or_lookup_eq_null name files with hmem | hnull
    · exact ⟨_, hmem, rfl, or_iff_not_imp_left.mpr fun hne => ⟨hne, hland⟩⟩
    · rw [hnull, land_null] at hland
      simp at hland
  · rintro ⟨entry, hentry, rfl, hnames⟩
    rw [lookup_of_mem hkeys hentry]
    refine ⟨List.cons_ne_nil _ _, ?_⟩
    rcases hnames with rfl | hnames
    · exact (htrees entry hentry).land_nil
    · exact hnames.2

end Entries

/-! ### The walk over the tree -/

section Walk

variable {members files : List (Str × Json)} {node : Json}

lemma hasField_obj (members : List (Str × Json)) (key : Str) :
    helpers.hasField (.obj members) key = .ok (!(Json.lookup key members).isNull) := by
  rw [helpers.hasField, Json.contains, Json.indexConst, Json.lookup]
  cases hfind : members.find? fun m => m.1 = key with
  | none =>
      have hany : (members.any fun m => m.1 = key) = false := by
        simpa using hfind
      rw [hany]
      rfl
  | some m =>
      have hkey : m.1 = key := by simpa using List.find?_some hfind
      have hany : (members.any fun m => m.1 = key) = true :=
        List.any_eq_true.mpr ⟨m, List.mem_of_find?_eq_some hfind, by simpa using hkey⟩
      rw [hany]
      rfl

lemma indexConst_of_lookup {key : Str} (h : Json.lookup key members = .obj files) :
    (Json.obj members).indexConst key = .ok (.obj files) := by
  rw [Json.indexConst]
  rw [Json.lookup] at h
  cases hfind : members.find? fun m => m.1 = key with
  | none =>
      rw [hfind] at h
      cases h
  | some m =>
      rw [hfind] at h
      exact congrArg _ h

/-- The loop over the files of a directory: what it finds in each, one after the other. -/
lemma eachFile_dir (h : Json.lookup "files" members = .obj files)
    {child : (entry : Str × Json) → sizeOf entry.2 < sizeOf (Json.obj members) →
      Except Fault (List Str)} {found : Str × Json → List Str}
    (hchild : ∀ entry ∈ files, ∀ hlt, child entry hlt = .ok (found entry)) :
    eachFile (.obj members) child = .ok (files.flatMap found) := by
  have hindex := indexConst_of_lookup h
  rw [eachFile]
  split
  · case h_1 fault heq =>
      rw [hindex] at heq
      cases heq
  · case h_2 files' heq =>
      obtain rfl : Json.obj files = files' := Except.ok.inj (hindex.symm.trans heq)
      have hloop : (Json.obj files).items.attach.mapM
          (fun entry => child entry.1 (sizeOf_lt_of_mem_items heq entry.2)) =
            .ok (files.map found) := by
        have hfound : ∀ entry (hentry : entry ∈ (Json.obj files).items),
            child entry (sizeOf_lt_of_mem_items heq hentry) = pure (found entry) :=
          fun entry hentry => hchild entry hentry _
        rw [List.mapM_subtype hfound, List.unattach_attach, List.mapM_pure]
        rfl
      rw [hloop, ok_bind, List.flatMap_def]
      rfl

/-- Different names in front of different lists of names. -/
lemma nodup_below (hkeys : (files.map (·.1)).Nodup) {below : Str × Json → List (List Str)}
    (h : ∀ entry ∈ files, (below entry).Nodup) :
    (files.flatMap fun entry => (below entry).map (entry.1 :: ·)).Nodup := by
  refine List.nodup_flatMap.mpr ⟨fun entry hentry => (h entry hentry).map fun _ _ heq => ?_, ?_⟩
  · exact (List.cons.inj heq).2
  · refine (List.pairwise_map.mp hkeys).imp fun {entry entry'} hne => ?_
    intro names hnames hnames'
    obtain ⟨_, -, rfl⟩ := List.mem_map.mp hnames
    obtain ⟨_, -, heq⟩ := List.mem_map.mp hnames'
    exact hne (List.cons.inj heq).1.symm

lemma mem_below {below : Str × Json → List (List Str)} {names : List Str} :
    names ∈ files.flatMap (fun entry => (below entry).map (entry.1 :: ·)) ↔
      ∃ entry ∈ files, ∃ rest ∈ below entry, entry.1 :: rest = names := by
  simp only [List.mem_flatMap, List.mem_map]

/-- The lists of names with a property, each once. -/
structure Enumerates (P : List Str → Prop) (entries : List (List Str)) : Prop where
  nodup : entries.Nodup
  mem_iff : ∀ names, names ∈ entries ↔ P names
  isName : ∀ names ∈ entries, ∀ name ∈ names, IsName name

/-- The names below a directory, put together from those of its members. -/
lemma Enumerates.dir {P : List Str → Prop} {Q : Json → List Str → Prop}
    {below : Str × Json → List (List Str)} (hkeys : (files.map (·.1)).Nodup)
    (hnames : ∀ entry ∈ files, IsName entry.1) (hnil : ¬ P [])
    (hcons : ∀ name names, P (name :: names) ↔ ∃ entry ∈ files, entry.1 = name ∧ Q entry.2 names)
    (h : ∀ entry ∈ files, Enumerates (Q entry.2) (below entry)) :
    Enumerates P (files.flatMap fun entry => (below entry).map (entry.1 :: ·)) where
  nodup := nodup_below hkeys fun entry hentry => (h entry hentry).nodup
  mem_iff names := by
    rw [mem_below]
    cases names with
    | nil => exact iff_of_false (by simp) hnil
    | cons name names =>
        rw [hcons]
        refine exists_congr fun entry => and_congr_right fun hentry => ?_
        simp only [List.cons.injEq, (h entry hentry).mem_iff]
        constructor
        · rintro ⟨rest, hrest, hname, rfl⟩
          exact ⟨hname, hrest⟩
        · rintro ⟨hname, hrest⟩
          exact ⟨names, hrest, hname, rfl⟩
  isName names hmem name hname := by
    obtain ⟨entry, hentry, rest, hrest, rfl⟩ := mem_below.mp hmem
    rcases List.mem_cons.mp hname with rfl | hname
    · exact hnames entry hentry
    · exact (h entry hentry).isName rest hrest name hname

/-- A node of the tree in front of the entries below it. -/
lemma Enumerates.cons {entries : List (List Str)} (h : Enumerates (IsEntry node) entries) :
    Enumerates (fun names => names = [] ∨ IsEntry node names) ([] :: entries) where
  nodup := List.nodup_cons.mpr ⟨fun hnil => ((h.mem_iff []).mp hnil).1 rfl, h.nodup⟩
  mem_iff names := by rw [List.mem_cons, h.mem_iff]
  isName := List.forall_mem_cons.mpr ⟨by simp, h.isName⟩

/-- **The walk of `__getAllFiles`** finds the entries of the tree, each once. -/
theorem parseAllFiles_exact (h : HeaderTree node) :
    ∃ entries, Enumerates (IsEntry node) entries ∧
      ∀ basePath, parseAllFiles basePath node = .ok (entries.map (basePath ++ pathOf ·)) := by
  induction h with
  | @file members size offset hfile =>
      refine ⟨[], ⟨List.nodup_nil, fun names => ?_, by simp⟩, fun basePath => ?_⟩
      · exact iff_of_false List.not_mem_nil (not_isEntry_file hfile names)
      · rw [parseAllFiles, hasField_obj, hfile.files_eq]
        rfl
  | @dir members files hfiles _ hkeys hnames htrees ih =>
      choose! below hbelow hwalk using ih
      have hentries : Enumerates (IsEntry (.obj members))
          (files.flatMap fun entry => ([] :: below entry).map (entry.1 :: ·)) :=
        .dir (Q := fun node names => names = [] ∨ IsEntry node names) hkeys hnames
          (fun hnil => hnil.1 rfl) (fun _ _ => isEntry_dir_cons hfiles hkeys htrees)
          fun entry hentry => (hbelow entry hentry).cons
      refine ⟨_, hentries, fun basePath => ?_⟩
      have hchild : ∀ entry ∈ files, ∀ _ : sizeOf entry.2 < sizeOf (Json.obj members),
          (do
            let path := basePath ++ '/' :: entry.1
            return path :: (← parseAllFiles path entry.2)) =
            Except.ok (([] :: below entry).map fun names =>
              basePath ++ pathOf (entry.1 :: names)) := by
        intro entry hentry _
        simp [hwalk entry hentry, ok_bind, pure, Except.pure]
      rw [parseAllFiles, hasField_obj, hfiles, ok_bind, if_pos (by simp [Json.isNull]),
        eachFile_dir hfiles hchild, List.map_flatMap]
      simp only [List.map_map, Function.comp_def]

end Walk

/-! ### The two lookups -/

/-- `__getStats` accepts a path: the size that it reports is not that of a missing resource. -/
def StatsAccepts (root : Json) (path : Str) : Prop :=
  ∃ size isFile, res.getStats path root = .ok (size, isFile) ∧ size ≠ 2 ^ 64 - 1

/-- `getFile` succeeds at a path, where the archive can be opened and read. -/
def GetFileSucceeds (tree : FileTree) (path : Str) : Prop :=
  ∀ archive read, (∀ bytes start size, ∃ data, read bytes start size = .ok data) →
    ∃ result, getFileFrom tree (some archive) path {} read = .ok result ∧ result.status = .NE_ST_OK

section Lookups

variable {tree : FileTree} {path : Str} {members : List (Str × Json)} {rest : List Str}
  {size offset : ℕ}

/-- A size and an offset that fit their types. -/
def Fits (size offset : ℕ) : Prop := size < 2 ^ 63 ∧ offset < 2 ^ 31

lemma IsFile.unique {size' offset' : ℕ} (h : IsFile members size offset)
    (h' : IsFile members size' offset') : size = size' ∧ offset = offset' := by
  have hsize := Json.num.inj (h.size_eq.symm.trans h'.size_eq)
  have hoffset := decimal_injective (Json.str.inj (h.offset_eq.symm.trans h'.offset_eq))
  omega

/-- A reader that reads what it is asked for. -/
lemma GetFileSucceeds.greeting (h : GetFileSucceeds tree path) :
    ∃ result, getFileFrom tree (some greeting) path {} (fun _ _ _ => .ok []) = .ok result ∧
      result.status = .NE_ST_OK :=
  h _ _ fun _ _ _ => ⟨[], rfl⟩

/-- What `getFile` gives is that of a file whose size and offset fit their types. -/
lemma fits_of_getFileFrom {archive : Archive} {read : Str → ℕ → ℕ → Except Fault Str}
    {result : fs.FileReaderResult}
    (hseek : seekFilePos path tree.fileTree = .ok (size, decimal offset))
    (hsize : size < 2 ^ 64) (hget : getFileFrom tree (some archive) path {} read = .ok result)
    (hstatus : result.status = .NE_ST_OK) : Fits size offset := by
  by_contra hnot
  rcases getFileFrom_of_not_fits archive read hseek hsize hnot with hread | hread | hread
  · rw [hread] at hget
    rw [← Except.ok.inj hget] at hstatus
    cases hstatus
  all_goals
    rw [hread] at hget
    cases hget

/-- `getFile` at a file, whatever is left of the path: the size and the offset decide. -/
lemma getFileSucceeds_file_iff (h : WellFormed tree.fileTree)
    (hland : land tree.fileTree (segmentsOf path) = .file members rest)
    (hfile : IsFile members size offset) : GetFileSucceeds tree path ↔ Fits size offset := by
  have hseek := @seekFilePos_eq _ path h
  rw [hland] at hseek
  have hfinds := finds_iff (hseek size offset hfile) hfile.size_lt
  constructor
  · intro hsucceeds
    obtain ⟨result, hresult, hstatus⟩ := hsucceeds.greeting
    exact fits_of_getFileFrom (hseek size offset hfile) hfile.size_lt hresult hstatus
  · intro hfits archive read hread
    obtain ⟨data, hdata⟩ := hread archive.bytes
      ((tree.asarHeaderSize + offset + (applyFileReaderOptions size {}).1) % 2 ^ 64)
      (applyFileReaderOptions size {}).2
    rw [hfinds.mpr hfits archive {} read, hdata]
    exact ⟨_, rfl, rfl⟩

/-- `getFile` at a directory throws. -/
lemma not_getFileSucceeds_directory (h : WellFormed tree.fileTree)
    (hland : land tree.fileTree (segmentsOf path) = .directory) : ¬ GetFileSucceeds tree path := by
  have hseek := @seekFilePos_eq _ path h
  rw [hland] at hseek
  intro hsucceeds
  obtain ⟨result, hresult, -⟩ := hsucceeds.greeting
  rw [getFileFrom, show seekFilePos path tree.fileTree = _ from hseek] at hresult
  cases hresult

/-- `getFile` finds nothing where there is nothing. -/
lemma not_getFileSucceeds_missing (h : WellFormed tree.fileTree)
    (hland : land tree.fileTree (segmentsOf path) = .missing) : ¬ GetFileSucceeds tree path := by
  have hseek := @seekFilePos_eq _ path h
  rw [hland] at hseek
  intro hsucceeds
  obtain ⟨result, hresult, hstatus⟩ := hsucceeds.greeting
  rw [notFound_of_seekFilePos hseek] at hresult
  rw [← Except.ok.inj hresult] at hstatus
  cases hstatus

end Lookups

/-! ### Agreement -/

/-- A listing is exact: the paths of the entries of the tree, each once. -/
structure ListingExact (root : Json) (listing : List Str) : Prop where
  nodup : listing.Nodup
  mem_iff : ∀ path, path ∈ listing ↔ ∃ names, IsEntry root names ∧ path = pathOf names

/-- A listing agrees with the lookups at a path: `__getStats` accepts the path, unless
it is that of the root, if and only if it is listed; and `getFile` succeeds if and
only if it is listed, and `__getStats` tells that it is a file.  Repeated and
trailing slashes do not count. -/
structure ListingAgrees (tree : FileTree) (listing : List Str) (path : Str) : Prop where
  stats : segmentsOf path ≠ [] →
    (StatsAccepts tree.fileTree path ↔ pathOf (segmentsOf path) ∈ listing)
  getFile : GetFileSucceeds tree path ↔ pathOf (segmentsOf path) ∈ listing ∧
    ∃ size, res.getStats path tree.fileTree = .ok (size, true)

/-- The condition: where the segments of the path lead to a file, they end there if
and only if its size and its offset fit their types. -/
def ListingSafe (root : Json) (path : Str) : Prop :=
  ∀ members rest, land root (segmentsOf path) = .file members rest →
    ∀ size offset, IsFile members size offset → (rest = [] ↔ Fits size offset)

section Agreement

variable {tree : FileTree} {path : Str} {entries : List (List Str)} {members : List (Str × Json)}
  {rest : List Str}

lemma Enumerates.listingExact {root : Json} (h : Enumerates (IsEntry root) entries) :
    ListingExact root (entries.map pathOf) where
  nodup := by
    refine (List.nodup_map_iff_inj_on h.nodup).mpr fun names hnames names' hnames' => ?_
    exact pathOf_injective (h.isName names hnames) (h.isName names' hnames')
  mem_iff path := by
    simp only [List.mem_map, h.mem_iff]
    exact exists_congr fun names => and_congr_right fun _ => eq_comm

/-- A path is listed if its segments are those of an entry. -/
lemma Enumerates.mem_map_pathOf_iff {root : Json} (h : Enumerates (IsEntry root) entries) :
    pathOf (segmentsOf path) ∈ entries.map pathOf ↔ IsEntry root (segmentsOf path) := by
  rw [← h.mem_iff, List.mem_map]
  constructor
  · rintro ⟨names, hnames, heq⟩
    rwa [← pathOf_injective (h.isName names hnames) (fun _ => isName_of_mem_segmentsOf) heq]
  · exact fun hmem => ⟨_, hmem, rfl⟩

/-- Where the path leads to no file, the listing agrees with both lookups. -/
lemma listingAgrees_of_no_file (h : HeaderTree tree.fileTree)
    (hentries : Enumerates (IsEntry tree.fileTree) entries)
    (hnone : ∀ members rest, land tree.fileTree (segmentsOf path) ≠ .file members rest) :
    ListingAgrees tree (entries.map pathOf) path := by
  have hstats := @getStats_eq _ path h.wellFormed
  cases hland : land tree.fileTree (segmentsOf path) with
  | missing =>
      rw [hland] at hstats
      have hnot : ¬ IsEntry tree.fileTree (segmentsOf path) := by simp [IsEntry, hland]
      refine ⟨fun _ => iff_of_false ?_ (mt hentries.mem_map_pathOf_iff.mp hnot), iff_of_false
        (not_getFileSucceeds_missing h.wellFormed hland)
        fun hlisted => hnot (hentries.mem_map_pathOf_iff.mp hlisted.1)⟩
      rintro ⟨size, isFile, hgot, hsize⟩
      rw [show res.getStats path tree.fileTree = _ from hstats] at hgot
      cases hgot
      exact hsize rfl
  | directory =>
      rw [hland] at hstats
      refine ⟨fun hne => iff_of_true ⟨4096, false, hstats, by decide⟩ ?_, iff_of_false
        (not_getFileSucceeds_directory h.wellFormed hland) ?_⟩
      · exact hentries.mem_map_pathOf_iff.mpr ⟨hne, .inl hland⟩
      · rintro ⟨-, size, hgot⟩
        rw [show res.getStats path tree.fileTree = _ from hstats] at hgot
        cases hgot
  | file members rest => exact absurd hland (hnone members rest)

/-- Where the path ends at a file, the size and the offset of the file decide. -/
lemma listingAgrees_file_iff {size offset : ℕ} (h : HeaderTree tree.fileTree)
    (hentries : Enumerates (IsEntry tree.fileTree) entries)
    (hroot : land tree.fileTree [] = .directory)
    (hland : land tree.fileTree (segmentsOf path) = .file members [])
    (hfile : IsFile members size offset) :
    ListingAgrees tree (entries.map pathOf) path ↔ Fits size offset := by
  have hstats := @getStats_eq _ path h.wellFormed
  rw [hland] at hstats
  have hgot : res.getStats path tree.fileTree = .ok (size, true) := by
    simpa using hstats size offset hfile
  have hne : segmentsOf path ≠ [] := by
    intro hnil
    rw [hnil, hroot] at hland
    cases hland
  have hlisted := hentries.mem_map_pathOf_iff.mpr ⟨hne, .inr ⟨members, hland⟩⟩
  have hgetFile := getFileSucceeds_file_iff h.wellFormed hland hfile
  constructor
  · exact fun hagrees => hgetFile.mp (hagrees.getFile.mpr ⟨hlisted, size, hgot⟩)
  · intro hfits
    have hsize : size ≠ 2 ^ 64 - 1 := by
      have := hfits.1
      omega
    exact ⟨fun _ => iff_of_true ⟨size, true, hgot, hsize⟩ hlisted,
      iff_of_true (hgetFile.mpr hfits) ⟨hlisted, size, hgot⟩⟩

/-- Where something is left over after a file, `getFile` succeeds all the same. -/
lemma listingAgrees_rest_iff {size offset : ℕ} (h : HeaderTree tree.fileTree)
    (hentries : Enumerates (IsEntry tree.fileTree) entries)
    (hland : land tree.fileTree (segmentsOf path) = .file members rest) (hrest : rest ≠ [])
    (hfile : IsFile members size offset) :
    ListingAgrees tree (entries.map pathOf) path ↔ ¬ Fits size offset := by
  have hstats := @getStats_eq _ path h.wellFormed
  rw [hland] at hstats
  have hgot : res.getStats path tree.fileTree = .ok (2 ^ 64 - 1, false) := by
    simpa [hrest] using hstats size offset hfile
  have hnot : pathOf (segmentsOf path) ∉ entries.map pathOf := by
    rw [hentries.mem_map_pathOf_iff]
    simp [IsEntry, hland, hrest]
  have hgetFile := getFileSucceeds_file_iff h.wellFormed hland hfile
  constructor
  · exact fun hagrees hfits => hnot (hagrees.getFile.mp (hgetFile.mpr hfits)).1
  · intro hfits
    refine ⟨fun _ => iff_of_false ?_ hnot, iff_of_false (mt hgetFile.mp hfits) fun hl => hnot hl.1⟩
    rintro ⟨size', isFile, hgot', hsize'⟩
    rw [hgot] at hgot'
    cases hgot'
    exact hsize' rfl

/-- **The listing agrees with the lookups** at exactly the paths of the condition; it is
exact always.  The buffers of `getFile` are taken to be allocated, as in `getFileFrom`. -/
theorem listing_agrees_iff {mode : ResourceMode} (hmode : mode ≠ .dir) (h : HeaderTree tree.fileTree)
    (hroot : land tree.fileTree [] = .directory) (resourceFiles : Except Fault (List Str))
    (input : Json) : ∃ listing,
      res.getFiles mode tree.fileTree resourceFiles input =
        .ok (returned .null (.arr (listing.map .str))) ∧
      ∀ path, ListingExact tree.fileTree listing ∧ ListingAgrees tree listing path ↔
        ListingSafe tree.fileTree path := by
  obtain ⟨entries, hentries, hwalk⟩ := parseAllFiles_exact h
  refine ⟨entries.map pathOf, ?_, fun path => ?_⟩
  · rw [res.getFiles, if_neg hmode, hwalk []]
    rfl
  · rw [and_iff_right hentries.listingExact]
    cases hland : land tree.fileTree (segmentsOf path) with
    | missing =>
        refine iff_of_true (listingAgrees_of_no_file h hentries ?_) ?_
        · simp [hland]
        · simp [ListingSafe, hland]
    | directory =>
        refine iff_of_true (listingAgrees_of_no_file h hentries ?_) ?_
        · simp [hland]
        · simp [ListingSafe, hland]
    | file members rest =>
        obtain ⟨size, offset, hfile⟩ := exists_isFile_of_land h.wellFormed hland
        have hsafe : ListingSafe tree.fileTree path ↔ (rest = [] ↔ Fits size offset) := by
          rw [ListingSafe, hland]
          constructor
          · exact fun hall => hall members rest rfl size offset hfile
          · intro hone members' rest' heq size' offset' hfile'
            obtain ⟨rfl, rfl⟩ := Landing.file.inj heq
            obtain ⟨rfl, rfl⟩ := hfile.unique hfile'
            exact hone
        rw [hsafe]
        by_cases hrest : rest = []
        · subst hrest
          rw [listingAgrees_file_iff h hentries hroot hland hfile]
          simp
        · rw [listingAgrees_rest_iff h hentries hland hrest hfile]
          simp [hrest]

/-- The members of `app.js`. -/
lemma isFile_appJs : IsFile [("offset", .str "0"), ("size", .num 11)] 11 0 :=
  ⟨rfl, rfl, by decide, rfl⟩

lemma isName_of_all {name : Str} (h : (!name.isEmpty && name.all (· ≠ '/')) = true) : IsName name := by
  simp only [Bool.and_eq_true, List.all_eq_true, decide_eq_true_eq] at h
  exact ⟨by simpa using h.1, fun hslash => h.2 _ hslash rfl⟩

lemma nestedTree_headerTree : HeaderTree nestedTree.fileTree := by
  have hfile : HeaderTree (.obj [("offset", .str "0"), ("size", .num 11)]) := .file isFile_appJs
  have hdir : HeaderTree (.obj [("files", .obj [("app.js", .obj [("offset", .str "0"),
      ("size", .num 11)])])]) :=
    .dir rfl rfl (List.nodup_singleton _)
      (List.forall_mem_singleton.mpr (isName_of_all (by decide)))
      (List.forall_mem_singleton.mpr hfile)
  exact .dir rfl rfl (List.nodup_singleton _)
    (List.forall_mem_singleton.mpr (isName_of_all (by decide))) (List.forall_mem_singleton.mpr hdir)

/-- The file in its directory is listed and found, with slashes repeated. -/
theorem nested_file_listed : ∃ listing,
    res.getFiles .bundle nestedTree.fileTree (.ok []) .null =
      .ok (returned .null (.arr (listing.map .str))) ∧
    ListingExact nestedTree.fileTree listing ∧ ListingAgrees nestedTree listing "//js/app.js/" := by
  obtain ⟨listing, hgot, hagrees⟩ := listing_agrees_iff
    (show ResourceMode.bundle ≠ .dir by decide)
    nestedTree_headerTree rfl (.ok []) .null
  refine ⟨listing, hgot, (hagrees _).mpr fun members rest hland size offset hfile => ?_⟩
  obtain ⟨rfl, rfl⟩ := Landing.file.inj
    (show Landing.file [("offset", .str "0"), ("size", .num 11)] [] = .file members rest from hland)
  obtain ⟨rfl, rfl⟩ := hfile.unique isFile_appJs
  exact iff_of_true rfl ⟨by decide, by decide⟩

/-- A path that goes on after a file is not listed, and `getFile` succeeds at it. -/
theorem path_through_file_not_listed :
    ¬ ∀ (tree : FileTree) (mode : ResourceMode) (listing : List Str) (path : Str),
      HeaderTree tree.fileTree → land tree.fileTree [] = .directory → mode ≠ .dir →
      res.getFiles mode tree.fileTree (.ok []) .null = .ok (returned .null (.arr (listing.map .str))) →
        ListingExact tree.fileTree listing ∧ ListingAgrees tree listing path := by
  intro h
  obtain ⟨entries, hentries, hwalk⟩ := parseAllFiles_exact nestedTree_headerTree
  have hget : res.getFiles .bundle nestedTree.fileTree (.ok []) .null =
      .ok (returned .null (.arr ((entries.map pathOf).map .str))) := by
    rw [res.getFiles, if_neg (by decide), hwalk []]
    rfl
  have hagrees :=
    (h nestedTree .bundle _ "/js/app.js/x" nestedTree_headerTree rfl (by decide) hget).2
  have hland : land nestedTree.fileTree (segmentsOf "/js/app.js/x".toList) =
      .file [("offset", .str "0"), ("size", .num 11)] ["x"] := by rfl
  exact (listingAgrees_rest_iff nestedTree_headerTree hentries hland (by simp)
    isFile_appJs).mp hagrees
    ⟨by decide, by decide⟩

end Agreement

end resources

end Neutralino
