import Neutralino.Resources.Backends

/-!
Looking up a path in the header tree: `resources::getFile` and `res::__getStats`.

* `WellFormed`: a header tree, in which directories have `files`, and files have
  `size` and `offset`.
* `segmentsOf`, `land`: the segments of a path, and where they lead in a tree.
* `res.getStats`: the walk of `__getStats`.
* `WalksDown.foldlM_of_land`: where a walk ends; `walksDown_seekStep` and
  `walksDown_statsStep` for the two of the source.
* `exact_iff`: **when the lookup of a path is exact**.  `__seekFilePos` asks a
  directory for its size, and skips what is left of a path after a file.
-/

namespace Neutralino

namespace res

/-- One turn of the loop of `__getStats`; after a null node nothing changes. -/
def statsStep (node : Json) (pathSegment : Str) : Except Fault Json :=
  if pathSegment = [] ∨ node.isNull then .ok node
  else do (← node.index "files").index pathSegment

/-- `__getStats`: the size, and whether the path is that of a file; the size `-1`,
in an unsigned number, where there is nothing. -/
def getStats (path : Str) (fileTree : Json) : Except Fault (ℕ × Bool) := do
  let node ← (helpers.split path '/' none).foldlM statsStep fileTree
  if node.isNull then return (2 ^ 64 - 1, false)
  let isFile := (← node.index "files").isNull
  if isFile then return (toUnsigned (← (← node.index "size").getLong), true)
  else return (4096, false)

end res

namespace resources

/-! ### Where a path leads -/

/-- The members of a file: no `files`, a `size` and an `offset`. -/
structure IsFile (members : List (Str × Json)) (size offset : ℕ) : Prop where
  files_eq : Json.lookup "files" members = .null
  size_eq : Json.lookup "size" members = .num size
  size_lt : size < 2 ^ 64
  offset_eq : Json.lookup "offset" members = .str (decimal offset)

/-- A header tree: a directory has the object `files` and no size, and a file has
`size` and `offset`. -/
inductive WellFormed : Json → Prop
  | file {members : List (Str × Json)} {size offset : ℕ} :
      IsFile members size offset → WellFormed (.obj members)
  | dir {members files : List (Str × Json)} :
      Json.lookup "files" members = .obj files → Json.lookup "size" members = .null →
        (∀ entry ∈ files, WellFormed entry.2) → WellFormed (.obj members)

/-- The segments of a path that are not empty. -/
def segmentsOf (path : Str) : List Str := (path.splitOn '/').filter (· ≠ [])

/-- Where names lead in a tree: nowhere, to a directory, or to a file, with the
names that are left over. -/
inductive Landing where
  | missing
  | directory
  | file (members : List (Str × Json)) (rest : List Str)

/-- Where names lead from a node. -/
def land : Json → List Str → Landing
  | .obj members, [] =>
      if (Json.lookup "files" members).isNull then .file members [] else .directory
  | .obj members, name :: names =>
      match Json.lookup "files" members with
      | .obj files => land (Json.lookup name files) names
      | _ => .file members (name :: names)
  | _, _ => .missing

/-! ### The segments of a path -/

lemma filter_splitLoop (count : ℕ) (item : Option Str) (path : Str) :
    (helpers.splitLoop none count '/' item path).filter (· ≠ []) =
      ((path.splitOn '/').modifyHead (item.getD [] ++ ·)).filter (· ≠ []) := by
  induction path generalizing count item with
  | nil => cases item with
    | none => simp [helpers.splitLoop]
    | some item => simp [helpers.splitLoop]
  | cons c path ih =>
      rw [helpers.splitLoop, List.splitOn_cons_eq_if_modifyHead]
      by_cases hc : c = '/'
      · have hrest : ((path.splitOn '/').modifyHead ([] ++ ·)) = path.splitOn '/' := by
          cases path.splitOn '/' <;> rfl
        have htail := ih (count + 1) none
        simp only [Option.getD_none, hrest] at htail
        simp only [hc, if_true, beq_self_eq_true, List.modifyHead_cons, List.append_nil,
          List.filter_cons, reduceCtorEq, if_false, htail]
      · simp only [hc, if_false, ih, beq_iff_eq, List.modifyHead_modifyHead]
        simp [Function.comp_def]

/-- The tokens that are not empty are the segments. -/
lemma filter_split (path : Str) : (helpers.split path '/' none).filter (· ≠ []) = segmentsOf path := by
  have hrest : ((path.splitOn '/').modifyHead ([] ++ ·)) = path.splitOn '/' := by
    cases path.splitOn '/' <;> rfl
  rw [helpers.split, filter_splitLoop, Option.getD_none, hrest, segmentsOf]

/-- A walk that does not move at an empty token follows the segments. -/
lemma foldlM_split {step : Json → Str → Except Fault Json} (hstep : ∀ node, step node [] = .ok node)
    (path : Str) (node : Json) :
    (helpers.split path '/' none).foldlM step node = (segmentsOf path).foldlM step node := by
  rw [← filter_split]
  induction helpers.split path '/' none generalizing node with
  | nil => rfl
  | cons token tokens ih =>
      by_cases htoken : token = []
      · rw [htoken, List.foldlM_cons, hstep, ok_bind, ih]
        rfl
      · rw [List.filter_cons_of_pos (by simpa using htoken), List.foldlM_cons, List.foldlM_cons]
        exact congrArg _ (funext ih)

/-! ### The two walks -/

/-- The node of a directory. -/
def IsDirectory (node : Json) : Prop :=
  ∃ members files, node = .obj members ∧ Json.lookup "files" members = .obj files ∧
    Json.lookup "size" members = .null

section Walks

variable {members files : List (Str × Json)} {node : Json} {size offset : ℕ} {names : List Str}

/-- A member of the files of a directory is well formed, if it is there. -/
lemma wellFormed_lookup (h : ∀ entry ∈ files, WellFormed entry.2) (name : Str) :
    Json.lookup name files = .null ∨ WellFormed (Json.lookup name files) := by
  rw [Json.lookup]
  cases hfind : files.find? fun m => m.1 = name with
  | none => exact .inl rfl
  | some m => exact .inr (h m (List.mem_of_find?_eq_some hfind))

@[simp] lemma land_null (names : List Str) : land .null names = .missing := by
  cases names <;> rfl

lemma land_file (h : IsFile members size offset) (names : List Str) :
    land (.obj members) names = .file members names := by
  cases names with
  | nil =>
      rw [land, h.files_eq]
      rfl
  | cons name names => rw [land, h.files_eq]

lemma land_dir_nil (h : Json.lookup "files" members = .obj files) :
    land (.obj members) [] = .directory := by
  rw [land, h, if_neg (by simp [Json.isNull])]

lemma land_dir_cons (h : Json.lookup "files" members = .obj files) (name : Str) (names : List Str) :
    land (.obj members) (name :: names) = land (Json.lookup name files) names := by
  rw [land, h]

lemma index_eq (key : String) (members : List (Str × Json)) :
    (Json.obj members).index key = .ok (Json.lookup key members) := rfl

/-- A walk does not move at an empty name or where nothing is, and goes from a
directory to the member of its files; `arrive` says where it ends at a file. -/
structure WalksDown (step : Json → Str → Except Fault Json)
    (arrive : List (Str × Json) → List Str → Json) : Prop where
  stay : ∀ node, step node [] = .ok node
  null : ∀ name, step .null name = .ok .null
  dir : ∀ (members files : List (Str × Json)) (name : Str), name ≠ [] →
    Json.lookup "files" members = .obj files →
      step (.obj members) name = .ok (Json.lookup name files)
  file : ∀ members size offset (names : List Str), IsFile members size offset → [] ∉ names →
    names.foldlM step (.obj members) = .ok (arrive members names)

/-- The node at which a walk ends, by where it was led. -/
def EndsAt (arrive : List (Str × Json) → List Str → Json) (leaf : Json) : Landing → Prop
  | .missing => leaf = .null
  | .directory => IsDirectory leaf
  | .file members rest => leaf = arrive members rest ∧ ∃ size offset, IsFile members size offset

section Steps

variable {step : Json → Str → Except Fault Json} {arrive : List (Str × Json) → List Str → Json}

lemma foldlM_null (hstep : ∀ name, step .null name = .ok .null) (names : List Str) :
    names.foldlM step .null = .ok .null := by
  induction names with
  | nil => rfl
  | cons name names ih => rw [List.foldlM_cons, hstep, ok_bind, ih]

/-- **A walk** ends where the names lead. -/
theorem WalksDown.foldlM_of_land (hstep : WalksDown step arrive)
    (h : node = .null ∨ WellFormed node) (hnames : [] ∉ names) :
    ∃ leaf, names.foldlM step node = .ok leaf ∧ EndsAt arrive leaf (land node names) := by
  induction names generalizing node with
  | nil =>
      rcases h with rfl | h
      · exact ⟨.null, rfl, by rw [land_null, EndsAt]⟩
      · cases h with
        | file hfile =>
            refine ⟨_, hstep.file _ _ _ _ hfile hnames, ?_⟩
            rw [land_file hfile]
            exact ⟨rfl, _, _, hfile⟩
        | dir hfiles hsize hentries =>
            refine ⟨_, rfl, ?_⟩
            rw [land_dir_nil hfiles]
            exact ⟨_, _, rfl, hfiles, hsize⟩
  | cons name names ih =>
      rcases h with rfl | h
      · exact ⟨.null, foldlM_null hstep.null _, by rw [land_null, EndsAt]⟩
      · cases h with
        | file hfile =>
            refine ⟨_, hstep.file _ _ _ _ hfile hnames, ?_⟩
            rw [land_file hfile]
            exact ⟨rfl, _, _, hfile⟩
        | @dir members files hfiles hsize hentries =>
            obtain ⟨hname, hnames⟩ := not_or.mp (mt List.mem_cons.mpr hnames)
            rw [List.foldlM_cons, hstep.dir _ _ _ (Ne.symm hname) hfiles, ok_bind,
              land_dir_cons hfiles]
            exact ih (wellFormed_lookup hentries name) hnames

lemma nil_not_mem_segmentsOf (path : Str) : [] ∉ segmentsOf path := by
  simp [segmentsOf]

/-- The walk along a path ends where its segments lead. -/
lemma WalksDown.foldlM_split_of_land (hstep : WalksDown step arrive) (h : WellFormed node)
    (path : Str) : ∃ leaf, (helpers.split path '/' none).foldlM step node = .ok leaf ∧
      EndsAt arrive leaf (land node (segmentsOf path)) := by
  rw [foldlM_split hstep.stay]
  exact hstep.foldlM_of_land (.inr h) (nil_not_mem_segmentsOf path)

end Steps

/-- The walk of `__seekFilePos` stays at a file, whatever is left of the names. -/
lemma walksDown_seekStep : WalksDown seekStep fun members _ => .obj members where
  stay node := by rw [seekStep, if_pos (.inl rfl)]
  null name := by rw [seekStep, if_pos (.inr rfl)]
  dir members files name hname hfiles := by
    rw [seekStep, if_neg (by simp [hname, Json.isNull]), index_eq, hfiles, ok_bind]
    rfl
  file members size offset names hfile hnames := by
    have hstep : ∀ name, seekStep (.obj members) name = .ok (.obj members) := by
      intro name
      rw [seekStep, index_eq, hfile.files_eq, ok_bind]
      split_ifs with hskip hnull
      · rfl
      · rfl
      · exact absurd rfl hnull
    clear hnames
    induction names with
    | nil => rfl
    | cons name names ih => rw [List.foldlM_cons, hstep, ok_bind, ih]

/-- The walk of `__getStats` ends nowhere if names are left over at a file. -/
lemma walksDown_statsStep :
    WalksDown res.statsStep fun members rest => if rest = [] then .obj members else .null where
  stay node := by rw [res.statsStep, if_pos (.inl rfl)]
  null name := by rw [res.statsStep, if_pos (.inr rfl)]
  dir members files name hname hfiles := by
    rw [res.statsStep, if_neg (by simp [hname, Json.isNull]), index_eq, hfiles, ok_bind]
    rfl
  file members size offset names hfile hnames := by
    cases names with
    | nil => rfl
    | cons name names =>
        obtain ⟨hname, -⟩ := not_or.mp (mt List.mem_cons.mpr hnames)
        have hstep : res.statsStep (.obj members) name = .ok .null := by
          rw [res.statsStep, if_neg (by simp [Ne.symm hname, Json.isNull]), index_eq,
            hfile.files_eq, ok_bind]
          rfl
        rw [List.foldlM_cons, hstep, ok_bind, if_neg (List.cons_ne_nil _ _)]
        exact foldlM_null (fun name => by rw [res.statsStep, if_pos (.inr rfl)]) names

end Walks

/-! ### What the lookups return -/

section Results

variable {root : Json} {path : Str}

/-- What `__seekFilePos` returns: a directory has no size to return, and what is
left of the path after a file does not matter. -/
lemma seekFilePos_eq (h : WellFormed root) :
    match land root (segmentsOf path) with
    | .missing => seekFilePos path root = .ok (2 ^ 64 - 1, [])
    | .directory => seekFilePos path root = .error .typeError
    | .file members _ => ∀ size offset, IsFile members size offset →
        seekFilePos path root = .ok (size, decimal offset) := by
  obtain ⟨leaf, hwalk, hleaf⟩ := walksDown_seekStep.foldlM_split_of_land h path
  rw [seekFilePos, hwalk, ok_bind]
  cases hland : land root (segmentsOf path) with
  | missing =>
      rw [hland] at hleaf
      rw [show leaf = .null from hleaf]
      rfl
  | directory =>
      rw [hland] at hleaf
      obtain ⟨members, files, rfl, -, hsize⟩ := hleaf
      dsimp only
      rw [if_neg (by simp [Json.isNull]), index_eq, hsize]
      rfl
  | file members rest =>
      rw [hland] at hleaf
      obtain ⟨rfl, -⟩ := hleaf
      intro size offset hfile
      have hunsigned : toUnsigned (size : ℤ) = size := toUnsigned_natCast hfile.size_lt
      rw [if_neg (by simp [Json.isNull]), index_eq, hfile.size_eq, index_eq, hfile.offset_eq]
      simp only [ok_bind, Json.getLong, Json.getString, hunsigned]
      rfl

/-- What `__getStats` returns. -/
lemma getStats_eq (h : WellFormed root) :
    match land root (segmentsOf path) with
    | .missing => res.getStats path root = .ok (2 ^ 64 - 1, false)
    | .directory => res.getStats path root = .ok (4096, false)
    | .file members rest => ∀ size offset, IsFile members size offset →
        res.getStats path root = .ok (if rest = [] then (size, true) else (2 ^ 64 - 1, false)) := by
  obtain ⟨leaf, hwalk, hleaf⟩ := walksDown_statsStep.foldlM_split_of_land h path
  rw [res.getStats, hwalk, ok_bind]
  cases hland : land root (segmentsOf path) with
  | missing =>
      rw [hland] at hleaf
      rw [show leaf = .null from hleaf]
      rfl
  | directory =>
      rw [hland] at hleaf
      obtain ⟨members, files, rfl, hfiles, -⟩ := hleaf
      dsimp only
      rw [if_neg (by simp [Json.isNull]), index_eq, hfiles]
      rfl
  | file members rest =>
      rw [hland] at hleaf
      intro size offset hfile
      have hunsigned : toUnsigned (size : ℤ) = size := toUnsigned_natCast hfile.size_lt
      rw [show leaf = if rest = [] then .obj members else .null from hleaf.1]
      by_cases hrest : rest = []
      · rw [if_pos hrest, if_pos hrest, if_neg (by simp [Json.isNull]), index_eq, hfile.files_eq,
          ok_bind, index_eq, hfile.size_eq]
        simp only [ok_bind, Json.getLong, hunsigned]
        rfl
      · rw [if_neg hrest, if_neg hrest]
        rfl

end Results

/-! ### Exactness -/

/-- A path is found: both readers read at the offset and for the size of a file. -/
def Finds (tree : FileTree) (path : Str) (size offset : ℕ) : Prop :=
  ∀ archive options read, getFileFrom tree (some archive) path options read = (do
    let data ← read archive.bytes
      ((tree.asarHeaderSize + offset + (applyFileReaderOptions size options).1) % 2 ^ 64)
      (applyFileReaderOptions size options).2
    return { data := data, size := size })

/-- A path is not found: both readers return `NE_RS_NOPATHE`. -/
def NotFound (tree : FileTree) (path : Str) : Prop :=
  ∀ archive options read, getFileFrom tree archive path options read =
    .ok { status := .NE_RS_NOPATHE }

/-- The lookup of a path is exact: it is found where its segments lead to a file
with none left over, with the size and the offset there, and not found
elsewhere; and `__getStats` reports a file, with this size, for the same paths. -/
structure LookupExact (tree : FileTree) (path : Str) : Prop where
  found : ∀ members size offset, land tree.fileTree (segmentsOf path) = .file members [] →
    IsFile members size offset → Finds tree path size offset
  notFound : (∀ members, land tree.fileTree (segmentsOf path) ≠ .file members []) →
    NotFound tree path
  stats : ∃ size isFile, res.getStats path tree.fileTree = .ok (size, isFile) ∧
    ∀ size', (isFile = true ∧ size = size') ↔ ∃ offset, Finds tree path size' offset

/-- The condition: the segments of the path do not lead to a directory; at a file
none is left over, unless the size of the file is the number for a missing
one; and the size and the offset of a file that is found fit their types. -/
def LookupSafe (root : Json) (path : Str) : Prop :=
  match land root (segmentsOf path) with
  | .missing => True
  | .directory => False
  | .file members rest => ∀ size offset, IsFile members size offset →
      if rest = [] then size < 2 ^ 63 ∧ offset < 2 ^ 31 else size = 2 ^ 64 - 1

section Exactness

variable {tree : FileTree} {path : Str} {size offset : ℕ}

/-- A read that fails tells what is found from what is not. -/
lemma Finds.not_notFound (h : Finds tree path size offset) : ¬ NotFound tree path := by
  intro hnot
  have heq := (h greeting {} fun _ _ _ => .error .typeError).symm.trans (hnot _ _ _)
  cases heq

/-- A path is found with one size. -/
lemma Finds.size_unique {size' offset' : ℕ} (h : Finds tree path size offset)
    (h' : Finds tree path size' offset') : size = size' := by
  have heq := (h greeting {} fun _ _ _ => .ok []).symm.trans (h' greeting {} fun _ _ _ => .ok [])
  have hsize := congrArg fs.FileReaderResult.size (Except.ok.inj heq)
  have : (size : ℤ) = size' := hsize
  omega

lemma toSigned_eq_neg_one_iff (h : size < 2 ^ 64) : toSigned size = -1 ↔ size = 2 ^ 64 - 1 := by
  unfold toSigned
  omega

/-- A file whose size or offset does not fit its type is not read. -/
lemma getFileFrom_of_not_fits (archive : Archive) (read : Str → ℕ → ℕ → Except Fault Str)
    (hseek : seekFilePos path tree.fileTree = .ok (size, decimal offset)) (hsize : size < 2 ^ 64)
    (hnot : ¬ (size < 2 ^ 63 ∧ offset < 2 ^ 31)) :
    getFileFrom tree (some archive) path {} read = .ok { status := .NE_RS_NOPATHE } ∨
      getFileFrom tree (some archive) path {} read = .error .outOfRange ∨
        getFileFrom tree (some archive) path {} read = .error .badAlloc := by
  by_cases hmissing : toSigned size = -1
  · left
    rw [getFileFrom, hseek, ok_bind]
    simp only [hmissing, if_true]
    rfl
  by_cases hoffset : offset < 2 ^ 31
  · right; right
    -- a size that is negative as a `long` makes the buffer too large
    have hbuffer : 2 ^ 63 ≤ (applyFileReaderOptions (toSigned size) {}).2 := by
      simp only [applyFileReaderOptions, toUnsigned, toSigned]
      split_ifs
      all_goals omega
    rw [getFileFrom, hseek, ok_bind]
    simp only [hmissing, if_false, stoi_decimal hoffset, ok_bind, hbuffer, if_true]
  · right; left
    rw [getFileFrom, hseek, ok_bind]
    simp only [hmissing, if_false, stoi_decimal_of_le (not_lt.mp hoffset), error_bind]

/-- A path with this size and offset is found exactly if they fit their types. -/
lemma finds_iff (hseek : seekFilePos path tree.fileTree = .ok (size, decimal offset))
    (hsize : size < 2 ^ 64) : Finds tree path size offset ↔ size < 2 ^ 63 ∧ offset < 2 ^ 31 := by
  constructor
  · intro h
    have heq := h greeting {} fun _ _ _ => .error .typeError
    by_contra hnot
    rcases getFileFrom_of_not_fits greeting _ hseek hsize hnot with hread | hread | hread
    all_goals
      rw [hread] at heq
      cases heq
  · rintro ⟨hsmall, hoffset⟩ archive options read
    have hfirst : toSigned size = size := toSigned_of_lt hsmall
    have huOffset : toUnsigned (offset : ℤ) = offset := toUnsigned_natCast (by omega)
    have hread : ¬ 2 ^ 63 ≤ (applyFileReaderOptions size options).2 := by
      simp only [applyFileReaderOptions, toUnsigned]
      split_ifs
      all_goals omega
    rw [getFileFrom, hseek, ok_bind]
    simp only [hfirst, stoi_decimal hoffset, ok_bind, huOffset]
    rw [if_neg (by omega), if_neg hread]

/-- A path that leads nowhere by `__seekFilePos` is not found. -/
lemma notFound_of_seekFilePos {offset : Str}
    (hseek : seekFilePos path tree.fileTree = .ok (2 ^ 64 - 1, offset)) : NotFound tree path := by
  intro archive options read
  rw [getFileFrom, hseek, ok_bind]
  rfl

/-- The members a path leads to are those of a file. -/
lemma exists_isFile_of_land {members : List (Str × Json)} {rest : List Str}
    (h : WellFormed tree.fileTree) (hland : land tree.fileTree (segmentsOf path) = .file members rest) :
    ∃ size offset, IsFile members size offset := by
  obtain ⟨leaf, -, hleaf⟩ := walksDown_seekStep.foldlM_split_of_land h path
  rw [hland] at hleaf
  exact hleaf.2

/-- The lookup of a path that leads to no file is exact if nothing is found. -/
lemma lookupExact_of_notFound
    (hnone : ∀ members, land tree.fileTree (segmentsOf path) ≠ .file members [])
    (hnot : NotFound tree path) (hstats : res.getStats path tree.fileTree = .ok (size, false)) :
    LookupExact tree path := by
  refine ⟨fun members _ _ hland => absurd hland (hnone members), fun _ => hnot, size, false, hstats,
    fun size' => ?_⟩
  exact iff_of_false (fun hfile => nomatch hfile.1) fun ⟨_, hfinds⟩ => hfinds.not_notFound hnot

/-- The lookup of a path that leads to a file is exact if the file is found. -/
lemma lookupExact_of_finds {members : List (Str × Json)}
    (hland : land tree.fileTree (segmentsOf path) = .file members [])
    (hfile : IsFile members size offset)
    (hfound : ∀ size offset, IsFile members size offset → Finds tree path size offset)
    (hstats : res.getStats path tree.fileTree = .ok (size, true)) : LookupExact tree path := by
  refine ⟨?_, fun hnone => absurd hland (hnone members), size, true, hstats, fun size' => ?_⟩
  · intro members' size offset hland' hfile'
    obtain ⟨rfl, -⟩ : members = members' ∧ True := by
      rw [hland] at hland'
      simpa using hland'
    exact hfound size offset hfile'
  · constructor
    · rintro ⟨-, rfl⟩
      exact ⟨offset, hfound size offset hfile⟩
    · rintro ⟨offset', hfinds'⟩
      exact ⟨rfl, (hfound size offset hfile).size_unique hfinds'⟩

/-- At a file: the size and the offset fit their types. -/
lemma exact_file_iff {members : List (Str × Json)} (h : WellFormed tree.fileTree)
    (hland : land tree.fileTree (segmentsOf path) = .file members []) :
    LookupExact tree path ↔
      ∀ size offset, IsFile members size offset → size < 2 ^ 63 ∧ offset < 2 ^ 31 := by
  have hseek := @seekFilePos_eq _ path h
  have hstats := @getStats_eq _ path h
  rw [hland] at hseek hstats
  have hfinds : ∀ size offset, IsFile members size offset →
      (Finds tree path size offset ↔ size < 2 ^ 63 ∧ offset < 2 ^ 31) :=
    fun size offset hfile => finds_iff (hseek size offset hfile) hfile.size_lt
  constructor
  · intro hexact size offset hfile
    exact (hfinds size offset hfile).mp (hexact.found members size offset hland hfile)
  · intro hsafe
    obtain ⟨size, offset, hfile⟩ := exists_isFile_of_land h hland
    exact lookupExact_of_finds hland hfile
      (fun size offset hfile => (hfinds size offset hfile).mpr (hsafe size offset hfile))
      (by simpa using hstats size offset hfile)

/-- With something left over after a file, the file is found all the same, unless its
size is the number for a missing one. -/
lemma exact_rest_iff {members : List (Str × Json)} {rest : List Str} (h : WellFormed tree.fileTree)
    (hland : land tree.fileTree (segmentsOf path) = .file members rest) (hrest : rest ≠ []) :
    LookupExact tree path ↔ ∀ size offset, IsFile members size offset → size = 2 ^ 64 - 1 := by
  have hseek := @seekFilePos_eq _ path h
  have hstats := @getStats_eq _ path h
  rw [hland] at hseek hstats
  have hnone : ∀ members', land tree.fileTree (segmentsOf path) ≠ .file members' [] := by
    simp [hland, hrest]
  constructor
  · intro hexact size offset hfile
    have hnot := hexact.notFound hnone none {} fun _ _ _ => .ok []
    rw [getFileFrom, hseek size offset hfile, ok_bind] at hnot
    by_cases hmissing : toSigned size = -1
    · exact (toSigned_eq_neg_one_iff hfile.size_lt).mp hmissing
    · simp only [hmissing, if_false] at hnot
      cases hnot
  · intro hsafe
    obtain ⟨size, offset, hfile⟩ := exists_isFile_of_land h hland
    have hnot := notFound_of_seekFilePos (hsafe size offset hfile ▸ hseek size offset hfile)
    exact lookupExact_of_notFound hnone hnot (by simpa [hrest] using hstats size offset hfile)

/-- **The lookup of a path is exact** exactly under the condition, with memory for the buffers
that `getFileFrom` reads into. -/
theorem exact_iff (h : WellFormed tree.fileTree) :
    LookupExact tree path ↔ LookupSafe tree.fileTree path := by
  have hseek := @seekFilePos_eq _ path h
  have hstats := @getStats_eq _ path h
  rw [LookupSafe]
  cases hland : land tree.fileTree (segmentsOf path) with
  | missing =>
      rw [hland] at hseek hstats
      exact iff_of_true (lookupExact_of_notFound (by simp [hland])
        (notFound_of_seekFilePos hseek) hstats) trivial
  | directory =>
      rw [hland] at hseek
      refine iff_of_false (fun hexact => ?_) id
      have hnot := hexact.notFound (by simp [hland]) none {} fun _ _ _ => .ok []
      rw [getFileFrom, show seekFilePos path tree.fileTree = _ from hseek] at hnot
      cases hnot
  | file members rest =>
      by_cases hrest : rest = []
      · subst hrest
        simpa using exact_file_iff h hland
      · simpa [hrest] using exact_rest_iff h hland hrest

lemma zero_lt_headerSize : 0 < 2 ^ 32 := by decide

/-- A tree with one file in a directory. -/
def nestedTree : FileTree where
  fileTree := .obj [("files", .obj [("js", .obj [("files", .obj
    [("app.js", .obj [("offset", .str "0"), ("size", .num 11)])])])])]
  asarHeaderSize_lt := zero_lt_headerSize

lemma nestedTree_wellFormed : WellFormed nestedTree.fileTree := by
  refine .dir rfl rfl (List.forall_mem_singleton.mpr ?_)
  refine .dir rfl rfl (List.forall_mem_singleton.mpr ?_)
  exact @WellFormed.file _ 11 0 ⟨rfl, rfl, by decide, rfl⟩

/-- The file is found, with slashes repeated. -/
theorem nested_file_exact : LookupExact nestedTree "//js/app.js/" := by
  refine (exact_iff nestedTree_wellFormed).mpr ?_
  have hland : land nestedTree.fileTree (segmentsOf "//js/app.js/".toList) =
      .file [("offset", .str "0"), ("size", .num 11)] [] := by rfl
  rw [LookupSafe, hland]
  intro size offset hfile
  have hsize : Json.num 11 = .num size := hfile.size_eq
  have hoffset : Json.str "0" = .str (decimal offset) := hfile.offset_eq
  refine ⟨by have := Json.num.inj hsize; omega, ?_⟩
  by_contra hlarge
  have hstoi := stoi_decimal_of_le (not_lt.mp hlarge)
  rw [← Json.str.inj hoffset] at hstoi
  have hzero : stoi "0".toList = .ok 0 := by rfl
  rw [hzero] at hstoi
  cases hstoi

/-- A path that goes on after the file finds it. -/
theorem path_through_file_found :
    ¬ ∀ (tree : FileTree) (path : Str), WellFormed tree.fileTree → LookupExact tree path := by
  intro h
  have hland : land nestedTree.fileTree (segmentsOf "/js/app.js/x".toList) =
      .file [("offset", .str "0"), ("size", .num 11)] ["x"] := by rfl
  have hnone : ∀ members, land nestedTree.fileTree (segmentsOf "/js/app.js/x".toList) ≠
      .file members [] := by
    intro members heq
    rw [hland] at heq
    cases heq
  have hnot := (h nestedTree "/js/app.js/x" nestedTree_wellFormed).notFound hnone none {}
    fun _ _ _ => .ok []
  have hfound : getFileFrom nestedTree none "/js/app.js/x" {} (fun _ _ _ => .ok []) =
      .ok { status := .NE_RS_TREEGER } := by rfl
  rw [hfound] at hnot
  cases hnot

end Exactness

end resources

end Neutralino
