import Neutralino.Resources.Backends

/-!
Resource archives: how `__makeBundleFileTree` and `__makeEmbeddedFileTree` read
the header of one, and what becomes of the files of a tree.

* `makeBundleFileTree`, `makeEmbeddedFileTree`: the two loaders; the JSON parser
  is a parameter.
* `archiveText`: the bytes of an archive.
* `ReadsBack`: every file of a tree is read back from an archive.
* `readsBack_iff`: **when an archive is read back**.  The header size is kept in
  32 bits, and sixteen is added to it there.
-/

namespace Neutralino.resources

open FilePath (Name)

/-! ### The loaders -/

/-- `json::parse` with its exceptions caught: what was not parsed stays null. -/
def parseHeader (parse : Str → Option Json) (headerContent : Str) : Json :=
  (parse headerContent).getD .null

/-- `*(unsigned int *)(sizeBuf + 4) - 8`. -/
def headerSize (bytes : Str) : ℕ := (readU32le (bytes.drop 4) + (2 ^ 32 - 8)) % 2 ^ 32

/-- The file tree that a header gives. -/
def treeOf (parse : Str → Option Json) (size : ℕ) (headerContent : Str) : FileTree where
  fileTree := parseHeader parse headerContent
  asarHeaderSize := (size + 16) % 2 ^ 32
  asarHeaderSize_lt := Nat.mod_lt _ (by decide)

/-- `__makeBundleFileTree`: whether the tree was made, and the tree. -/
def makeBundleFileTree (parse : Str → Option Json) (tree : FileTree) (archive : Option Archive) :
    Bool × FileTree :=
  match archive with
  | none => (false, tree)
  | some archive =>
      let size := headerSize archive.bytes
      let tree := treeOf parse size (fillBuffer size (archive.bytes.drop 16))
      (!tree.fileTree.isNull, tree)

/-- `__makeEmbeddedFileTree`: the header is copied up to an end that is computed
in 32 bits; past the end of the blob this is undefined. -/
def makeEmbeddedFileTree (parse : Str → Option Json) (tree : FileTree) (archive : Option Archive) :
    Except Fault (Bool × FileTree) :=
  match archive with
  | none => .ok (false, tree)
  | some archive =>
      let size := headerSize archive.bytes
      let bound := (16 + size) % 2 ^ 32
      if archive.bytes.length < bound then .error .undefinedBehaviour
      else
        let tree := treeOf parse size
          (fillBuffer size ((archive.bytes.drop 16).take (bound - 16)))
        .ok (!tree.fileTree.isNull, tree)

/-! ### Archives -/

/-- The length of a header text, filled up to a multiple of four. -/
def paddedLength (header : Str) : ℕ := 4 * ((header.length + 3) / 4)

/-- The bytes of an archive: four numbers, the header text filled up with zeros,
and the payload. -/
def archiveText (header payload : Str) : Str :=
  u32le 4 ++ (u32le (8 + paddedLength header) ++ (u32le (4 + paddedLength header) ++
    (u32le header.length ++ (header ++
      (List.replicate (paddedLength header - header.length) '\x00' ++ payload)))))

/-- The archive with these bytes. -/
def archiveOf (header payload : Str) (h : (archiveText header payload).length < 2 ^ 63) : Archive where
  bytes := archiveText header payload
  length_ge := by simp [archiveText]; omega
  length_lt := h

/-- Up to three zeros after a header text do not disturb the parser. -/
def ParsesPadded (parse : Str → Option Json) (text : Str) (header : Json) : Prop :=
  ∀ k ≤ 3, parse (text ++ List.replicate k '\x00') = some header

/-- Every file of a tree is read back, through both loaders and their readers. -/
def ReadsBack (parse : Str → Option Json) (archive : Archive) (tree : Tree) : Prop :=
  ∀ initial names content, tree.Has names content →
    getFileFromBundle (makeBundleFileTree parse initial (some archive)).2 (some archive)
        (pathText names) {} = .ok { data := content, size := content.length } ∧
      ∃ loaded made, makeEmbeddedFileTree parse initial (some archive) = .ok (loaded, made) ∧
        getFileFromEmbedded made (some archive) (pathText names) {} =
          .ok { data := content, size := content.length }

/-! ### Reading the header -/

section Reading

variable {parse : Str → Option Json} {text payload : Str} {header : Json} {tree : Tree}

lemma length_le_paddedLength (text : Str) :
    text.length ≤ paddedLength text ∧ paddedLength text ≤ text.length + 3 := by
  unfold paddedLength
  omega

lemma drop_archiveText (text payload : Str) :
    (archiveText text payload).drop 16 =
      text ++ List.replicate (paddedLength text - text.length) '\x00' ++ payload := by
  simp [archiveText, u32le]

lemma headerSize_archiveText (text payload : Str) :
    headerSize (archiveText text payload) = paddedLength text % 2 ^ 32 := by
  have hdrop : (archiveText text payload).drop 4 =
      u32le (8 + paddedLength text) ++ (archiveText text payload).drop 8 := by
    simp [archiveText, u32le]
  rw [headerSize, hdrop, readU32le_append]
  omega

/-- The header text, filled up, is what is read of an archive of this size. -/
lemma fillBuffer_header :
    fillBuffer (paddedLength text) ((archiveText text payload).drop 16) =
      text ++ List.replicate (paddedLength text - text.length) '\x00' := by
  have hle := length_le_paddedLength text
  have hlen : (text ++ List.replicate (paddedLength text - text.length) '\x00').length =
      paddedLength text := by
    rw [List.length_append, List.length_replicate]
    omega
  rw [drop_archiveText, fillBuffer, List.take_append_of_le_length (le_of_eq hlen.symm),
    List.take_of_length_le (le_of_eq hlen), List.length_append, hlen,
    Nat.sub_eq_zero_of_le (Nat.le_add_right _ _), List.replicate_zero, List.append_nil]

/-- Both loaders read the whole header as long as its end fits in 32 bits. -/
lemma makeFileTree_of_lt (hparse : ParsesPadded parse text header)
    (h : (archiveText text payload).length < 2 ^ 63) (hlt : paddedLength text + 16 < 2 ^ 32)
    (initial : FileTree) :
    ∃ made : FileTree, made.fileTree = header ∧ made.asarHeaderSize = paddedLength text + 16 ∧
      (makeBundleFileTree parse initial (some (archiveOf text payload h))).2 = made ∧
      ∃ loaded, makeEmbeddedFileTree parse initial (some (archiveOf text payload h)) =
        .ok (loaded, made) := by
  have hle := length_le_paddedLength text
  have hsize : headerSize (archiveOf text payload h).bytes = paddedLength text := by
    rw [archiveOf, headerSize_archiveText, Nat.mod_eq_of_lt (by omega)]
  have hbound : (16 + paddedLength text) % 2 ^ 32 = 16 + paddedLength text :=
    Nat.mod_eq_of_lt (by omega)
  have hlength : ¬ (archiveOf text payload h).bytes.length < 16 + paddedLength text := by
    simp only [archiveOf, archiveText, List.length_append, length_u32le, List.length_replicate]
    omega
  have htake : fillBuffer (paddedLength text)
      (((archiveOf text payload h).bytes.drop 16).take (16 + paddedLength text - 16)) =
      fillBuffer (paddedLength text) ((archiveOf text payload h).bytes.drop 16) := by
    have hfull : (((archiveOf text payload h).bytes.drop 16).take (paddedLength text)).length =
        paddedLength text := by
      rw [List.length_take, List.length_drop]
      omega
    have hzero : paddedLength text - ((archiveOf text payload h).bytes.drop 16).length = 0 := by
      rw [List.length_drop]
      omega
    rw [Nat.add_sub_cancel_left, fillBuffer, fillBuffer, hfull, hzero, Nat.sub_self, List.take_take,
      Nat.min_self]
  have hmade : parseHeader parse (fillBuffer (paddedLength text)
      ((archiveOf text payload h).bytes.drop 16)) = header := by
    rw [archiveOf, fillBuffer_header, parseHeader, hparse _ (by omega)]
    rfl
  refine ⟨treeOf parse (paddedLength text)
    (fillBuffer (paddedLength text) ((archiveOf text payload h).bytes.drop 16)), hmade,
    Nat.mod_eq_of_lt (by omega), ?_, ?_⟩
  · simp only [makeBundleFileTree, hsize]
  · simp only [makeEmbeddedFileTree, hsize, hbound, if_neg hlength, htake]
    exact ⟨_, rfl⟩

/-- What the tree holds, the archive holds. -/
lemma holds_archiveOf (hlays : Lays payload tree header) (hpayload : payload.length < 2 ^ 31)
    (h : (archiveText text payload).length < 2 ^ 63) {made : FileTree}
    (hheader : made.fileTree = header) (hsize : made.asarHeaderSize = paddedLength text + 16)
    {names : List Name} {content : Str} (hhas : tree.Has names content) :
    ∃ offset, Holds made (archiveOf text payload h) (pathText names) content offset := by
  obtain ⟨offset, hseek, hle, hprefix⟩ := seekFilePos_of_has hhas hlays
  have hbase : (archiveText text payload).drop (paddedLength text + 16) = payload := by
    have hpadded := length_le_paddedLength text
    rw [Nat.add_comm, ← List.drop_drop, drop_archiveText, List.drop_left']
    rw [List.length_append, List.length_replicate]
    omega
  refine ⟨offset, hheader ▸ hseek, by omega, ?_⟩
  rw [hsize, ← List.drop_drop]
  exact hbase.symm ▸ hprefix

end Reading

/-! ### Losing the header -/

/-- The parser that knows one text. -/
def parseOnly (text : Str) (header : Json) (s : Str) : Option Json :=
  if s ∈ (List.range 4).map fun k => text ++ List.replicate k '\x00' then some header else none

lemma parsesPadded_parseOnly (text : Str) (header : Json) :
    ParsesPadded (parseOnly text header) text header := by
  intro k hk
  rw [parseOnly, if_pos]
  exact List.mem_map_of_mem (List.mem_range.mpr (by omega))

/-- What is too short, or begins otherwise, is not parsed. -/
lemma parseHeader_parseOnly {text s : Str} {header : Json}
    (h : s.length < text.length ∨ s.head? ≠ text.head? ∧ text ≠ []) :
    parseHeader (parseOnly text header) s = .null := by
  rw [parseHeader, parseOnly, if_neg]
  · rfl
  · intro hmem
    obtain ⟨k, -, rfl⟩ := List.mem_map.mp hmem
    rcases h with hlt | ⟨hhead, hne⟩
    · rw [List.length_append] at hlt
      omega
    · exact hhead (List.head?_append_of_ne_nil _ hne)

/-- An archive without a tree has no file. -/
lemma getFileFrom_of_null {made : FileTree} (h : made.fileTree = .null) (archive : Option Archive)
    (filename : Str) (options : fs.FileReaderOptions) (read : Str → ℕ → ℕ → Except Fault Str) :
    getFileFrom made archive filename options read = .ok { status := .NE_RS_NOPATHE } := by
  have hseek : seekFilePos filename made.fileTree = .ok (2 ^ 64 - 1, []) := by
    have hfold : ∀ segments : List Str, segments.foldlM seekStep Json.null = .ok .null := by
      intro segments
      induction segments with
      | nil => rfl
      | cons segment segments ih =>
          rw [List.foldlM_cons, seekStep, if_pos (.inr rfl), ok_bind]
          exact ih
    rw [seekFilePos, h, hfold, ok_bind, if_pos (show Json.null.isNull = true from rfl)]
    rfl
  rw [getFileFrom, hseek, ok_bind]
  rfl

/-- Past 32 bits, the embedded loader loses the header. -/
lemma makeEmbeddedFileTree_of_le {text payload : Str} {header : Json}
    (h : (archiveText text payload).length < 2 ^ 63) (htext : text.head? = some '\x7b')
    (hle : 2 ^ 32 ≤ paddedLength text + 16) {initial made : FileTree} {loaded : Bool}
    (hmade : makeEmbeddedFileTree (parseOnly text header) initial (some (archiveOf text payload h)) =
      .ok (loaded, made)) : made.fileTree = .null := by
  have hpadded := length_le_paddedLength text
  have hne : text ≠ [] := by
    rintro rfl
    simp at htext
  simp only [makeEmbeddedFileTree, archiveOf, headerSize_archiveText] at hmade
  split_ifs at hmade
  obtain ⟨-, rfl⟩ := Prod.mk.inj (Except.ok.inj hmade)
  refine parseHeader_parseOnly ?_
  rcases lt_or_ge (paddedLength text) (2 ^ 32) with hlt | hge
  · -- the end of the header is computed to lie before its beginning
    refine .inr ⟨?_, hne⟩
    have hbound : (16 + paddedLength text % 2 ^ 32) % 2 ^ 32 - 16 = 0 := by omega
    obtain ⟨n, hn⟩ : ∃ n, paddedLength text % 2 ^ 32 = n + 1 := ⟨_, (Nat.succ_pred (by omega)).symm⟩
    rw [hbound, hn, List.take_zero, fillBuffer, List.take_nil, htext]
    simp [List.replicate_succ]
  · -- the size of the header is the rest of its division
    refine .inl ?_
    rw [length_fillBuffer]
    have hmod := Nat.mod_lt (paddedLength text) (y := 2 ^ 32) (by decide)
    unfold paddedLength at hge hmod ⊢
    omega

lemma not_readsBack_of_le {text payload : Str} {header : Json} {tree : Tree} {names : List Name}
    {content : Str} (h : (archiveText text payload).length < 2 ^ 63)
    (htext : text.head? = some '\x7b') (hle : 2 ^ 32 ≤ paddedLength text + 16)
    (hhas : tree.Has names content) :
    ¬ ReadsBack (parseOnly text header) (archiveOf text payload h) tree := by
  intro hreads
  obtain ⟨-, loaded, made, hmade, hget⟩ := hreads {} names content hhas
  have hnull := makeEmbeddedFileTree_of_le h htext hle hmade
  rw [getFileFromEmbedded, getFileFrom_of_null hnull] at hget
  simp at hget

/-- **When an archive is read back**: where the end of its header fits in 32
bits, or there is nothing to read. -/
theorem readsBack_iff {text payload : Str} {header : Json} {tree : Tree}
    (h : (archiveText text payload).length < 2 ^ 63) (htext : text.head? = some '\x7b')
    (hpayload : payload.length < 2 ^ 31) (hlays : Lays payload tree header) :
    (∀ parse, ParsesPadded parse text header → ReadsBack parse (archiveOf text payload h) tree) ↔
      paddedLength text + 16 < 2 ^ 32 ∨ ¬ ∃ names content, tree.Has names content := by
  refine ⟨fun hreads => ?_, fun hcond parse hparse initial names content hhas => ?_⟩
  · by_contra hneither
    obtain ⟨hle, hfiles⟩ := not_or.mp hneither
    obtain ⟨names, content, hhas⟩ := not_not.mp hfiles
    exact not_readsBack_of_le h htext (not_lt.mp hle) hhas
      (hreads _ (parsesPadded_parseOnly text header))
  · have hlt := hcond.resolve_right (not_not.mpr ⟨names, content, hhas⟩)
    obtain ⟨made, hheader, hsize, hbundle, loaded, hembedded⟩ :=
      makeFileTree_of_lt hparse h hlt initial
    obtain ⟨offset, hholds⟩ := holds_archiveOf hlays hpayload h hheader hsize hhas
    exact ⟨hbundle ▸ getFileFromBundle_of_stores hholds.stores, loaded, made, hembedded,
      getFileFromEmbedded_of_stores hholds.stores⟩

/-! ### Two archives -/

/-- The header text of a directory with one file of one byte. -/
def oneFileText (name : Str) : Str :=
  '\x7b' :: ("\"files\":\x7b\"" ++ (name ++ "\":\x7b\"size\":1,\"offset\":\"0\"\x7d\x7d\x7d"))

def oneFileHeader (name : Str) : Json :=
  .obj [("files", .obj [(name, .obj [("size", .num 1), ("offset", .str "0")])])]

def oneFile (name : Name) : Tree := .dir [(name, .file "!")]

lemma length_oneFileText (name : Str) : (oneFileText name).length = name.length + 38 := by
  have hbefore : "\"files\":\x7b\"".toList.length = 10 := rfl
  have hafter : "\":\x7b\"size\":1,\"offset\":\"0\"\x7d\x7d\x7d".toList.length = 27 := rfl
  rw [oneFileText, List.length_cons, List.length_append, List.length_append, hbefore, hafter]
  omega

lemma lays_oneFile (name : Name) : Lays "!" (oneFile name) (oneFileHeader name.text) := by
  refine .dir rfl fun e he => ?_
  obtain rfl := List.mem_singleton.mp he
  have hnode : Json.lookup name.text [(name.text, .obj [("size", .num 1), ("offset", .str "0")])] =
      .obj [("size", .num 1), ("offset", .str "0")] := by
    rw [Json.lookup, List.find?_cons_of_pos (by simp)]
    rfl
  show Lays _ _ (Json.lookup name.text [(name.text, _)])
  rw [hnode]
  exact @Lays.file _ _ _ 0 rfl rfl (Nat.zero_le _) List.prefix_rfl

lemma oneFile_has (name : Name) : (oneFile name).Has [name] "!" :=
  .dir List.mem_cons_self (.file _)

lemma length_archiveText (text payload : Str) :
    (archiveText text payload).length = 16 + paddedLength text + payload.length := by
  have hle := length_le_paddedLength text
  simp only [archiveText, List.length_append, length_u32le, List.length_replicate]
  omega

/-- An archive whose header text is filled up by two zeros. -/
theorem index_readsBack :
    (∀ parse, ParsesPadded parse (oneFileText "index.js") (oneFileHeader "index.js") →
        ReadsBack parse (archiveOf (oneFileText "index.js") "!" (by decide))
          (oneFile ⟨"index.js", by decide⟩)) ↔
      paddedLength (oneFileText "index.js") + 16 < 2 ^ 32 ∨
        ¬ ∃ names content, (oneFile ⟨"index.js", by decide⟩).Has names content :=
  readsBack_iff _ rfl (by decide) (lays_oneFile ⟨"index.js", by decide⟩)

/-- A name of so many letters, after the first. -/
def longName (n : ℕ) : Name where
  text := 'a' :: List.replicate n 'a'
  ok := by simp [FilePath.isName, List.mem_replicate]

lemma length_longName (n : ℕ) : (longName n).text.length = n + 1 := by
  rw [longName, List.length_cons, List.length_replicate]

lemma paddedLength_longName {n : ℕ} (h : n + 39 = 2 ^ 32 - 16) :
    paddedLength (oneFileText (longName n).text) = 2 ^ 32 - 16 := by
  rw [paddedLength, length_oneFileText, length_longName]
  omega

lemma length_longArchive {n : ℕ} (h : n + 39 = 2 ^ 32 - 16) :
    (archiveText (oneFileText (longName n).text) "!").length < 2 ^ 63 := by
  rw [length_archiveText, paddedLength_longName h]
  decide

/-- The letters of a file name whose header still fits the format. -/
def manyLetters : ℕ := 2 ^ 32 - 55

lemma manyLetters_add : manyLetters + 39 = 2 ^ 32 - 16 := by decide

/-- The archive of a file with this name: sixteen bytes, the header, one byte. -/
def longArchive : Archive :=
  archiveOf (oneFileText (longName manyLetters).text) "!" (length_longArchive manyLetters_add)

/-- The end of its header does not fit in 32 bits, and the file is lost. -/
theorem longArchive_lost :
    Lays "!" (oneFile (longName manyLetters)) (oneFileHeader (longName manyLetters).text) ∧
      8 + paddedLength (oneFileText (longName manyLetters).text) < 2 ^ 32 ∧
      ¬ ∀ parse, ParsesPadded parse (oneFileText (longName manyLetters).text)
          (oneFileHeader (longName manyLetters).text) →
        ReadsBack parse longArchive (oneFile (longName manyLetters)) := by
  have hpadded := paddedLength_longName manyLetters_add
  refine ⟨lays_oneFile _, ?_, fun hreads => ?_⟩
  · rw [hpadded]
    decide
  · have hle : 2 ^ 32 ≤ paddedLength (oneFileText (longName manyLetters).text) + 16 := by
      omega
    exact not_readsBack_of_le _ rfl hle (oneFile_has _) (hreads _ (parsesPadded_parseOnly _ _))

end Neutralino.resources
