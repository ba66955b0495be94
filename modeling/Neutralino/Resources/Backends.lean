import Neutralino.Api.FileReader
import Neutralino.Resources.FileTree

/-!
The three places a resource is read from: `__getFileFromBundle`,
`__getFileFromEmbedded` and, for a directory, `fs::readFile`.

* `Archive`: the bytes of an archive; `FileTree`: what is known of them.
* `getFileFromBundle`, `getFileFromEmbedded`: the two readers.
* `clip`: the part of a content that reader options ask for.
* `backends_agree`: **the three give the same part and the same size**.
-/

namespace Neutralino.resources

/-! ### The readers -/

/-- The bytes of an archive: its header takes sixteen of them, and a `long`
holds their number. -/
structure Archive where
  bytes : Str
  length_ge : 16 ≤ bytes.length
  length_lt : bytes.length < 2 ^ 63

/-- `fileTree` and `asarHeaderSize`, an `unsigned int`. -/
structure FileTree where
  fileTree : Json := .null
  asarHeaderSize : ℕ := 0
  asarHeaderSize_lt : asarHeaderSize < 2 ^ 32 := by decide

/-- `__applyFileReaderOptions`: the position and the size to read, as unsigned numbers. -/
def applyFileReaderOptions (origSize : ℤ) (options : fs.FileReaderOptions) : ℕ × ℕ :=
  let readPos := if -1 < options.pos then min options.pos origSize else 0
  let readSize := if -1 < options.pos then origSize - readPos else origSize
  let readSize := if -1 < options.size then min options.size readSize else readSize
  (toUnsigned readPos, toUnsigned readSize)

/-- A buffer of zeros into which the beginning of a text was read. -/
def fillBuffer (size : ℕ) (s : Str) : Str :=
  s.take size ++ List.replicate (size - s.length) '\x00'

lemma length_fillBuffer (size : ℕ) (s : Str) : (fillBuffer size s).length = size := by
  rw [fillBuffer, List.length_append, List.length_take, List.length_replicate]
  omega

lemma fillBuffer_of_le {size : ℕ} {s : Str} (h : size ≤ s.length) : fillBuffer size s = s.take size := by
  rw [fillBuffer, Nat.sub_eq_zero_of_le h, List.replicate_zero, List.append_nil]

/-- The part that the two readers share: what the tree says of a file, and then
the reading at a place of the archive.  There is memory for every buffer that a `vector` may be. -/
def getFileFrom (tree : FileTree) (archive : Option Archive) (filename : Str)
    (options : fs.FileReaderOptions) (read : Str → ℕ → ℕ → Except Fault Str) :
    Except Fault fs.FileReaderResult := do
  let p ← seekFilePos filename tree.fileTree
  let first := toSigned p.1
  if first = -1 then return { status := .NE_RS_NOPATHE }
  match archive with
  | none => return { status := .NE_RS_TREEGER }
  | some archive =>
      let uOffset := toUnsigned (← stoi p.2)
      let (pos, size) := applyFileReaderOptions first options
      -- a `vector` is not longer; for less memory, see `getFileFromBundleWithin`
      if 2 ^ 63 ≤ size then .error .badAlloc
      else
        let data ← read archive.bytes ((tree.asarHeaderSize + uOffset + pos) % 2 ^ 64) size
        return { data := data, size := first }

/-- `__getFileFromBundle`: the archive is a file, absent where it cannot be opened. -/
def getFileFromBundle (tree : FileTree) (archive : Option Archive) (filename : Str)
    (options : fs.FileReaderOptions) : Except Fault fs.FileReaderResult :=
  getFileFrom tree archive filename options fun bytes start size =>
    .ok (fillBuffer size (bytes.drop start))

/-- `__getFileFromEmbedded`: the archive is a blob in memory, read byte by byte;
past its end this is undefined. -/
def getFileFromEmbedded (tree : FileTree) (archive : Option Archive) (filename : Str)
    (options : fs.FileReaderOptions) : Except Fault fs.FileReaderResult :=
  getFileFrom tree archive filename options fun bytes start size =>
    if size = 0 ∨ start + size ≤ bytes.length then .ok (fillBuffer size (bytes.drop start))
    else .error .undefinedBehaviour

/-! ### Agreement -/

/-- The part of a content that is asked for: from the position, or the end where
this comes first, and for at most the size; a negative number is none. -/
def clip (content : Str) (options : fs.FileReaderOptions) : Str :=
  let rest :=
    if 0 ≤ options.pos then content.drop (min options.pos.toNat content.length) else content
  if 0 ≤ options.size then rest.take options.size.toNat else rest

/-- The tree knows a file of the archive, and the archive holds it intact. -/
structure Holds (tree : FileTree) (archive : Archive) (filename content : Str) (offset : ℕ) : Prop where
  found : seekFilePos filename tree.fileTree = .ok (toUnsigned content.length, decimal offset)
  offset_lt : offset < 2 ^ 31
  intact : content <+: archive.bytes.drop (tree.asarHeaderSize + offset)

/-- The tree knows a file, and the archive has it at the place that is read of the tree. -/
structure Stores (tree : FileTree) (archive : Archive) (filename content : Str) (start : ℕ) : Prop where
  found : ∃ text offset, seekFilePos filename tree.fileTree = .ok (toUnsigned content.length, text) ∧
    stoi text = .ok offset ∧ (tree.asarHeaderSize : ℤ) + offset = start
  intact : content <+: archive.bytes.drop start

section Agreement

variable {content : Str} {options : fs.FileReaderOptions}

/-- The position to read from. -/
lemma applyFileReaderOptions_fst (h : content.length < 2 ^ 63) :
    (applyFileReaderOptions content.length options).1 =
      if 0 ≤ options.pos then min options.pos.toNat content.length else 0 := by
  simp only [applyFileReaderOptions, toUnsigned]
  split_ifs <;> omega

/-- The size to read, after the position. -/
lemma applyFileReaderOptions_snd (h : content.length < 2 ^ 63) :
    (applyFileReaderOptions content.length options).2 =
      if 0 ≤ options.size then
        min options.size.toNat
          (content.length - (applyFileReaderOptions content.length options).1)
      else content.length - (applyFileReaderOptions content.length options).1 := by
  rw [applyFileReaderOptions_fst h]
  simp only [applyFileReaderOptions, toUnsigned]
  split_ifs <;> omega

/-- Position and size stay within the content. -/
lemma applyFileReaderOptions_le (h : content.length < 2 ^ 63) :
    (applyFileReaderOptions content.length options).1 +
      (applyFileReaderOptions content.length options).2 ≤ content.length := by
  rw [applyFileReaderOptions_snd h, applyFileReaderOptions_fst h]
  split_ifs <;> omega

/-- They are the part that is asked for. -/
lemma clip_eq (h : content.length < 2 ^ 63) :
    clip content options =
      (content.drop (applyFileReaderOptions content.length options).1).take
        (applyFileReaderOptions content.length options).2 := by
  have hrest : (if 0 ≤ options.pos then content.drop (min options.pos.toNat content.length)
      else content) = content.drop (applyFileReaderOptions content.length options).1 := by
    rw [applyFileReaderOptions_fst h]
    split_ifs <;> rfl
  rw [clip, hrest, applyFileReaderOptions_snd h]
  split_ifs with hsize
  · rw [← List.length_drop, ← List.take_eq_take_min]
  · rw [← List.length_drop, List.take_length]

/-- Reading a prefix of what is left of the archive gives that part. -/
lemma fillBuffer_of_prefix {s : Str} {pos size : ℕ} (h : content <+: s)
    (hle : pos + size ≤ content.length) :
    fillBuffer size (s.drop pos) = (content.drop pos).take size := by
  obtain ⟨rest, rfl⟩ := h
  have hlen : size ≤ (content.drop pos).length := by rw [List.length_drop]; omega
  have hfull : size - ((content ++ rest).drop pos).length = 0 := by simp; omega
  rw [fillBuffer, hfull, List.replicate_zero, List.append_nil, List.drop_append_of_le_length (by omega),
    List.take_append_of_le_length hlen]

/-- The file of a directory is read as it is asked for. -/
lemma readFile_eq {disk : Disk} {path : Str} (hopen : disk.openForRead path = .bytes content) :
    fs.readFile disk path options = .ok { data := clip content options, size := content.length } := by
  have hpos : (if -1 < options.pos then min options.pos content.length else 0).toNat =
      if 0 ≤ options.pos then min options.pos.toNat content.length else 0 := by
    split_ifs <;> omega
  have hrest : (if 0 ≤ options.pos then content.drop (min options.pos.toNat content.length)
      else content) =
      content.drop (if 0 ≤ options.pos then min options.pos.toNat content.length else 0) := by
    split_ifs <;> rfl
  rw [fs.readFile, hopen, clip, hrest]
  simp only [hpos, Except.ok.injEq, fs.FileReaderResult.mk.injEq, true_and, and_true]
  by_cases hsize : 0 ≤ options.size
  · rw [if_pos hsize, if_pos (by omega), List.take_eq_take_iff, List.length_drop]
    split_ifs <;> omega
  · rw [if_neg hsize, if_neg (by omega), List.take_of_length_le]
    rw [List.length_drop]
    split_ifs <;> omega

variable {tree : FileTree} {archive : Archive} {filename : Str} {offset start : ℕ}

/-- What is held is stored. -/
lemma Holds.stores (h : Holds tree archive filename content offset) :
    Stores tree archive filename content (tree.asarHeaderSize + offset) :=
  ⟨⟨_, offset, h.found, stoi_decimal h.offset_lt, (Int.natCast_add ..).symm⟩, h.intact⟩

/-- The archive bounds what it stores. -/
lemma Stores.length_le (h : Stores tree archive filename content start) :
    content.length + start ≤ archive.bytes.length ∨ content = [] := by
  have hle := h.intact.length_le
  rw [List.length_drop] at hle
  rcases Nat.eq_zero_or_pos content.length with hzero | hpos
  · exact .inr (List.length_eq_zero_iff.mp hzero)
  · exact .inl (by omega)

lemma Stores.length_lt (h : Stores tree archive filename content start) :
    content.length < 2 ^ 63 := by
  have hlt := archive.length_lt
  rcases h.length_le with hle | rfl
  · omega
  · simp

/-- Where a file is stored, both readers of an archive read at its place. -/
lemma getFileFrom_of_stores (h : Stores tree archive filename content start)
    (read : Str → ℕ → ℕ → Except Fault Str) :
    getFileFrom tree (some archive) filename options read = (do
      let data ← read archive.bytes
        (start + (applyFileReaderOptions content.length options).1)
        (applyFileReaderOptions content.length options).2
      return { data := data, size := content.length }) := by
  obtain ⟨text, offset, hfound, hoffset, hstart⟩ := h.found
  have hlt := h.length_lt
  have hbound := stoi_bounds hoffset
  have hfirst : toSigned (toUnsigned content.length) = content.length := by
    rw [toUnsigned_natCast (by omega), toSigned_of_lt hlt]
  have hle := @applyFileReaderOptions_le content options hlt
  have hheader := tree.asarHeaderSize_lt
  have hplace : (tree.asarHeaderSize + toUnsigned offset +
      (applyFileReaderOptions content.length options).1) % 2 ^ 64 =
      start + (applyFileReaderOptions content.length options).1 := by
    unfold toUnsigned
    omega
  rw [getFileFrom, hfound, ok_bind, hfirst, if_neg (by omega)]
  simp only [hoffset, ok_bind, hplace]
  rw [if_neg (by omega)]

/-- Where a file is stored, the bytes from its place on are the part that is asked for. -/
lemma fillBuffer_of_stores (h : Stores tree archive filename content start) :
    fillBuffer (applyFileReaderOptions content.length options).2
      (archive.bytes.drop (start + (applyFileReaderOptions content.length options).1)) =
        clip content options := by
  rw [clip_eq h.length_lt, ← List.drop_drop]
  exact fillBuffer_of_prefix h.intact (applyFileReaderOptions_le h.length_lt)

lemma getFileFromBundle_of_stores (h : Stores tree archive filename content start) :
    getFileFromBundle tree (some archive) filename options =
      .ok { data := clip content options, size := content.length } := by
  rw [getFileFromBundle, getFileFrom_of_stores h, ok_bind, fillBuffer_of_stores h]
  rfl

lemma getFileFromEmbedded_of_stores (h : Stores tree archive filename content start) :
    getFileFromEmbedded tree (some archive) filename options =
      .ok { data := clip content options, size := content.length } := by
  have hle := @applyFileReaderOptions_le content options h.length_lt
  rw [getFileFromEmbedded, getFileFrom_of_stores h, if_pos, ok_bind, fillBuffer_of_stores h]
  · rfl
  · rcases h.length_le with hbytes | rfl
    · exact .inr (by omega)
    · exact .inl (by simpa using hle : _ ∧ _).2

/-- **The three backends agree**: for every content that an archive holds, and
every position and size, they give the part that is asked for and the full size. -/
theorem backends_agree (h : Holds tree archive filename content offset) {disk : Disk} {path : Str}
    (hopen : disk.openForRead path = .bytes content) (options : fs.FileReaderOptions) :
    fs.readFile disk path options = .ok { data := clip content options, size := content.length } ∧
      getFileFromBundle tree (some archive) filename options =
        .ok { data := clip content options, size := content.length } ∧
      getFileFromEmbedded tree (some archive) filename options =
        .ok { data := clip content options, size := content.length } :=
  ⟨readFile_eq hopen, getFileFromBundle_of_stores h.stores, getFileFromEmbedded_of_stores h.stores⟩

end Agreement

/-- An archive that holds one file after sixteen bytes. -/
def greeting : Archive where
  bytes := "0123456789abcdefhello world"
  length_ge := by decide
  length_lt := by decide

/-- The tree with this file. -/
def greetingTree : FileTree where
  fileTree := .obj [("files", .obj [("hi.txt", .obj [("offset", .str "0"), ("size", .num 11)])])]
  asarHeaderSize := 16

/-- A disk on which every path is this file. -/
def greetingDisk : Disk where
  kindOf path := if path = [] then .ok none else .ok (some .file)
  kindOf_nil := by simp
  openForRead _ := .bytes "hello world"

/-- The five bytes from the sixth on, of which there are fewer than asked for. -/
theorem greeting_agree :
    fs.readFile greetingDisk "/app/hi.txt" { pos := 6, size := 100 } =
        .ok { data := "world", size := 11 } ∧
      getFileFromBundle greetingTree (some greeting) "/hi.txt" { pos := 6, size := 100 } =
        .ok { data := "world", size := 11 } ∧
      getFileFromEmbedded greetingTree (some greeting) "/hi.txt" { pos := 6, size := 100 } =
        .ok { data := "world", size := 11 } := by
  have hholds : Holds greetingTree greeting "/hi.txt" "hello world" 0 :=
    ⟨rfl, by decide, List.prefix_rfl⟩
  exact backends_agree hholds rfl { pos := 6, size := 100 }

end Neutralino.resources
