import Neutralino.Resources.LargeArchives

/-!
Readers and the bytes that are really there.

* `readInto`: a buffer of zeros after a read that hands over as many bytes as it will.
* `fs.readFileBy`, `getFileFromBundleBy`: the readers of a stream, with such reads.
* `Reading`: a file, or an entry of an archive, that is to be read.
* `Honest`: a reader returns, and what it returns as content is there.
* `Intact`: what is asked for is there and is handed over, or is zero bytes.
* `honest_iff`: **when the readers are honest**.  None of them looks at the number
  of bytes it was given.
-/

namespace Neutralino

/-! ### Reads that fall short -/

namespace resources

/-- A buffer of zeros after a read at a position; `delivered` bounds how many bytes a
read hands over, for its position and the bytes asked for. -/
def readInto (delivered : ℕ → ℕ → ℕ) (bytes : Str) (pos size : ℕ) : Str :=
  fillBuffer size ((bytes.drop pos).take (delivered pos size))

/-- The bytes of the buffer after a read that hands over all that there are. -/
lemma readInto_full (bytes : Str) (pos size : ℕ) :
    readInto (fun _ size => size) bytes pos size = fillBuffer size (bytes.drop pos) := by
  rw [readInto, fillBuffer, fillBuffer, List.take_take, min_self, List.length_take]
  congr 2
  omega

/-- A byte of a buffer, a zero where nothing was read. -/
lemma getElem?_fillBuffer {size i : ℕ} (s : Str) (h : i < size) :
    (fillBuffer size s)[i]? = some (s.getD i '\x00') := by
  rw [fillBuffer, List.getD_eq_getElem?_getD]
  rcases Nat.lt_or_ge i s.length with hi | hi
  · rw [List.getElem?_append_left (by rw [List.length_take]; omega), List.getElem?_take_of_lt h,
      List.getElem?_eq_getElem hi, Option.getD_some]
  · have htake : (s.take size).length = s.length := by
      rw [List.length_take]
      omega
    rw [List.getElem?_append_right (by omega), htake,
      List.getElem?_replicate_of_lt (by omega), List.getElem?_eq_none hi, Option.getD_none]

end resources

namespace fs

/-- A file that is open: its bytes, and the size that it reports. -/
structure Source where
  bytes : Str
  size : ℤ

/-- The position and the size that `readFile` works out for a file of this size. -/
def selection (origSize : ℤ) (options : FileReaderOptions) : ℤ × ℤ :=
  let pos := if -1 < options.pos then min options.pos origSize else 0
  let size := if -1 < options.pos then origSize - pos else origSize
  (pos, if -1 < options.size then min options.size size else size)

/-- `readFile` of a file that could be opened, or could not; a `vector` takes no
negative size. -/
def readFileBy (delivered : ℕ → ℕ → ℕ) (source : Option Source) (options : FileReaderOptions) :
    Except Fault FileReaderResult :=
  match source with
  | none => .ok { status := .NE_FS_FILRDER }
  | some source =>
      let (pos, size) := selection source.size options
      if size < 0 then .error .badAlloc
      else .ok {
        data := resources.readInto delivered source.bytes pos.toNat size.toNat
        size := source.size }

/-- With reads that hand over all that there is, this is `readFile` of a file of a disk. -/
lemma readFileBy_full {disk : Disk} {path content : Str} (options : FileReaderOptions)
    (hopen : disk.openForRead path = .bytes content) :
    readFileBy (fun _ size => size) (some ⟨content, content.length⟩) options =
      readFile disk path options := by
  have hnonneg : ¬ (selection content.length options).2 < 0 := by
    simp only [selection]
    split_ifs <;> omega
  have hpos : (selection content.length options).1 =
      if -1 < options.pos then min options.pos (content.length : ℤ) else 0 := rfl
  have hsize : (selection content.length options).2 =
      if -1 < options.size then
        min options.size (content.length - (selection content.length options).1)
      else content.length - (selection content.length options).1 := by
    simp only [selection]
    split_ifs <;> omega
  have hfits : (selection content.length options).2.toNat ≤
      (content.drop (selection content.length options).1.toNat).length := by
    rw [List.length_drop]
    simp only [selection]
    split_ifs <;> omega
  simp only [readFileBy, hnonneg, if_false, resources.readInto_full,
    resources.fillBuffer_of_le hfits]
  rw [readFile, hopen, hsize, hpos]

end fs

namespace resources

/-- `__getFileFromBundle`, with reads that may fall short. -/
def getFileFromBundleBy (delivered : ℕ → ℕ → ℕ) (tree : FileTree) (archive : Option Archive)
    (filename : Str) (options : fs.FileReaderOptions) : Except Fault fs.FileReaderResult :=
  getFileFrom tree archive filename options fun bytes start size =>
    .ok (readInto delivered bytes start size)

/-- With reads that hand over all that there is, this is `getFileFromBundle`. -/
lemma getFileFromBundleBy_full (tree : FileTree) (archive : Option Archive) (filename : Str)
    (options : fs.FileReaderOptions) :
    getFileFromBundleBy (fun _ size => size) tree archive filename options =
      getFileFromBundle tree archive filename options := by
  simp only [getFileFromBundleBy, readInto_full]
  rfl

/-- The bytes of a buffer are those that are there if all that are asked for are there,
and those that were not handed over are zeros. -/
def Delivers (delivered : ℕ → ℕ → ℕ) (bytes : Str) (start size : ℕ) : Prop :=
  ∀ i < size, ∃ c, bytes[start + i]? = some c ∧ (delivered start size ≤ i → c = '\x00')

/-- A buffer of zeros begins like the text that was read into it, in part. -/
lemma fillBuffer_take_prefix_iff (s : Str) (size count : ℕ) :
    fillBuffer size (s.take count) <+: s ↔
      ∀ i < size, ∃ c, s[i]? = some c ∧ (count ≤ i → c = '\x00') := by
  have hbyte : ∀ i < size, ((fillBuffer size (s.take count))[i]? = s[i]? ↔
      ∃ c, s[i]? = some c ∧ (count ≤ i → c = '\x00')) := by
    intro i hi
    rw [getElem?_fillBuffer _ hi, List.getD_eq_getElem?_getD]
    rcases Nat.lt_or_ge i count with hlt | hge
    · rw [List.getElem?_take_of_lt hlt]
      cases s[i]? with
      | none => simp
      | some c => simp [hlt]
    · rw [List.getElem?_take_eq_none hge]
      cases s[i]? with
      | none => simp
      | some c => simp [hge, eq_comm]
  have hlength := length_fillBuffer size (s.take count)
  rw [List.prefix_iff_getElem?]
  constructor
  · intro h i hi
    rw [← hbyte i hi, h i (by omega), List.getElem?_eq_getElem]
  · intro h i hi
    rw [← List.getElem?_eq_getElem hi]
    exact ((hbyte i (by omega)).mpr (h i (by omega))).symm

/-- What is read into a buffer begins like the bytes at the place. -/
lemma readInto_prefix_iff (delivered : ℕ → ℕ → ℕ) (bytes : Str) (start size : ℕ) :
    readInto delivered bytes start size <+: bytes.drop start ↔
      Delivers delivered bytes start size := by
  rw [readInto, fillBuffer_take_prefix_iff, Delivers]
  simp only [List.getElem?_drop]

/-! ### Honest readers -/

/-- An outcome is honest: a reader returns, and with the status OK it returns bytes that
are there, from the position on. -/
def Honest (bytes : Str) (start : ℕ) (outcome : Except Fault fs.FileReaderResult) : Prop :=
  ∃ result, outcome = .ok result ∧ (result.status = .NE_ST_OK → result.data <+: bytes.drop start)

/-- A file that the tree of an archive knows, with the text of its offset. -/
structure Entry where
  tree : FileTree
  filename : Str
  size : ℕ
  text : Str
  offset : ℕ
  found : seekFilePos filename tree.fileTree = .ok (size, text)
  denotes : DenotesOffset text offset

namespace Entry

variable (entry : Entry)

/-- The position in the file and the size, as the options select them. -/
def selection (options : fs.FileReaderOptions) : ℕ × ℕ :=
  applyFileReaderOptions (toSigned entry.size) options

/-- The place in the archive that corresponds to the position. -/
def place (options : fs.FileReaderOptions) : ℕ :=
  entry.tree.asarHeaderSize + entry.offset + (entry.selection options).1

end Entry

/-- What is to be read: a file of the disk, or an entry of an archive; where the file or
the archive cannot be opened, there is none. -/
inductive Reading where
  | file (source : Option fs.Source)
  | bundle (entry : Entry) (archive : Option Archive)
  | embedded (entry : Entry) (archive : Option Archive)

namespace Reading

/-- The outcome of the reader. -/
def outcome (delivered : ℕ → ℕ → ℕ) (options : fs.FileReaderOptions) :
    Reading → Except Fault fs.FileReaderResult
  | file source => fs.readFileBy delivered source options
  | bundle entry archive =>
      getFileFromBundleBy delivered entry.tree archive entry.filename options
  | embedded entry archive => getFileFromEmbedded entry.tree archive entry.filename options

/-- The bytes that are really there. -/
def bytes : Reading → Str
  | file source => source.elim [] fs.Source.bytes
  | bundle _ archive | embedded _ archive => archive.elim [] Archive.bytes

/-- The place of what is asked for. -/
def place (options : fs.FileReaderOptions) : Reading → ℕ
  | file source => (source.elim 0 fun source => (fs.selection source.size options).1).toNat
  | bundle entry _ | embedded entry _ => entry.place options

/-- The condition: there is nothing to open; or, for a file, the size comes out as no
negative number and the bytes are delivered; for an entry, its size is the number
for a missing file, or its offset and the size fit their types and the bytes are
delivered, or are in the blob. -/
def Intact (delivered : ℕ → ℕ → ℕ) (options : fs.FileReaderOptions) : Reading → Prop
  | file source => ∀ opened ∈ source,
      0 ≤ (fs.selection opened.size options).2 ∧
        Delivers delivered opened.bytes (fs.selection opened.size options).1.toNat
          (fs.selection opened.size options).2.toNat
  | bundle entry archive => ∀ opened ∈ archive,
      toSigned entry.size = -1 ∨ entry.offset < 2 ^ 31 ∧ (entry.selection options).2 < 2 ^ 63 ∧
        Delivers delivered opened.bytes (entry.place options) (entry.selection options).2
  | embedded entry archive => ∀ opened ∈ archive,
      toSigned entry.size = -1 ∨ entry.offset < 2 ^ 31 ∧ (entry.selection options).2 < 2 ^ 63 ∧
        ((entry.selection options).2 = 0 ∨
          entry.place options + (entry.selection options).2 ≤ opened.bytes.length)

end Reading

section Honesty

variable {delivered : ℕ → ℕ → ℕ} {options : fs.FileReaderOptions} {entry : Entry}
  {archive : Archive}

/-- An error status is honest. -/
lemma honest_of_status {bytes : Str} {start : ℕ} {status : errors.StatusCode}
    (h : status ≠ .NE_ST_OK) : Honest bytes start (.ok { status := status }) :=
  ⟨_, rfl, fun hok => absurd hok h⟩

lemma not_honest_error {bytes : Str} {start : ℕ} (fault : Fault) :
    ¬ Honest bytes start (.error fault) := by
  rintro ⟨result, h, -⟩
  cases h

lemma honest_ok_iff {bytes data : Str} {start : ℕ} {size : ℤ} :
    Honest bytes start (.ok { data := data, size := size }) ↔ data <+: bytes.drop start := by
  constructor
  · rintro ⟨result, h, hdata⟩
    obtain rfl := Except.ok.inj h
    exact hdata rfl
  · exact fun h => ⟨_, rfl, fun _ => h⟩

/-- The outcome of a reading whose archive is open. -/
lemma getFileFrom_entry (read : Str → ℕ → ℕ → Except Fault Str) :
    getFileFrom entry.tree (some archive) entry.filename options read =
      if toSigned entry.size = -1 then .ok { status := .NE_RS_NOPATHE }
      else if ¬ entry.offset < 2 ^ 31 then .error .outOfRange
      else if ¬ (entry.selection options).2 < 2 ^ 63 then .error .badAlloc
      else do
        let data ← read archive.bytes (entry.place options % 2 ^ 64) (entry.selection options).2
        return { data := data, size := toSigned entry.size } := by
  rw [getFileFrom, entry.found, ok_bind]
  by_cases hmissing : toSigned entry.size = -1
  · simp only [hmissing, if_true]
    rfl
  simp only [hmissing, if_false, entry.denotes.stoi_eq]
  by_cases hoffset : entry.offset < 2 ^ 31
  · have hunsigned : toUnsigned (entry.offset : ℤ) = entry.offset := toUnsigned_natCast (by omega)
    simp only [hoffset, if_true, ok_bind, hunsigned, not_true_eq_false, if_false, not_lt]
    rfl
  · simp only [hoffset, if_false, error_bind, not_false_eq_true, if_true]

/-- What is read is at its place, unless it is empty. -/
lemma place_mod (hoffset : entry.offset < 2 ^ 31) (hsize : (entry.selection options).2 < 2 ^ 63)
    (hne : (entry.selection options).2 ≠ 0) :
    entry.place options % 2 ^ 64 = entry.place options := by
  have hheader := entry.tree.asarHeaderSize_lt
  refine Nat.mod_eq_of_lt ?_
  simp only [Entry.place, Entry.selection, applyFileReaderOptions, toUnsigned, toSigned] at *
  split_ifs at * <;> omega

/-- An entry is read honestly if it is missing, or its offset and the size fit their
types and the reading at its place is honest. -/
lemma honest_entry_iff {read : Str → ℕ → ℕ → Except Fault Str} {P : Prop}
    (hread : entry.offset < 2 ^ 31 → (entry.selection options).2 < 2 ^ 63 →
      (Honest archive.bytes (entry.place options) (do
        let data ← read archive.bytes (entry.place options % 2 ^ 64) (entry.selection options).2
        return { data := data, size := toSigned entry.size }) ↔ P)) :
    Honest archive.bytes (entry.place options)
        (getFileFrom entry.tree (some archive) entry.filename options read) ↔
      toSigned entry.size = -1 ∨ entry.offset < 2 ^ 31 ∧ (entry.selection options).2 < 2 ^ 63 ∧ P := by
  rw [getFileFrom_entry]
  by_cases hmissing : toSigned entry.size = -1
  · rw [if_pos hmissing]
    exact iff_of_true (honest_of_status (by decide)) (.inl hmissing)
  rw [if_neg hmissing]
  by_cases hoffset : entry.offset < 2 ^ 31
  · rw [if_neg (not_not_intro hoffset)]
    by_cases hsize : (entry.selection options).2 < 2 ^ 63
    · rw [if_neg (not_not_intro hsize), hread hoffset hsize, or_iff_right hmissing,
        and_iff_right hoffset, and_iff_right hsize]
    · rw [if_pos hsize]
      exact iff_of_false (not_honest_error _) fun h => hsize (h.resolve_left hmissing).2.1
  · rw [if_pos hoffset]
    exact iff_of_false (not_honest_error _) fun h => hoffset (h.resolve_left hmissing).1

/-- Without an archive an entry is answered with an error status. -/
lemma honest_of_no_archive {bytes : Str} {start : ℕ} (read : Str → ℕ → ℕ → Except Fault Str) :
    Honest bytes start (getFileFrom entry.tree none entry.filename options read) := by
  rw [getFileFrom, entry.found, ok_bind]
  by_cases hmissing : toSigned entry.size = -1
  · simp only [hmissing, if_true]
    exact honest_of_status (by decide)
  · simp only [hmissing, if_false]
    exact honest_of_status (by decide)

/-- An empty text is there at every place. -/
lemma honest_of_length {bytes data : Str} {start : ℕ} {size : ℤ} (h : data.length = 0) :
    Honest bytes start (.ok { data := data, size := size }) := by
  rw [honest_ok_iff, List.length_eq_zero_iff.mp h]
  exact List.nil_prefix

/-- The reading of an entry from a file. -/
lemma honest_bundle_iff :
    Honest archive.bytes (entry.place options)
        (getFileFromBundleBy delivered entry.tree (some archive) entry.filename options) ↔
      toSigned entry.size = -1 ∨ entry.offset < 2 ^ 31 ∧ (entry.selection options).2 < 2 ^ 63 ∧
        Delivers delivered archive.bytes (entry.place options) (entry.selection options).2 := by
  refine honest_entry_iff fun hoffset hsize => ?_
  rw [ok_bind]
  by_cases hzero : (entry.selection options).2 = 0
  · rw [hzero]
    exact iff_of_true (honest_of_length (length_fillBuffer 0 _))
      fun i hi => absurd hi (Nat.not_lt_zero i)
  · rw [place_mod hoffset hsize hzero, ← readInto_prefix_iff]
    exact honest_ok_iff

/-- The reading of an entry from a blob. -/
lemma honest_embedded_iff :
    Honest archive.bytes (entry.place options)
        (getFileFromEmbedded entry.tree (some archive) entry.filename options) ↔
      toSigned entry.size = -1 ∨ entry.offset < 2 ^ 31 ∧ (entry.selection options).2 < 2 ^ 63 ∧
        ((entry.selection options).2 = 0 ∨
          entry.place options + (entry.selection options).2 ≤ archive.bytes.length) := by
  refine honest_entry_iff fun hoffset hsize => ?_
  by_cases hzero : (entry.selection options).2 = 0
  · rw [hzero, if_pos (.inl rfl), ok_bind]
    exact iff_of_true (honest_of_length (length_fillBuffer 0 _)) (.inl rfl)
  rw [place_mod hoffset hsize hzero]
  by_cases hblob : entry.place options + (entry.selection options).2 ≤ archive.bytes.length
  · rw [if_pos (.inr hblob), ok_bind, fillBuffer_of_le (by rw [List.length_drop]; omega)]
    exact iff_of_true (honest_ok_iff.mpr (List.take_prefix _ _)) (.inr hblob)
  · rw [if_neg (not_or.mpr ⟨hzero, hblob⟩), error_bind]
    exact iff_of_false (not_honest_error _) (not_or.mpr ⟨hzero, hblob⟩)

/-- The reading of a file of the disk. -/
lemma honest_file_iff (source : fs.Source) :
    Honest source.bytes (fs.selection source.size options).1.toNat
        (fs.readFileBy delivered (some source) options) ↔
      0 ≤ (fs.selection source.size options).2 ∧
        Delivers delivered source.bytes (fs.selection source.size options).1.toNat
          (fs.selection source.size options).2.toNat := by
  by_cases hsize : (fs.selection source.size options).2 < 0
  · simp only [fs.readFileBy, hsize, if_true]
    exact iff_of_false (not_honest_error _) fun h => by omega
  · simp only [fs.readFileBy, hsize, if_false]
    rw [honest_ok_iff, readInto_prefix_iff]
    exact ⟨fun h => ⟨by omega, h⟩, And.right⟩

/-- **The readers are honest** exactly about what is intact, where the buffers they read into
can be allocated. -/
theorem honest_iff (reading : Reading) (delivered : ℕ → ℕ → ℕ) (options : fs.FileReaderOptions) :
    Honest reading.bytes (reading.place options) (reading.outcome delivered options) ↔
      reading.Intact delivered options := by
  cases reading with
  | file source => cases source with
    | none => exact iff_of_true (honest_of_status (by decide)) (by simp [Reading.Intact])
    | some source => exact (honest_file_iff source).trans (by simp [Reading.Intact])
  | bundle entry archive => cases archive with
    | none =>
        refine iff_of_true ?_ (by simp [Reading.Intact])
        rw [Reading.outcome, getFileFromBundleBy]
        exact honest_of_no_archive _
    | some archive => exact honest_bundle_iff.trans (by simp [Reading.Intact])
  | embedded entry archive => cases archive with
    | none =>
        refine iff_of_true ?_ (by simp [Reading.Intact])
        rw [Reading.outcome, getFileFromEmbedded]
        exact honest_of_no_archive _
    | some archive => exact honest_embedded_iff.trans (by simp [Reading.Intact])

end Honesty

/-- The entry of the sample file. -/
def greetingEntry : Entry where
  tree := greetingTree
  filename := "/hi.txt"
  size := 11
  text := "0"
  offset := 0
  found := rfl
  denotes := ⟨by decide, forall_mem_of_all (by decide), rfl⟩

/-- The beginning of the sample archive. -/
def truncated : Archive where
  bytes := "0123456789abcdefhello"
  length_ge := by decide
  length_lt := by decide

/-- The reader of a bundle returns zeros for the bytes that are missing, and that of a
blob reads past its end. -/
theorem truncated_not_honest :
    getFileFromBundleBy (fun _ size => size) greetingTree (some truncated) "/hi.txt" {} =
        .ok { data := "hello".toList ++ List.replicate 6 '\x00', size := 11 } ∧
      ¬ Honest (Reading.bundle greetingEntry (some truncated)).bytes
        ((Reading.bundle greetingEntry (some truncated)).place {})
        ((Reading.bundle greetingEntry (some truncated)).outcome (fun _ size => size) {}) ∧
      getFileFromEmbedded greetingTree (some truncated) "/hi.txt" {} =
        .error .undefinedBehaviour := by
  have hbundle : getFileFromBundleBy (fun _ size => size) greetingTree (some truncated) "/hi.txt" {} =
      .ok { data := "hello".toList ++ List.replicate 6 '\x00', size := 11 } := by
    rw [getFileFromBundleBy_full]
    rfl
  refine ⟨hbundle, fun h => ?_, rfl⟩
  have hhonest : Honest truncated.bytes 16
      (getFileFromBundleBy (fun _ size => size) greetingTree (some truncated) "/hi.txt" {}) := h
  rw [hbundle, honest_ok_iff] at hhonest
  exact absurd hhonest (by decide)

end resources

end Neutralino
