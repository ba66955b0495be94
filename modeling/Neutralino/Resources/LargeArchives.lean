import Neutralino.Resources.Backends

/-!
Files of large archives.

* `DenotesOffset`: a text of digits for the offset of a file.
* `getFileFromBundleWithin`, `getFileFromEmbeddedWithin`: the two readers where there is memory
  for buffers of some size.
* `ReadsExactly`: both of them read a file at its place.
* `large_offset_iff`: **when they do**.  The offset goes through an `int`, and the part that is
  read is put into a buffer.
-/

namespace Neutralino.resources

/-- A decimal text of an offset. -/
structure DenotesOffset (text : Str) (offset : ℕ) : Prop where
  ne_nil : text ≠ []
  digits : ∀ c ∈ text, c.isDigit = true
  number_eq : numberOf text = offset

/-- The text is read if the number is an `int`. -/
lemma DenotesOffset.stoi_eq {text : Str} {offset : ℕ} (h : DenotesOffset text offset) :
    stoi text = if offset < 2 ^ 31 then .ok (offset : ℤ) else .error .outOfRange := by
  have hread := stoi_of_digits h.ne_nil h.digits
  rwa [← numberOf, h.number_eq] at hread

/-- The bytes that are read for an entry, at the exact sum of the three positions. -/
def bytesAt (tree : FileTree) (archive : Archive) (size offset : ℕ)
    (options : fs.FileReaderOptions) : Str :=
  fillBuffer (applyFileReaderOptions size options).2
    (archive.bytes.drop (tree.asarHeaderSize + offset + (applyFileReaderOptions size options).1))

/-! ### Readers within a memory -/

/-- A reading into a buffer of its size: above `maxSize` there is no memory for one. -/
def intoBuffer (maxSize : ℕ) (read : Str → ℕ → ℕ → Except Fault Str) (bytes : Str)
    (start size : ℕ) : Except Fault Str :=
  if maxSize < size then .error .badAlloc else read bytes start size

/-- `__getFileFromBundle`, where buffers up to `maxSize` can be allocated. -/
def getFileFromBundleWithin (maxSize : ℕ) (tree : FileTree) (archive : Option Archive)
    (filename : Str) (options : fs.FileReaderOptions) : Except Fault fs.FileReaderResult :=
  getFileFrom tree archive filename options (intoBuffer maxSize fun bytes start size =>
    .ok (fillBuffer size (bytes.drop start)))

/-- `__getFileFromEmbedded`, where buffers up to `maxSize` can be allocated. -/
def getFileFromEmbeddedWithin (maxSize : ℕ) (tree : FileTree) (archive : Option Archive)
    (filename : Str) (options : fs.FileReaderOptions) : Except Fault fs.FileReaderResult :=
  getFileFrom tree archive filename options (intoBuffer maxSize fun bytes start size =>
    if size = 0 ∨ start + size ≤ bytes.length then .ok (fillBuffer size (bytes.drop start))
    else .error .undefinedBehaviour)

/-- With memory for all that a `vector` may hold, the buffer is always there. -/
lemma getFileFrom_intoBuffer {maxSize : ℕ} (h : 2 ^ 63 ≤ maxSize + 1) (tree : FileTree)
    (archive : Option Archive) (filename : Str) (options : fs.FileReaderOptions)
    (read : Str → ℕ → ℕ → Except Fault Str) :
    getFileFrom tree archive filename options (intoBuffer maxSize read) =
      getFileFrom tree archive filename options read := by
  unfold getFileFrom
  refine bind_congr fun p => ?_
  dsimp only
  split
  · rfl
  cases archive with
  | none => rfl
  | some archive =>
      refine bind_congr fun uOffset => ?_
      split
      · rfl
      · rename_i hsize
        rw [intoBuffer, if_neg (by omega)]

/-- The readers of the other modules are those with so much memory. -/
lemma getFileFromBundleWithin_eq {maxSize : ℕ} (h : 2 ^ 63 ≤ maxSize + 1) (tree : FileTree)
    (archive : Option Archive) (filename : Str) (options : fs.FileReaderOptions) :
    getFileFromBundleWithin maxSize tree archive filename options =
        getFileFromBundle tree archive filename options ∧
      getFileFromEmbeddedWithin maxSize tree archive filename options =
        getFileFromEmbedded tree archive filename options :=
  ⟨getFileFrom_intoBuffer h tree archive filename options _,
    getFileFrom_intoBuffer h tree archive filename options _⟩

/-- Both readers of an archive read the file of an entry at its place, whatever the
options select; the blob has to reach that far. -/
structure ReadsExactly (maxSize : ℕ) (tree : FileTree) (filename : Str) (size offset : ℕ) :
    Prop where
  bundle : ∀ archive options, getFileFromBundleWithin maxSize tree (some archive) filename options =
    .ok { data := bytesAt tree archive size offset options, size := size }
  embedded : ∀ archive options,
    tree.asarHeaderSize + offset + (applyFileReaderOptions size options).1 +
        (applyFileReaderOptions size options).2 ≤ archive.bytes.length →
      getFileFromEmbeddedWithin maxSize tree (some archive) filename options =
        .ok { data := bytesAt tree archive size offset options, size := size }

section Offsets

variable {tree : FileTree} {filename text : Str} {size offset : ℕ}

/-- No more is selected than the file has. -/
lemma selection_le (h : size < 2 ^ 63) (options : fs.FileReaderOptions) :
    (applyFileReaderOptions size options).1 + (applyFileReaderOptions size options).2 ≤ size := by
  simp only [applyFileReaderOptions, toUnsigned]
  split_ifs <;> omega

/-- What both readers do with an entry whose sums do not overflow. -/
lemma getFileFrom_of_entry (hfound : seekFilePos filename tree.fileTree = .ok (size, text))
    (htext : DenotesOffset text offset) (hlt : tree.asarHeaderSize + offset + size < 2 ^ 63)
    (archive : Archive) (options : fs.FileReaderOptions) (read : Str → ℕ → ℕ → Except Fault Str) :
    getFileFrom tree (some archive) filename options read =
      if offset < 2 ^ 31 then do
        let data ← read archive.bytes
          (tree.asarHeaderSize + offset + (applyFileReaderOptions size options).1)
          (applyFileReaderOptions size options).2
        return { data := data, size := size }
      else .error .outOfRange := by
  have hfirst : toSigned size = size := toSigned_of_lt (by omega)
  rw [getFileFrom, hfound, ok_bind, hfirst, if_neg (by omega)]
  by_cases hoffset : offset < 2 ^ 31
  · have hunsigned : toUnsigned (offset : ℤ) = offset := toUnsigned_natCast (by omega)
    have hle := selection_le (by omega : size < 2 ^ 63) options
    have hplace : (tree.asarHeaderSize + offset + (applyFileReaderOptions size options).1) % 2 ^ 64 =
        tree.asarHeaderSize + offset + (applyFileReaderOptions size options).1 :=
      Nat.mod_eq_of_lt (by omega)
    simp only [htext.stoi_eq, hoffset, if_true, ok_bind, hunsigned, hplace]
    rw [if_neg (by omega)]
  · simp only [htext.stoi_eq, hoffset, if_false, error_bind]

/-- **Both readers read an entry at its place** exactly if its offset is an `int` and there is
memory for its bytes. -/
theorem large_offset_iff (hfound : seekFilePos filename tree.fileTree = .ok (size, text))
    (htext : DenotesOffset text offset) (hlt : tree.asarHeaderSize + offset + size < 2 ^ 63)
    (maxSize : ℕ) :
    ReadsExactly maxSize tree filename size offset ↔ offset < 2 ^ 31 ∧ size ≤ maxSize := by
  have hread := getFileFrom_of_entry hfound htext hlt
  constructor
  · intro h
    have hbundle := h.bundle greeting {}
    rw [getFileFromBundleWithin, hread] at hbundle
    split at hbundle
    · rename_i hoffset
      refine ⟨hoffset, ?_⟩
      by_contra hsize
      have hwhole : (applyFileReaderOptions size {}).2 = size := toUnsigned_natCast (by omega)
      rw [hwhole, intoBuffer, if_pos (by omega)] at hbundle
      cases hbundle
    · cases hbundle
  · rintro ⟨hoffset, hsize⟩
    have hbuffer : ∀ options, ¬ maxSize < (applyFileReaderOptions size options).2 := fun options =>
      have hle := selection_le (by omega : size < 2 ^ 63) options
      by omega
    refine ⟨fun archive options => ?_, fun archive options hblob => ?_⟩
    · rw [getFileFromBundleWithin, hread, if_pos hoffset, intoBuffer, if_neg (hbuffer options)]
      rfl
    · rw [getFileFromEmbeddedWithin, hread, if_pos hoffset, intoBuffer, if_neg (hbuffer options),
        if_pos (.inr hblob)]
      rfl

end Offsets

/-- The sample file is read at its place, in a page of memory. -/
theorem greeting_read_exactly : ReadsExactly 4096 greetingTree "/hi.txt" 11 0 := by
  have htext : DenotesOffset "0" 0 := ⟨by decide, forall_mem_of_all (by decide), rfl⟩
  exact (@large_offset_iff greetingTree _ "0" 11 0 rfl htext (by decide) 4096).mpr (by decide)

/-- A tree whose file begins two gigabytes into the archive. -/
def distantTree : FileTree where
  fileTree := .obj [("files", .obj [("hi.txt",
    .obj [("offset", .str "2147483648"), ("size", .num 11)])])]
  asarHeaderSize := 16
  asarHeaderSize_lt := greetingTree.asarHeaderSize_lt

/-- Its offset does not fit an `int`, and both readers throw, however much memory there is. -/
theorem distant_file_throws :
    seekFilePos "/hi.txt" distantTree.fileTree = .ok (11, "2147483648") ∧
      (∀ maxSize archive,
        getFileFromBundleWithin maxSize distantTree (some archive) "/hi.txt" {} =
            .error .outOfRange ∧
          getFileFromEmbeddedWithin maxSize distantTree (some archive) "/hi.txt" {} =
            .error .outOfRange) ∧
      ∀ maxSize, ¬ ReadsExactly maxSize distantTree "/hi.txt" 11 2147483648 := by
  have hthrows : ∀ archive read, getFileFrom distantTree (some archive) "/hi.txt" {} read =
      .error .outOfRange := fun _ _ => rfl
  refine ⟨rfl, fun _ archive => ⟨hthrows archive _, hthrows archive _⟩, fun maxSize h => ?_⟩
  have hbundle := h.bundle greeting {}
  rw [getFileFromBundleWithin, hthrows] at hbundle
  cases hbundle

end Neutralino.resources
