import Neutralino.Resources.Bundle

/-!
The header of a malformed archive: `__makeBundleFileTree` and
`__makeEmbeddedFileTree` on bytes of any length.

* `Loading`: what a loader does: the bytes it uses, the exact values of its
  32-bit computations, and what it leaves.
* `loadBundleFileTree`, `loadEmbeddedFileTree`: the two loaders; past the end of
  the bytes stands what the memory holds.  `loadBundleFileTree_eq` and
  `loadEmbeddedFileTree_eq` tie them to the loaders of whole archives.
* `Loading.Safe`: no byte past the end is used, no computation wraps around, and a
  header that does not fit or is no object is rejected.
* `loads_safely_iff`: **when the two loaders are safe**.  They check nothing.
-/

namespace Neutralino.resources

/-! ### The loaders -/

/-- The byte at an index: one of the bytes, or what the memory holds past their end. -/
def byteAt (beyond : ℕ → Char) (bytes : Str) (i : ℕ) : Char := bytes.getD i (beyond i)

/-- What a loader does: the indices of the bytes it uses, the exact values of its
32-bit computations, the length of the header that it reads, whether it
succeeds, and the tree. -/
structure Loading where
  used : List ℕ := []
  computed : List ℤ := []
  size : ℕ := 0
  loaded : Bool := false
  tree : FileTree

section Loaders

variable (parse : Str → Option Json) (beyond : ℕ → Char)

/-- `__makeBundleFileTree` for a file with these bytes; a buffer that is not filled
keeps what the memory held, and the header is filled up with zeros. -/
def loadBundleFileTree (bytes : Str) : Loading :=
  let word := readU32le ((List.range' 4 4).map (byteAt beyond bytes))
  let size := (word + (2 ^ 32 - 8)) % 2 ^ 32
  let tree := treeOf parse size (fillBuffer size (bytes.drop 16))
  { used := List.range' 4 4 ++ List.range' 16 (min size (bytes.length - 16))
    computed := [word - 8, size + 16]
    size := size
    loaded := !tree.fileTree.isNull
    tree := tree }

/-- `__makeEmbeddedFileTree` for a blob of these bytes. -/
def loadEmbeddedFileTree (tree : FileTree) (bytes : Str) : Loading :=
  if bytes = [] then { tree := tree }
  else
    let word := readU32le ((List.range' 4 4).map (byteAt beyond bytes))
    let size := (word + (2 ^ 32 - 8)) % 2 ^ 32
    let bound := (16 + size) % 2 ^ 32
    let header := (List.range' 16 (bound - 16)).map (byteAt beyond bytes)
    let tree := treeOf parse size (fillBuffer size header)
    { used := List.range 8 ++ List.range' 16 (bound - 16)
      computed := [word - 8, size + 16, 16 + size]
      size := size
      loaded := !tree.fileTree.isNull
      tree := tree }

end Loaders

/-! ### Bytes that are there -/

section Bytes

variable {beyond : ℕ → Char} {bytes : Str}

/-- Bytes that are there are those of the text. -/
lemma map_byteAt_range' {start len : ℕ} (h : start + len ≤ bytes.length) :
    (List.range' start len).map (byteAt beyond bytes) = (bytes.drop start).take len := by
  refine List.ext_getElem (by simp; omega) fun i hi hi' => ?_
  have hlt : start + i < bytes.length := by
    simp at hi
    omega
  simp [byteAt, hlt]

lemma readU32le_take {s : Str} (h : 4 ≤ s.length) : readU32le (s.take 4) = readU32le s := by
  match s, h with
  | _ :: _ :: _ :: _ :: _, _ => rfl

lemma readU32le_lt (s : Str) : readU32le s < 2 ^ 32 := by
  unfold readU32le
  split
  · omega
  · omega

/-- The second word of the bytes. -/
lemma readU32le_range' (h : 8 ≤ bytes.length) :
    readU32le ((List.range' 4 4).map (byteAt beyond bytes)) = readU32le (bytes.drop 4) := by
  rw [map_byteAt_range' (by omega), readU32le_take (by simp; omega)]

/-- The size without its wrap-around. -/
lemma size_eq {word : ℕ} (hlt : word < 2 ^ 32) (h : 8 ≤ word) :
    (word + (2 ^ 32 - 8)) % 2 ^ 32 = word - 8 := by
  omega

end Bytes

/-! ### Whole archives -/

section Archives

variable {parse : Str → Option Json} {beyond : ℕ → Char} {tree : FileTree}

/-- On the bytes of an archive this is `makeBundleFileTree`. -/
theorem loadBundleFileTree_eq (archive : Archive) :
    makeBundleFileTree parse tree (some archive) =
      ((loadBundleFileTree parse beyond archive.bytes).loaded,
        (loadBundleFileTree parse beyond archive.bytes).tree) := by
  have hlength := archive.length_ge
  simp only [makeBundleFileTree, loadBundleFileTree, readU32le_range' (show 8 ≤ archive.bytes.length by omega)]
  rfl

/-- On the bytes of an archive this is `makeEmbeddedFileTree`, where that is defined. -/
theorem loadEmbeddedFileTree_eq (archive : Archive) {loaded : Bool} {made : FileTree}
    (h : makeEmbeddedFileTree parse tree (some archive) = .ok (loaded, made)) :
    (loadEmbeddedFileTree parse beyond tree archive.bytes).loaded = loaded ∧
      (loadEmbeddedFileTree parse beyond tree archive.bytes).tree = made := by
  have hlength := archive.length_ge
  have hne : archive.bytes ≠ [] := by
    intro hnil
    rw [hnil] at hlength
    cases hlength
  have hwhole : 8 ≤ archive.bytes.length := by omega
  rw [makeEmbeddedFileTree] at h
  split_ifs at h with hshort
  have hheader : (List.range' 16 ((16 + headerSize archive.bytes) % 2 ^ 32 - 16)).map
      (byteAt beyond archive.bytes) =
        (archive.bytes.drop 16).take ((16 + headerSize archive.bytes) % 2 ^ 32 - 16) :=
    map_byteAt_range' (by omega)
  obtain ⟨rfl, rfl⟩ := Prod.mk.inj (Except.ok.inj h)
  rw [headerSize] at hheader
  simp only [loadEmbeddedFileTree, hne, if_false, readU32le_range' hwhole, hheader]
  exact ⟨rfl, rfl⟩

end Archives

/-! ### Safety -/

/-- A text is the text of an object. -/
def IsObject (parse : Str → Option Json) (text : Str) : Prop :=
  ∃ members, parse text = some (.obj members)

/-- A text is not parsed, or it is `null`. -/
def Refused (parse : Str → Option Json) (text : Str) : Prop :=
  parse text = none ∨ parse text = some .null

/-- No byte past the end is used, no computation wraps around, and a header that
does not fit the bytes or whose text is no object is rejected. -/
structure Loading.Safe (parse : Str → Option Json) (bytes : Str) (loading : Loading) : Prop where
  used : ∀ i ∈ loading.used, i < bytes.length
  exact : ∀ value ∈ loading.computed, 0 ≤ value ∧ value < 2 ^ 32
  rejected : bytes.length < 16 + loading.size ∨ ¬ IsObject parse ((bytes.drop 16).take loading.size) →
    loading.loaded = false

/-- The second word of the bytes: the length of the header and eight more. -/
def headerWord (bytes : Str) : ℕ := readU32le (bytes.drop 4)

/-- The text of the header. -/
def headerText (bytes : Str) : Str := (bytes.drop 16).take (headerWord bytes - 8)

/-- The condition for a bundle: the second word is there, it is neither too small
nor too large, and the parser refuses the header if it is no object, or if it is
cut off and filled up with zeros. -/
def BundleSound (parse : Str → Option Json) (bytes : Str) : Prop :=
  8 ≤ bytes.length ∧ 8 ≤ headerWord bytes ∧ headerWord bytes + 8 < 2 ^ 32 ∧
    if headerWord bytes + 8 ≤ bytes.length then
      IsObject parse (headerText bytes) ∨ Refused parse (headerText bytes)
    else Refused parse (fillBuffer (headerWord bytes - 8) (bytes.drop 16))

/-- The condition for a blob: it is empty; or the second word is there, it is
neither too small nor too large, the header is empty or fits the blob, and the
parser refuses it if it is no object. -/
def EmbeddedSound (parse : Str → Option Json) (bytes : Str) : Prop :=
  bytes = [] ∨ 8 ≤ bytes.length ∧ 8 ≤ headerWord bytes ∧ headerWord bytes + 8 < 2 ^ 32 ∧
    if headerWord bytes + 8 ≤ bytes.length then
      IsObject parse (headerText bytes) ∨ Refused parse (headerText bytes)
    else headerWord bytes = 8 ∧ Refused parse []

section Safety

variable {parse : Str → Option Json} {beyond : ℕ → Char} {bytes : Str} {tree : FileTree}

/-- A header is rejected exactly if the parser refuses it. -/
lemma isNull_treeOf_iff {size : ℕ} {header : Str} :
    (!(treeOf parse size header).fileTree.isNull) = false ↔ Refused parse header := by
  show (!((parse header).getD .null).isNull) = false ↔ _
  rw [Bool.not_eq_false', Refused]
  cases parse header with
  | none => simp [Json.isNull]
  | some j => cases j <;> simp [Json.isNull]

/-- The bundle loader where the second word is there and not too small. -/
lemma loadBundleFileTree_of_le (hlen : 8 ≤ bytes.length) (hword : 8 ≤ headerWord bytes) :
    loadBundleFileTree parse beyond bytes =
      { used := List.range' 4 4 ++
          List.range' 16 (min (headerWord bytes - 8) (bytes.length - 16))
        computed := [headerWord bytes - 8, ((headerWord bytes - 8 : ℕ) : ℤ) + 16]
        size := headerWord bytes - 8
        loaded := !(treeOf parse (headerWord bytes - 8)
          (fillBuffer (headerWord bytes - 8) (bytes.drop 16))).fileTree.isNull
        tree := treeOf parse (headerWord bytes - 8)
          (fillBuffer (headerWord bytes - 8) (bytes.drop 16)) } := by
  have hlt : headerWord bytes < 2 ^ 32 := readU32le_lt _
  have hsize := size_eq hlt hword
  rw [headerWord] at hsize
  simp only [loadBundleFileTree, readU32le_range' hlen, hsize]
  rfl

/-- A header that fits is its text. -/
lemma fillBuffer_header_of_le (h : headerWord bytes + 8 ≤ bytes.length) :
    fillBuffer (headerWord bytes - 8) (bytes.drop 16) = headerText bytes :=
  fillBuffer_of_le (by simp; omega)

/-- Where the second word is there and eight is taken from it, it is not too small. -/
lemma Loading.Safe.le_headerWord {loading : Loading} (h : loading.Safe parse bytes)
    (hlen : 8 ≤ bytes.length)
    (hcomputed : (readU32le ((List.range' 4 4).map (byteAt beyond bytes)) : ℤ) - 8 ∈ loading.computed) :
    8 ≤ headerWord bytes := by
  have hexact := (h.exact _ hcomputed).1
  rw [readU32le_range' hlen] at hexact
  rw [headerWord]
  omega

/-- A header that fits is rejected exactly if it is no object, where the parser
refuses what is rejected. -/
lemma object_or_refused_iff (hfits : headerWord bytes + 8 ≤ bytes.length)
    (hword : 8 ≤ headerWord bytes) :
    (bytes.length < 16 + (headerWord bytes - 8) ∨ ¬ IsObject parse (headerText bytes) →
      Refused parse (headerText bytes)) ↔
    IsObject parse (headerText bytes) ∨ Refused parse (headerText bytes) := by
  have hlength : ¬ bytes.length < 16 + (headerWord bytes - 8) := by omega
  rw [or_iff_right hlength, or_iff_not_imp_left]

/-- The bundle loader is safe exactly under its condition. -/
lemma bundle_safe_iff :
    (∀ beyond, (loadBundleFileTree parse beyond bytes).Safe parse bytes) ↔
      BundleSound parse bytes := by
  constructor
  · intro h
    have hsafe := h fun _ => '\x00'
    have hlen : 8 ≤ bytes.length := hsafe.used 7 (List.mem_append_left _ (by simp))
    have hword := hsafe.le_headerWord hlen List.mem_cons_self
    rw [loadBundleFileTree_of_le hlen hword] at hsafe
    have hlarge := (hsafe.exact _ (List.mem_cons_of_mem _ List.mem_cons_self)).2
    refine ⟨hlen, hword, by omega, ?_⟩
    have hrejected := fun hbad => isNull_treeOf_iff.mp (hsafe.rejected hbad)
    split_ifs with hfits
    · rw [fillBuffer_header_of_le hfits] at hrejected
      exact (object_or_refused_iff hfits hword).mp hrejected
    · exact hrejected (.inl (by show _ < 16 + (headerWord bytes - 8); omega))
  · rintro ⟨hlen, hword, hlarge, hparse⟩ beyond
    rw [loadBundleFileTree_of_le hlen hword]
    refine ⟨fun i hi => ?_, ?_, fun hbad => isNull_treeOf_iff.mpr ?_⟩
    · rcases List.mem_append.mp hi with hi | hi
      · have := (List.mem_range'_1.mp hi).2
        omega
      · have := List.mem_range'_1.mp hi
        omega
    · simp only [List.forall_mem_cons]
      refine ⟨by omega, by omega, by simp⟩
    · split_ifs at hparse with hfits
      · rw [fillBuffer_header_of_le hfits]
        exact (object_or_refused_iff hfits hword).mpr hparse hbad
      · exact hparse

/-- The loader of a blob where the second word is there and neither too small nor
too large. -/
lemma loadEmbeddedFileTree_of_le (hlen : 8 ≤ bytes.length) (hword : 8 ≤ headerWord bytes)
    (hlarge : headerWord bytes + 8 < 2 ^ 32) :
    loadEmbeddedFileTree parse beyond tree bytes =
      let header := (List.range' 16 (headerWord bytes - 8)).map (byteAt beyond bytes)
      { used := List.range 8 ++ List.range' 16 (headerWord bytes - 8)
        computed := [headerWord bytes - 8, ((headerWord bytes - 8 : ℕ) : ℤ) + 16,
          16 + ((headerWord bytes - 8 : ℕ) : ℤ)]
        size := headerWord bytes - 8
        loaded := !(treeOf parse (headerWord bytes - 8)
          (fillBuffer (headerWord bytes - 8) header)).fileTree.isNull
        tree := treeOf parse (headerWord bytes - 8)
          (fillBuffer (headerWord bytes - 8) header) } := by
  have hne : bytes ≠ [] := by
    rintro rfl
    cases hlen
  have hlt : headerWord bytes < 2 ^ 32 := readU32le_lt _
  have hsize := size_eq hlt hword
  have hbound : (16 + (headerWord bytes - 8)) % 2 ^ 32 - 16 = headerWord bytes - 8 := by omega
  rw [headerWord] at hsize hbound
  simp only [loadEmbeddedFileTree, hne, if_false, readU32le_range' hlen, hsize, hbound]
  rfl

/-- The header of a blob that it fits. -/
lemma fillBuffer_map_of_le (hword : 8 ≤ headerWord bytes)
    (h : headerWord bytes + 8 ≤ bytes.length) :
    fillBuffer (headerWord bytes - 8)
      ((List.range' 16 (headerWord bytes - 8)).map (byteAt beyond bytes)) = headerText bytes := by
  rw [map_byteAt_range' (by omega), fillBuffer_of_le (by simp; omega), List.take_take, Nat.min_self]
  rfl

/-- The second word of a blob that is loaded safely. -/
lemma headerWord_of_embedded_safe (hne : bytes ≠ [])
    (h : (loadEmbeddedFileTree parse beyond tree bytes).Safe parse bytes) :
    8 ≤ bytes.length ∧ 8 ≤ headerWord bytes ∧ headerWord bytes + 8 < 2 ^ 32 := by
  rw [loadEmbeddedFileTree, if_neg hne] at h
  have hlen : 8 ≤ bytes.length := h.used 7 (List.mem_append_left _ (by simp))
  have hword := h.le_headerWord hlen List.mem_cons_self
  refine ⟨hlen, hword, ?_⟩
  have hexact := (h.exact _ (List.mem_cons_of_mem _ List.mem_cons_self)).2
  rw [readU32le_range' hlen] at hexact
  rw [headerWord] at hword ⊢
  have hsize := size_eq (readU32le_lt (bytes.drop 4)) hword
  omega

/-- A blob that is loaded safely meets the condition. -/
lemma embeddedSound_of_safe
    (h : (loadEmbeddedFileTree parse beyond tree bytes).Safe parse bytes) :
    EmbeddedSound parse bytes := by
  by_cases hne : bytes = []
  · exact .inl hne
  obtain ⟨hlen, hword, hlarge⟩ := headerWord_of_embedded_safe hne h
  rw [loadEmbeddedFileTree_of_le hlen hword hlarge] at h
  refine .inr ⟨hlen, hword, hlarge, ?_⟩
  have hrejected := fun hbad => isNull_treeOf_iff.mp (h.rejected hbad)
  split_ifs with hfits
  · rw [fillBuffer_map_of_le hword hfits] at hrejected
    exact (object_or_refused_iff hfits hword).mp hrejected
  · -- the last byte of a header that is not empty lies past the end
    have height : headerWord bytes = 8 := by
      by_contra hne8
      have hlast := h.used (headerWord bytes + 7)
        (List.mem_append_right _ (List.mem_range'_1.mpr (by omega)))
      omega
    rw [height] at hrejected hfits
    exact ⟨height, hrejected (.inl (by omega))⟩

/-- A blob that meets the condition is loaded safely. -/
lemma EmbeddedSound.safe (h : EmbeddedSound parse bytes) :
    (loadEmbeddedFileTree parse beyond tree bytes).Safe parse bytes := by
  rcases h with hnil | ⟨hlen, hword, hlarge, hparse⟩
  · rw [loadEmbeddedFileTree, if_pos hnil]
    exact ⟨by simp, by simp, fun _ => rfl⟩
  rw [loadEmbeddedFileTree_of_le hlen hword hlarge]
  have hfits : headerWord bytes + 8 ≤ bytes.length ∨ headerWord bytes = 8 := by
    split_ifs at hparse with hfits
    · exact .inl hfits
    · exact .inr hparse.1
  refine ⟨fun i hi => ?_, ?_, fun hbad => isNull_treeOf_iff.mpr ?_⟩
  · rcases List.mem_append.mp hi with hi | hi
    · have := List.mem_range.mp hi
      omega
    · have := List.mem_range'_1.mp hi
      omega
  · simp only [List.forall_mem_cons]
    refine ⟨by omega, by omega, by omega, by simp⟩
  · split_ifs at hparse with hfits
    · rw [fillBuffer_map_of_le hword hfits]
      exact (object_or_refused_iff hfits hword).mpr hparse hbad
    · rw [hparse.1]
      exact hparse.2

/-- The loader of a blob is safe exactly under its condition. -/
lemma embedded_safe_iff :
    (∀ beyond, (loadEmbeddedFileTree parse beyond tree bytes).Safe parse bytes) ↔
      EmbeddedSound parse bytes :=
  ⟨fun h => embeddedSound_of_safe (h fun _ => '\x00'), fun h _ => h.safe⟩

/-- **The two loaders are safe**, whatever the memory holds past the end of the
bytes, exactly under their conditions. -/
theorem loads_safely_iff (parse : Str → Option Json) (tree : FileTree) (bytes : Str) :
    ((∀ beyond, (loadBundleFileTree parse beyond bytes).Safe parse bytes) ↔
        BundleSound parse bytes) ∧
      ((∀ beyond, (loadEmbeddedFileTree parse beyond tree bytes).Safe parse bytes) ↔
        EmbeddedSound parse bytes) :=
  ⟨bundle_safe_iff, embedded_safe_iff⟩

/-- A blob that ends before its header is read past its end. -/
theorem truncated_blob_overread :
    ¬ ∀ (parse : Str → Option Json) (tree : FileTree) (beyond : ℕ → Char) (bytes : Str),
      (loadBundleFileTree parse beyond bytes).Safe parse bytes ∧
        (loadEmbeddedFileTree parse beyond tree bytes).Safe parse bytes := by
  intro h
  have hsafe := (h (fun _ => none) {} (fun _ => '\x00')
    (u32le 4 ++ u32le 1008 ++ u32le 1004 ++ u32le 1000)).2
  have hused : 16 ∈ (loadEmbeddedFileTree (fun _ => none) (fun _ => '\x00') {}
      (u32le 4 ++ u32le 1008 ++ u32le 1004 ++ u32le 1000)).used := by
    have hword : headerWord (u32le 4 ++ u32le 1008 ++ u32le 1004 ++ u32le 1000) = 1008 := by decide
    rw [loadEmbeddedFileTree_of_le (by decide) (by rw [hword]; decide) (by rw [hword]; decide), hword]
    exact List.mem_append_right _ (List.mem_range'_1.mpr (by omega))
  exact absurd (hsafe.used 16 hused) (by decide)

end Safety

end Neutralino.resources
