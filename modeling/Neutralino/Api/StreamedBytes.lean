import Neutralino.Api.OpenedReading
import Neutralino.Base.Base64

/-!
Bytes that are streamed to a client: the blocks of an opened file, in base64.

* `fs.binaryMessage`: the event that a block is sent in, which the encoder writes with an
  `int` that counts the bytes.
* `BytesSurvive`: what a client obtains from the messages and decodes is what was read.
* `bytesSurvive_iff`: **every block survives**, wherever the bytes are cut, that the encoder
  counts.
* `fs.binary_reads_survive`: **the bytes of an opened file survive**, read at once or block
  by block.
-/

namespace Neutralino

open JsonText serializer
open Utf8 (encode)

/-- The message of `__readStreamBlock` for a block of a binary event. -/
def fs.binaryMessage (virtualFileId : ℤ) (block : List UInt8) : Except Fault Json := do
  let data ← base64.toBase64Counted block
  return fs.openedFileMessage virtualFileId "dataBinary" (.str data)

/-- Bytes that are streamed in blocks survive: every block has its message, and the texts that
the client obtains from the messages are decoded to the bytes. -/
def BytesSurvive (virtualFileId : ℤ) (blocks : List (List UInt8)) (content : List UInt8) : Prop :=
  ∃ (messages : List Json) (parts : List Str),
    blocks.map (fs.binaryMessage virtualFileId) = messages.map .ok ∧
      List.Forall₂ Obtains (messages.map dump) parts ∧
      (parts.map base64.fromBase64).flatten = charsOf content

/-! ### One block -/

section Blocks

variable {block : List UInt8} {text : Str}

/-- A text of characters of one byte is its bytes. -/
lemma charsOf_encode {s : Str} (h : ∀ c ∈ s, c.toNat ≤ 0x7F) : charsOf (encode s) = s := by
  induction s with
  | nil => rfl
  | cons c s ih =>
      obtain ⟨hc, hs⟩ := List.forall_mem_cons.mp h
      have hbyte : (UInt8.ofNat c.toNat).toNat = c.toNat :=
        UInt8.toNat_ofNat_of_lt' (hc.trans_lt (by decide))
      rw [Utf8.encode_cons, Utf8.utf8EncodeChar_one hc, charsOf, List.map_append, List.map_cons,
        hbyte, Char.ofNat_toNat]
      exact congrArg (c :: ·) (ih hs)

lemma toNat_digit_le (v : ℕ) : (base64.digit v).toNat ≤ 0x7F := by
  have hchars : base64.base64Chars.all (fun c => decide (c.toNat ≤ 0x7F)) = true := rfl
  rw [base64.digit, List.getD_eq_getElem?_getD]
  cases hdigit : base64.base64Chars[v]? with
  | none => decide
  | some c => exact of_decide_eq_true (List.all_eq_true.mp hchars c (List.mem_of_getElem? hdigit))

lemma ascii_text (data : List UInt8) : ∀ c ∈ base64.text data, c.toNat ≤ 0x7F := by
  induction data using base64.text.induct with
  | case1 => simp [base64.text]
  | case2 b => simp [base64.text, toNat_digit_le]
  | case3 b b' => simp [base64.text, toNat_digit_le]
  | case4 b b' b'' data ih => simpa [base64.text, toNat_digit_le] using ih

/-- A block has a message as long as an `int` counts its bytes. -/
lemma binaryMessage_eq (id : ℤ) (block : List UInt8) : fs.binaryMessage id block =
    if block.length < 2 ^ 31 then
      .ok (fs.openedFileMessage id "dataBinary" (.str (base64.text block)))
    else .error .undefinedBehaviour := by
  rw [fs.binaryMessage, base64.toBase64Counted_eq]
  split_ifs <;> rfl

/-- A client obtains the base64 text of a block. -/
lemma obtains_binary_iff {id : ℤ} :
    Obtains (dump (fs.openedFileMessage id "dataBinary" (.str (base64.text block)))) text ↔
      text = base64.text block := by
  have hascii : charsOf (encode (base64.text block)) = base64.text block :=
    charsOf_encode (ascii_text block)
  have hrepaired : repaired (fs.openedFileMessage id "dataBinary" (.str (base64.text block))) =
      neuserver.makeEventPayload "openedFile"
        (eventWith id "dataBinary" (.str (base64.text block))) := by
    rw [fs.openedFileMessage, ← hascii, repaired_makeEventPayload id (by decide) (by decide),
      Utf8.repair_encode, hascii]
  exact obtains_iff_of_repaired hrepaired

/-- The messages of blocks. -/
lemma map_binaryMessage_iff {id : ℤ} {blocks : List (List UInt8)} {messages : List Json} :
    blocks.map (fs.binaryMessage id) = messages.map .ok ↔
      (∀ block ∈ blocks, block.length < 2 ^ 31) ∧ messages = blocks.map fun block =>
        fs.openedFileMessage id "dataBinary" (.str (base64.text block)) := by
  induction blocks generalizing messages with
  | nil => simp [eq_comm]
  | cons block blocks ih =>
      rw [List.map_cons, List.map_cons, List.forall_mem_cons]
      cases messages with
      | nil => simp
      | cons message messages =>
          rw [List.map_cons, List.cons.injEq, List.cons.injEq, ih, binaryMessage_eq, and_and_and_comm]
          refine and_congr_left fun _ => ?_
          by_cases hlength : block.length < 2 ^ 31
          · rw [if_pos hlength, Except.ok.injEq, eq_comm, and_iff_right hlength]
          · rw [if_neg hlength]
            exact iff_of_false nofun fun h => hlength h.1

/-- **Every block survives**, wherever the bytes are cut, whose bytes an `int` counts. -/
lemma bytesSurvive_iff {id : ℤ} {blocks : List (List UInt8)} {content : List UInt8} :
    BytesSurvive id blocks content ↔
      (∀ block ∈ blocks, block.length < 2 ^ 31) ∧ blocks.flatten = content := by
  have hparts : ∀ parts : List Str,
      List.Forall₂ Obtains ((blocks.map fun block =>
          fs.openedFileMessage id "dataBinary" (.str (base64.text block))).map dump) parts ↔
        parts = blocks.map base64.text := by
    intro parts
    rw [List.map_map, List.forall₂_map_left_iff, eq_comm, ← List.forall₂_eq_eq_eq,
      List.forall₂_map_left_iff]
    simp only [Function.comp_apply, obtains_binary_iff, eq_comm]
  have hdecoded : ((blocks.map base64.text).map base64.fromBase64).flatten =
      charsOf blocks.flatten := by
    rw [List.map_map, charsOf, List.map_flatten]
    congr 1
    exact List.map_congr_left fun block _ => base64.fromBase64_text block
  have hinjective : Function.Injective charsOf := Function.LeftInverse.injective bytesOf_charsOf
  have hflatten : charsOf blocks.flatten = charsOf content ↔ blocks.flatten = content :=
    hinjective.eq_iff
  rw [BytesSurvive]
  constructor
  · rintro ⟨messages, parts, hmessages, hobtains, hcontent⟩
    obtain ⟨hcounted, rfl⟩ := map_binaryMessage_iff.mp hmessages
    rw [(hparts parts).mp hobtains, hdecoded] at hcontent
    exact ⟨hcounted, hflatten.mp hcontent⟩
  · rintro ⟨hcounted, hcontent⟩
    exact ⟨_, _, map_binaryMessage_iff.mpr ⟨hcounted, rfl⟩, (hparts _).mpr rfl,
      hdecoded.trans (hflatten.mpr hcontent)⟩

end Blocks

/-! ### The blocks of a file -/

namespace fs

section Files

variable {s : OpenedFiles} {id : ℤ} {content : List UInt8} {size : ℤ} {maxSize limit : ℕ}

/-- A `string` of bytes is theirs. -/
lemma charsOf_bytesOf {chunk : Str} (h : chunk ⊆ charsOf content) :
    charsOf (bytesOf chunk) = chunk := by
  rw [charsOf, bytesOf, List.map_map]
  refine (List.map_congr_left fun c hc => ?_).trans (List.map_id chunk)
  obtain ⟨b, -, rfl⟩ := List.mem_map.mp (h hc)
  show Char.ofNat (UInt8.ofNat (Char.ofNat b.toNat).toNat).toNat = Char.ofNat b.toNat
  rw [toNat_ofNat_of_lt b.toNat_lt, UInt8.ofNat_toNat]

/-- **The bytes of an opened file survive** from any cursor on that the file system accepts, read
at once or block by block, whatever they are and wherever the blocks end, as long as the encoder
counts the bytes of a block. -/
theorem binary_reads_survive (o : ℕ) (hopened : OpenedOn s id (charsOf content) limit)
    (ho : o ≤ limit) (hsize : size ≠ 0) (hmax : blockSize { size := size } ≤ maxSize)
    (hcounted : blockSize { size := size } < 2 ^ 31 ∨ content.length < 2 ^ 31) :
    ∃ blocks : List (List UInt8), BytesSurvive id blocks (content.drop o) ∧
      HandsOverAtOnce maxSize s id o size true (blocks.map charsOf) ∧
      HandsOverOneByOne maxSize s id o size true (blocks.map charsOf) := by
  have hhandsOver : HandsOver maxSize s id (charsOf content) o size true :=
    handsOver_of_blocks hopened ho hsize hmax
  obtain ⟨chunks, hsizes, hchunks, honce, hsingle⟩ := hhandsOver
  have hdrop : (charsOf content).drop o = charsOf (content.drop o) := List.map_drop.symm
  rw [hdrop] at hchunks
  have hsubset : ∀ chunk ∈ chunks, chunk ⊆ charsOf (content.drop o) := fun chunk hchunk => by
    rw [← hchunks]
    exact fun c hc => List.mem_flatten.mpr ⟨chunk, hchunk, hc⟩
  have hblocks : (chunks.map bytesOf).map charsOf = chunks := by
    rw [List.map_map]
    exact (List.map_congr_left fun chunk hchunk => charsOf_bytesOf (hsubset chunk hchunk)).trans
      (List.map_id _)
  have hlength : ∀ block ∈ chunks.map bytesOf, block.length < 2 ^ 31 := by
    intro block hblock
    obtain ⟨chunk, hchunk, rfl⟩ := List.mem_map.mp hblock
    have hsize' := (hsizes chunk hchunk).2
    have hwhole : chunk.length ≤ content.length := by
      have hle := (List.sublist_flatten_of_mem hchunk).length_le
      rw [hchunks, charsOf, List.length_map, List.length_drop] at hle
      omega
    rw [bytesOf, List.length_map]
    omega
  refine ⟨chunks.map bytesOf, bytesSurvive_iff.mpr ⟨hlength, ?_⟩, ?_, ?_⟩
  · rw [← bytesOf_charsOf (content.drop o), ← hchunks, bytesOf, List.map_flatten]
    rfl
  · rw [hblocks]
    exact honce
  · rw [hblocks]
    exact hsingle

/-- A file of one character is open. -/
def openedLetter : OpenedFiles where
  openedFiles := AList.insert 0 0 ∅
  readers := [{ file := "/tmp/e", bytes := charsOf [0xC3, 0xA9] }]

/-- A character that is cut arrives. -/
theorem cut_character_survives : ∃ blocks : List (List UInt8),
    BytesSurvive 0 blocks ([0xC3, 0xA9].drop 0) ∧
      HandsOverAtOnce 256 openedLetter 0 0 1 true (blocks.map charsOf) ∧
      HandsOverOneByOne 256 openedLetter 0 0 1 true (blocks.map charsOf) :=
  binary_reads_survive 0 ⟨_, ⟨0, rfl, rfl⟩, rfl, rfl⟩ (by decide) (by decide) (by decide)
    (.inl (by decide))

end Files

end fs

end Neutralino
