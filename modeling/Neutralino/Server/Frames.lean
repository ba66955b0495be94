import Mathlib.Data.Nat.Bitwise
import Mathlib.Tactic.IntervalCases
import Neutralino.Library.WebSocketFrames

/-!
The headers of the frames of a WebSocket, and the masks of their payloads.

* `BasicHeader`, `ExtendedHeader`: the two parts of a header, read by `getFin` to
  `getMaskingKey` and made by `prepareHeader`.
* `prepareMaskingKey`, `circshiftPreparedKey`, `byteMaskCirc`: a key in a machine word, which
  is turned on from one portion of a payload to the next.
* `Prepared`, `byteMaskCirc_eq`: **the portions are masked as the payload is in one go.**
* `get_of_headBytes`, `exists_headBytes`: the fields of the header of a frame, and the headers
  that are those of frames.
-/

namespace Neutralino.websocketpp.frame

open WebSocket (Key Opcode bigEndian ofBigEndian mask headBytes firstByte lengthCode lengthBytes)

/-- `BASIC_HEADER_LENGTH`. -/
def basicHeaderLength : ℕ := 2

/-- `MAX_EXTENDED_HEADER_LENGTH`. -/
def maxExtendedHeaderLength : ℕ := 12

namespace opcode

/-- `CONTINUATION`. -/
def continuation : UInt8 := 0x0

/-- `TEXT`. -/
def text : UInt8 := 0x1

/-- `CLOSE`. -/
def close : UInt8 := 0x8

/-- `PING`. -/
def ping : UInt8 := 0x9

/-- `PONG`. -/
def pong : UInt8 := 0xA

/-- `reserved`. -/
def reserved (v : UInt8) : Bool := (0x3 ≤ v && v ≤ 0x7) || (0xB ≤ v && v ≤ 0xF)

/-- `invalid`. -/
def invalid (v : UInt8) : Bool := 0xF < v

/-- `is_control`. -/
def isControl (v : UInt8) : Bool := 0x8 ≤ v

end opcode

namespace limits

/-- `payload_size_basic`. -/
def payloadSizeBasic : ℕ := 125

/-- `payload_size_extended`. -/
def payloadSizeExtended : ℕ := 0xFFFF

end limits

/-- `payload_size_code_16bit`. -/
def payloadSizeCode16bit : ℕ := 0x7E

/-- `payload_size_code_64bit`. -/
def payloadSizeCode64bit : ℕ := 0x7F

/-! ### Headers -/

/-- `basic_header`. -/
structure BasicHeader where
  b0 : UInt8 := 0x00
  b1 : UInt8 := 0x00

/-- `basic_header` of an opcode and a size, with the reserved bits clear. -/
def BasicHeader.new (op : UInt8) (size : ℕ) (fin mask : Bool) : BasicHeader where
  b0 := (if fin then 0x80 else 0) ||| (op &&& 0x0F)
  b1 := (if mask then 0x80 else 0) ||| UInt8.ofNat
    (if size ≤ limits.payloadSizeBasic then size
    else if size ≤ limits.payloadSizeExtended then payloadSizeCode16bit
    else payloadSizeCode64bit)

/-- `extended_header`: twelve bytes. -/
structure ExtendedHeader where
  bytes : List UInt8 := List.replicate maxExtendedHeaderLength 0x00

/-- `copy_payload`: the bytes of the size that are copied. -/
def copyPayload (payloadSize : ℕ) : List UInt8 :=
  let payloadOffset :=
    if payloadSize ≤ limits.payloadSizeBasic then 8
    else if payloadSize ≤ limits.payloadSizeExtended then 6
    else 0
  (bigEndian payloadSize 8).drop payloadOffset

/-- `extended_header` of a size, without a key. -/
def ExtendedHeader.new (payloadSize : ℕ) : ExtendedHeader where
  bytes := copyPayload payloadSize ++
    List.replicate (maxExtendedHeaderLength - (copyPayload payloadSize).length) 0x00

section Header

variable (h : BasicHeader) (e : ExtendedHeader)

/-- `get_fin`. -/
def getFin : Bool := h.b0 &&& 0x80 == 0x80

/-- `get_rsv1`. -/
def getRsv1 : Bool := h.b0 &&& 0x40 == 0x40

/-- `get_rsv2`. -/
def getRsv2 : Bool := h.b0 &&& 0x20 == 0x20

/-- `get_rsv3`. -/
def getRsv3 : Bool := h.b0 &&& 0x10 == 0x10

/-- `get_opcode`. -/
def getOpcode : UInt8 := h.b0 &&& 0x0F

/-- `get_masked`. -/
def getMasked : Bool := h.b1 &&& 0x80 == 0x80

/-- `get_basic_size`. -/
def getBasicSize : ℕ := (h.b1 &&& 0x7F).toNat

/-- `get_masking_key_offset`. -/
def getMaskingKeyOffset : ℕ :=
  if getBasicSize h = payloadSizeCode16bit then 2
  else if getBasicSize h = payloadSizeCode64bit then 8
  else 0

/-- `get_header_len`. -/
def getHeaderLen : ℕ :=
  basicHeaderLength + getMaskingKeyOffset h + if getMasked h then 4 else 0

/-- `prepare_header`. -/
def prepareHeader : List UInt8 :=
  h.b0 :: h.b1 :: e.bytes.take (getHeaderLen h - basicHeaderLength)

/-- `get_masking_key`: its four bytes. -/
def getMaskingKey : Key :=
  if getMasked h then fun i => e.bytes.getD (getMaskingKeyOffset h + i) 0 else fun _ => 0

/-- `get_extended_size`. -/
def getExtendedSize : ℕ := ofBigEndian (e.bytes.take 2)

/-- `get_jumbo_size`. -/
def getJumboSize : ℕ := ofBigEndian (e.bytes.take 8)

/-- `get_payload_size`. -/
def getPayloadSize : ℕ :=
  if getBasicSize h ≤ limits.payloadSizeBasic then getBasicSize h
  else if getBasicSize h = payloadSizeCode16bit then getExtendedSize e
  else getJumboSize e

end Header

/-! ### Masks -/

/-- The number that four bytes are in the memory, where the lowest stands first. -/
def keyNumber (key : Key) : ℕ :=
  (key.byte 0).toNat + (key.byte 1).toNat * 2 ^ 8 + (key.byte 2).toNat * 2 ^ 16 +
    (key.byte 3).toNat * 2 ^ 24

/-- A byte of a number in the memory. -/
def byteOf (n k : ℕ) : UInt8 := UInt8.ofNat (n >>> (8 * k))

/-- `prepare_masking_key`: the key twice in a word of 64 bits. -/
def prepareMaskingKey (key : Key) : ℕ :=
  (keyNumber key <<< 32) % 2 ^ 64 ||| keyNumber key

/-- `circshift_prepared_key`. -/
def circshiftPreparedKey (preparedKey offset : ℕ) : ℕ :=
  if offset = 0 then preparedKey
  else preparedKey >>> (offset * 8) ||| (preparedKey <<< ((8 - offset) * 8)) % 2 ^ 64

/-- `byte_mask_circ`: the bytes, masked, and the key for the bytes behind them. -/
def byteMaskCirc (input : List UInt8) (preparedKey : ℕ) : List UInt8 × ℕ :=
  let key := preparedKey % 2 ^ 32
  (input.mapIdx fun i b => b ^^^ byteOf key (i % 4),
    circshiftPreparedKey preparedKey (input.length % 4))

/-- A word is a key that was turned on by `n` bytes. -/
def Prepared (key : Key) (n word : ℕ) : Prop :=
  word < 2 ^ 64 ∧ ∀ k < 8, byteOf word k = key.byte (n + k)

section Masks

variable {key : Key} {n word : ℕ}

lemma byteOf_eq_iff {m k k' : ℕ} : byteOf n k = byteOf m k' ↔
    ∀ i < 8, n.testBit (8 * k + i) = m.testBit (8 * k' + i) := by
  rw [byteOf, byteOf, ← UInt8.toNat_inj, UInt8.toNat_ofNat', UInt8.toNat_ofNat']
  constructor
  · intro h i hi
    have hbit := congrArg (·.testBit i) h
    simpa only [Nat.testBit_mod_two_pow, Nat.testBit_shiftRight, hi, decide_true,
      Bool.true_and] using hbit
  · intro h
    refine Nat.eq_of_testBit_eq fun i => ?_
    rw [Nat.testBit_mod_two_pow, Nat.testBit_mod_two_pow, Nat.testBit_shiftRight,
      Nat.testBit_shiftRight]
    by_cases hi : i < 8
    · rw [h i hi]
    · simp only [hi, decide_false, Bool.false_and]

lemma keyNumber_lt (key : Key) : keyNumber key < 2 ^ 32 := by
  have h0 := (key.byte 0).toNat_lt
  have h1 := (key.byte 1).toNat_lt
  have h2 := (key.byte 2).toNat_lt
  have h3 := (key.byte 3).toNat_lt
  rw [keyNumber]
  omega

lemma byteOf_keyNumber (key : Key) (k : ℕ) (hk : k < 4) :
    byteOf (keyNumber key) k = key.byte k := by
  have h0 := (key.byte 0).toNat_lt
  have h1 := (key.byte 1).toNat_lt
  have h2 := (key.byte 2).toNat_lt
  have h3 := (key.byte 3).toNat_lt
  rw [byteOf, ← UInt8.toNat_inj, UInt8.toNat_ofNat', Nat.shiftRight_eq_div_pow, keyNumber]
  interval_cases k <;> omega

/-- A key, as it is prepared. -/
lemma prepared_prepareMaskingKey (key : Key) : Prepared key 0 (prepareMaskingKey key) := by
  have hlt := keyNumber_lt key
  have hbyte (k : ℕ) (hk : k < 8) :
      byteOf (prepareMaskingKey key) k = byteOf (keyNumber key) (k % 4) := by
    rw [byteOf_eq_iff, prepareMaskingKey]
    intro i hi
    rw [Nat.testBit_or, Nat.testBit_mod_two_pow, Nat.testBit_shiftLeft]
    have hhigh (j : ℕ) (hj : 32 ≤ j) : (keyNumber key).testBit j = false :=
      Nat.testBit_lt_two_pow (lt_of_lt_of_le hlt (Nat.pow_le_pow_right (by decide) hj))
    by_cases hk4 : k < 4
    · have hlow : ¬ 32 ≤ 8 * k + i := by omega
      simp [hlow, Nat.mod_eq_of_lt hk4]
    · have hplace : 8 * k + i - 32 = 8 * (k % 4) + i := by omega
      have h64 : 8 * k + i < 64 := by omega
      have h32 : 32 ≤ 8 * k + i := by omega
      simp [hhigh _ h32, hplace, h64, h32]
  refine ⟨Nat.or_lt_two_pow (Nat.mod_lt _ (by decide)) (by omega), fun k hk => ?_⟩
  rw [hbyte k hk, byteOf_keyNumber key _ (Nat.mod_lt _ (by decide)), Nat.zero_add]
  exact congrArg key (Fin.ext (Nat.mod_mod k 4))

lemma byteOf_circshift (hword : word < 2 ^ 64) {off k : ℕ} (hoff : off < 8) (hk : k < 8) :
    byteOf (circshiftPreparedKey word off) k = byteOf word ((off + k) % 8) := by
  rw [byteOf_eq_iff, circshiftPreparedKey]
  intro i hi
  have hhigh (j : ℕ) (hj : 64 ≤ j) : word.testBit j = false :=
    Nat.testBit_lt_two_pow (lt_of_lt_of_le hword (Nat.pow_le_pow_right (by decide) hj))
  split_ifs with hzero
  · rw [hzero, Nat.zero_add, Nat.mod_eq_of_lt hk]
  · rw [Nat.testBit_or, Nat.testBit_shiftRight, Nat.testBit_mod_two_pow, Nat.testBit_shiftLeft]
    by_cases hsum : off + k < 8
    · have hlow : ¬ (8 - off) * 8 ≤ 8 * k + i := by omega
      have hplace : off * 8 + (8 * k + i) = 8 * (off + k) + i := by omega
      simp [hlow, hplace, Nat.mod_eq_of_lt hsum]
    · have hplace : 8 * k + i - (8 - off) * 8 = 8 * ((off + k) % 8) + i := by omega
      have h64 : 8 * k + i < 64 := by omega
      have hle : (8 - off) * 8 ≤ 8 * k + i := by omega
      have hover : 64 ≤ off * 8 + (8 * k + i) := by omega
      simp [hhigh _ hover, hplace, h64, hle]

/-- A key that is turned on. -/
lemma Prepared.circshift (h : Prepared key n word) (m : ℕ) :
    Prepared key (n + m) (circshiftPreparedKey word (m % 4)) := by
  have hm : m % 4 < 8 := by omega
  refine ⟨?_, fun k hk => ?_⟩
  · rw [circshiftPreparedKey]
    split_ifs with hzero
    · exact h.1
    · exact Nat.or_lt_two_pow
        (lt_of_le_of_lt (Nat.shiftRight_le _ _) h.1) (Nat.mod_lt _ (by decide))
  · rw [byteOf_circshift h.1 hm hk, h.2 _ (Nat.mod_lt _ (by decide))]
    exact congrArg key (Fin.ext (show (n + (m % 4 + k) % 8) % 4 = (n + m + k) % 4 by omega))

lemma Prepared.byteOf_low (h : Prepared key n word) {k : ℕ} (hk : k < 4) :
    byteOf (word % 2 ^ 32) k = key.byte (n + k) := by
  rw [← h.2 k (by omega), byteOf_eq_iff]
  intro i hi
  have hlt : 8 * k + i < 32 := by omega
  rw [Nat.testBit_mod_two_pow, decide_eq_true hlt, Bool.true_and]

/-- The masked bytes, from a place on. -/
lemma Prepared.mapIdx (h : Prepared key n word) (bytes : List UInt8) (m : ℕ) :
    bytes.mapIdx (fun i b => b ^^^ byteOf (word % 2 ^ 32) ((m + i) % 4)) =
      mask key (n + m) bytes := by
  induction bytes generalizing m with
  | nil => rfl
  | cons b bytes ih =>
      have hplace : key.byte (n + (m + 0) % 4) = key.byte (n + m) :=
        congrArg key (Fin.ext (show (n + (m + 0) % 4) % 4 = (n + m) % 4 by omega))
      rw [List.mapIdx_cons, mask, h.byteOf_low (Nat.mod_lt _ (by decide)), hplace,
        Nat.add_assoc, ← ih (m + 1)]
      simp only [Nat.add_assoc, Nat.add_comm 1]

/-- **The portions are masked as the payload is in one go.** -/
lemma byteMaskCirc_eq (h : Prepared key n word) (bytes : List UInt8) :
    (byteMaskCirc bytes word).1 = mask key n bytes ∧
      Prepared key (n + bytes.length) (byteMaskCirc bytes word).2 := by
  refine ⟨?_, h.circshift bytes.length⟩
  rw [byteMaskCirc, ← Nat.add_zero n, ← h.mapIdx bytes 0]
  simp only [Nat.zero_add]

end Masks

/-! ### Opcodes -/

section Opcodes

variable {op op' : Opcode}

lemma code_inj (hcode : op.code = op'.code) : op = op' := by
  cases op <;> cases op' <;> first | rfl | cases hcode

lemma isControl_code (op : Opcode) : opcode.isControl op.code = op.isControl := by
  cases op <;> decide

lemma code_eq_continuation : op.code = opcode.continuation ↔ op = .continuation := by
  cases op <;> decide

lemma code_eq_text : op.code = opcode.text ↔ op = .text := by
  cases op <;> decide

end Opcodes

/-! ### The header of a frame -/

section HeadBytes

variable {fin : Bool} {op : Opcode} {key : Key} {n : ℕ} {h : BasicHeader} {e : ExtendedHeader}
  {zeros : List UInt8}

lemma lengthCode_lt (n : ℕ) : lengthCode n < 128 := by
  rw [lengthCode]
  split_ifs <;> omega

/-- The bits of the first byte. -/
lemma first_byte (fin : Bool) (op : Opcode) (b1 : UInt8) :
    getFin ⟨firstByte fin op, b1⟩ = fin ∧ getRsv1 ⟨firstByte fin op, b1⟩ = false ∧
      getRsv2 ⟨firstByte fin op, b1⟩ = false ∧ getRsv3 ⟨firstByte fin op, b1⟩ = false ∧
      getOpcode ⟨firstByte fin op, b1⟩ = op.code := by
  have hall : (firstByte fin op &&& 0x80 == 0x80) = fin ∧
      (firstByte fin op &&& 0x40 == 0x40) = false ∧ (firstByte fin op &&& 0x20 == 0x20) = false ∧
      (firstByte fin op &&& 0x10 == 0x10) = false ∧ firstByte fin op &&& 0x0F = op.code := by
    cases fin <;> cases op <;> decide
  exact hall

/-- The bits of the second byte. -/
lemma second_byte (b0 : UInt8) {c : ℕ} (hc : c < 128) :
    getMasked ⟨b0, UInt8.ofNat (128 + c)⟩ = true ∧
      getBasicSize ⟨b0, UInt8.ofNat (128 + c)⟩ = c := by
  have hall : ∀ c < 128, (UInt8.ofNat (128 + c) &&& 0x80 == 0x80) = true ∧
      (UInt8.ofNat (128 + c) &&& 0x7F).toNat = c := by
    decide +kernel
  exact hall c hc

/-- The first bytes that are those of frames. -/
lemma exists_firstByte (h1 : getRsv1 h = false) (h2 : getRsv2 h = false) (h3 : getRsv3 h = false)
    (hreserved : opcode.reserved (getOpcode h) = false) :
    ∃ op : Opcode, op.code = getOpcode h ∧ h.b0 = firstByte (getFin h) op := by
  have hall : ∀ n < 256, (UInt8.ofNat n &&& 0x40 == 0x40) = false →
      (UInt8.ofNat n &&& 0x20 == 0x20) = false → (UInt8.ofNat n &&& 0x10 == 0x10) = false →
      opcode.reserved (UInt8.ofNat n &&& 0x0F) = false →
      [Opcode.continuation, .text, .binary, .close, .ping, .pong].any fun op =>
        op.code == UInt8.ofNat n &&& 0x0F &&
          UInt8.ofNat n == firstByte (UInt8.ofNat n &&& 0x80 == 0x80) op := by
    decide +kernel
  have hb := hall h.b0.toNat h.b0.toNat_lt
  rw [UInt8.ofNat_toNat] at hb
  obtain ⟨op, -, hop⟩ := List.any_eq_true.mp (hb h1 h2 h3 hreserved)
  rw [Bool.and_eq_true, beq_iff_eq, beq_iff_eq] at hop
  exact ⟨op, hop⟩

/-- The second bytes that are those of frames. -/
lemma exists_secondByte (h : BasicHeader) (hmasked : getMasked h = true) :
    h.b1 = UInt8.ofNat (128 + getBasicSize h) ∧ getBasicSize h < 128 := by
  have hall : ∀ n < 256, (UInt8.ofNat n &&& 0x80 == 0x80) = true →
      UInt8.ofNat n = UInt8.ofNat (128 + (UInt8.ofNat n &&& 0x7F).toNat) ∧
        (UInt8.ofNat n &&& 0x7F).toNat < 128 := by
    decide +kernel
  have hb := hall h.b1.toNat h.b1.toNat_lt
  rw [UInt8.ofNat_toNat] at hb
  exact hb hmasked

lemma length_lengthBytes (b0 : UInt8) (n : ℕ) :
    (lengthBytes n).length = getMaskingKeyOffset ⟨b0, UInt8.ofNat (128 + lengthCode n)⟩ := by
  rw [getMaskingKeyOffset, (second_byte b0 (lengthCode_lt n)).2, lengthCode, lengthBytes]
  split_ifs <;> first | rfl | simp_all [payloadSizeCode16bit, payloadSizeCode64bit]

/-- The length of the header of a frame. -/
lemma getHeaderLen_eq (b0 : UInt8) (n : ℕ) :
    getHeaderLen ⟨b0, UInt8.ofNat (128 + lengthCode n)⟩ = 6 + (lengthBytes n).length := by
  rw [getHeaderLen, (second_byte b0 (lengthCode_lt n)).1, length_lengthBytes b0]
  show 2 + _ + 4 = _
  omega

/-- The length of the payload, read back. -/
lemma getPayloadSize_eq (b0 : UInt8) (hn : n < 2 ^ 64) (key : Key)
    (he : e.bytes = lengthBytes n ++ (List.ofFn key ++ zeros)) :
    getPayloadSize ⟨b0, UInt8.ofNat (128 + lengthCode n)⟩ e = n := by
  rw [getPayloadSize, (second_byte b0 (lengthCode_lt n)).2, getExtendedSize, getJumboSize, he,
    lengthCode, lengthBytes]
  by_cases h125 : n ≤ 125
  · simp [h125, limits.payloadSizeBasic]
  · by_cases h16 : n ≤ 0xFFFF
    · have htake : ((bigEndian n 2 ++ (List.ofFn key ++ zeros)).take 2) = bigEndian n 2 :=
        List.take_left' (WebSocket.length_bigEndian n 2)
      simp only [if_neg h125, if_pos h16, htake]
      exact WebSocket.ofBigEndian_bigEndian (by omega)
    · have htake : ((bigEndian n 8 ++ (List.ofFn key ++ zeros)).take 8) = bigEndian n 8 :=
        List.take_left' (WebSocket.length_bigEndian n 8)
      simp only [if_neg h125, if_neg h16, htake]
      exact WebSocket.ofBigEndian_bigEndian (by omega)

/-- The key, read back. -/
lemma getMaskingKey_eq (b0 : UInt8) (he : e.bytes = lengthBytes n ++ (List.ofFn key ++ zeros)) :
    getMaskingKey ⟨b0, UInt8.ofNat (128 + lengthCode n)⟩ e = key := by
  rw [getMaskingKey, (second_byte b0 (lengthCode_lt n)).1, if_pos rfl, ← length_lengthBytes, he]
  funext i
  rw [List.getD_append_right _ _ _ _ (Nat.le_add_right _ _), Nat.add_sub_cancel_left,
    List.getD_append _ _ _ _ (by simp), List.getD_eq_getElem _ _ (by simp), List.getElem_ofFn]

/-- **The bytes behind a basic header are those of a frame**, if they have its length and the
length of the payload is written in as few bytes as it can be. -/
lemma exists_headBytes {ext : List UInt8} (hmasked : getMasked h = true)
    (he : e.bytes = ext ++ zeros) (hlength : ext.length + basicHeaderLength = getHeaderLen h)
    (h16 : getBasicSize h = payloadSizeCode16bit → limits.payloadSizeBasic < getPayloadSize h e)
    (h64 : getBasicSize h = payloadSizeCode64bit →
      limits.payloadSizeExtended < getPayloadSize h e) :
    getPayloadSize h e < 2 ^ 64 ∧
      getBasicSize h = lengthCode (getPayloadSize h e) ∧
      ext = lengthBytes (getPayloadSize h e) ++ List.ofFn (getMaskingKey h e) := by
  obtain ⟨-, hsize⟩ := exists_secondByte h hmasked
  rw [getHeaderLen, hmasked] at hlength
  have hext : ext.length = getMaskingKeyOffset h + 4 := by
    have hfour : ext.length + 2 = 2 + getMaskingKeyOffset h + 4 := hlength
    omega
  have hkey : ext.drop (getMaskingKeyOffset h) = List.ofFn (getMaskingKey h e) := by
    refine List.ext_getElem (by simp [hext]) fun i hi _ => ?_
    rw [List.length_drop] at hi
    rw [List.getElem_ofFn, getMaskingKey, hmasked, if_pos rfl, he, List.getElem_drop,
      List.getD_append _ _ _ _ (show getMaskingKeyOffset h + i < ext.length by omega),
      List.getD_eq_getElem]
  have hsplit : ext = ext.take (getMaskingKeyOffset h) ++ List.ofFn (getMaskingKey h e) := by
    rw [← hkey, List.take_append_drop]
  have htake (k : ℕ) (hk : k = getMaskingKeyOffset h) :
      e.bytes.take k = ext.take (getMaskingKeyOffset h) ∧
        (ext.take (getMaskingKeyOffset h)).length = k := by
    subst hk
    rw [he, List.take_append_of_le_length (by omega), List.length_take]
    exact ⟨rfl, by omega⟩
  by_cases hbasic : getBasicSize h ≤ limits.payloadSizeBasic
  · have hle : getBasicSize h ≤ 125 := hbasic
    have hoffset : getMaskingKeyOffset h = 0 := by
      rw [getMaskingKeyOffset, if_neg (by simp [payloadSizeCode16bit]; omega),
        if_neg (by simp [payloadSizeCode64bit]; omega)]
    have hpayload : getPayloadSize h e = getBasicSize h := if_pos hbasic
    rw [hpayload, lengthCode, if_pos hle, lengthBytes, if_pos hle]
    rw [hoffset] at hsplit
    exact ⟨by omega, rfl, hsplit⟩
  · by_cases hcode : getBasicSize h = payloadSizeCode16bit
    · have hoffset : getMaskingKeyOffset h = 2 := if_pos hcode
      obtain ⟨hbytes, hlen⟩ := htake 2 hoffset.symm
      have hpayload : getPayloadSize h e = ofBigEndian (ext.take (getMaskingKeyOffset h)) := by
        rw [getPayloadSize, if_neg hbasic, if_pos hcode, getExtendedSize, hbytes]
      have hlow : ¬ getPayloadSize h e ≤ 125 := Nat.not_le.mpr (h16 hcode)
      have hlt : getPayloadSize h e < 256 ^ 2 := by
        rw [hpayload, ← hlen]
        exact WebSocket.ofBigEndian_lt _
      have hle : getPayloadSize h e ≤ 0xFFFF := by omega
      have hback := WebSocket.bigEndian_ofBigEndian (ext.take (getMaskingKeyOffset h))
      rw [hlen, ← hpayload] at hback
      rw [lengthCode, if_neg hlow, if_pos hle, lengthBytes, if_neg hlow, if_pos hle, hback]
      exact ⟨by omega, hcode, hsplit⟩
    · have hcode' : getBasicSize h = payloadSizeCode64bit := by
        have hgt : ¬ getBasicSize h ≤ 125 := hbasic
        have hne : ¬ getBasicSize h = 126 := hcode
        show getBasicSize h = 127
        omega
      have hoffset : getMaskingKeyOffset h = 8 := by
        rw [getMaskingKeyOffset, if_neg hcode, if_pos hcode']
      obtain ⟨hbytes, hlen⟩ := htake 8 hoffset.symm
      have hpayload : getPayloadSize h e = ofBigEndian (ext.take (getMaskingKeyOffset h)) := by
        rw [getPayloadSize, if_neg hbasic, if_neg hcode, getJumboSize, hbytes]
      have hhigh : ¬ getPayloadSize h e ≤ 0xFFFF := Nat.not_le.mpr (h64 hcode')
      have hlow : ¬ getPayloadSize h e ≤ 125 := by omega
      have hlt : getPayloadSize h e < 256 ^ 8 := by
        rw [hpayload, ← hlen]
        exact WebSocket.ofBigEndian_lt _
      have hback := WebSocket.bigEndian_ofBigEndian (ext.take (getMaskingKeyOffset h))
      rw [hlen, ← hpayload] at hback
      rw [lengthCode, if_neg hlow, if_neg hhigh, lengthBytes, if_neg hlow, if_neg hhigh, hback]
      exact ⟨by omega, hcode', hsplit⟩

/-- Two headers with the same bytes, and the bytes behind them. -/
lemma headBytes_append_inj {fin' : Bool} {op' : Opcode} {key' : Key} {n' : ℕ}
    {x y : List UInt8} (hn : n < 2 ^ 64) (hn' : n' < 2 ^ 64)
    (heq : headBytes fin op key n ++ x = headBytes fin' op' key' n' ++ y) :
    fin = fin' ∧ op = op' ∧ key = key' ∧ n = n' ∧ x = y := by
  obtain ⟨hfirst, hsecond⟩ := List.cons.inj heq
  obtain ⟨hlength, hrest⟩ := List.cons.inj hsecond
  obtain ⟨hfin, -, -, -, hop⟩ := first_byte fin op 0
  obtain ⟨hfin', -, -, -, hop'⟩ := first_byte fin' op' 0
  rw [hfirst] at hfin hop
  have hbytes : (lengthBytes n ++ List.ofFn key) ++ x = lengthBytes n ++ (List.ofFn key ++ x) :=
    List.append_assoc _ _ _
  have hbytes' : (lengthBytes n ++ List.ofFn key) ++ x =
      lengthBytes n' ++ (List.ofFn key' ++ y) := hrest.trans (List.append_assoc _ _ _)
  have hsize := getPayloadSize_eq (e := ⟨_⟩) 0 hn key hbytes
  have hkey := getMaskingKey_eq (e := ⟨_⟩) 0 hbytes
  rw [hlength] at hsize hkey
  have hnn : n = n' := hsize.symm.trans (getPayloadSize_eq 0 hn' key' hbytes')
  have hkk : key = key' := hkey.symm.trans (getMaskingKey_eq 0 hbytes')
  subst hnn hkk
  refine ⟨hfin.symm.trans hfin', code_inj (hop.symm.trans hop'), rfl, rfl, ?_⟩
  exact List.append_cancel_left hrest

/-- Frames of which one begins with the other are one. -/
lemma encode_append_inj {f g : WebSocket.Frame} {x y : List UInt8}
    (heq : f.encode ++ x = g.encode ++ y) : f = g ∧ x = y := by
  obtain ⟨fin, op, key, payload, hlt⟩ := f
  obtain ⟨fin', op', key', payload', hlt'⟩ := g
  rw [WebSocket.Frame.encode, WebSocket.Frame.encode, List.append_assoc, List.append_assoc] at heq
  obtain ⟨rfl, rfl, rfl, hlength, hrest⟩ := headBytes_append_inj hlt hlt' heq
  obtain ⟨hmask, rfl⟩ := List.append_inj hrest (by simpa using hlength)
  have hpayload : payload = payload' := by
    calc payload = WebSocket.mask key 0 (WebSocket.mask key 0 payload) := WebSocket.mask_mask.symm
      _ = WebSocket.mask key 0 (WebSocket.mask key 0 payload') := by rw [hmask]
      _ = payload' := WebSocket.mask_mask
  subst hpayload
  exact ⟨rfl, rfl⟩

end HeadBytes

end Neutralino.websocketpp.frame
