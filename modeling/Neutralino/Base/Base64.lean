import Neutralino.Base.Helpers

/-!
`base64.hpp`: the codec of the binary data that requests and answers carry.

* `decodeStep`, `fromBase64`: the loop over the characters; a character that is neither
  a digit nor `=` makes the result empty.
* `encodeStep`, `toBase64`: the loop over the bytes, and the padding behind it.
* `toBase64Counted`, `fromBase64Counted`: the two with the `int` that they count in.
* `length_fromBase64`: **the number of bytes that come out**: one for every digit whose
  place is no multiple of four.
* `length_fromBase64_le`, `length_fromBase64_of_digits`: at most three for every four
  characters, and as many without `=`.
* `base64_roundTrip`: **the encoder writes base64**, four digits for every three bytes, and the
  decoder reads the bytes back, as long as an `int` counts them.
-/

namespace Neutralino.base64

/-- `get_base64_chars`. -/
def base64Chars : Str :=
  "ABCDEFGHIJKLMNOPQRSTUVWXYZabcdefghijklmnopqrstuvwxyz0123456789+/"

/-- The variables of the loop of `from_base64`. -/
structure Decoding where
  counter : ℕ := 0
  bitStream : UInt32 := 0
  decoded : Str := []

/-- The `char` of the lowest byte. -/
def lowByte (bits : UInt32) : Char := Char.ofNat (bits &&& 0xff).toNat

/-- The branch of a digit. -/
def takeDigit (d : Decoding) (numVal : ℕ) : Decoding :=
  let offset := 18 - d.counter % 4 * 6
  let bitStream := d.bitStream + UInt32.ofNat (numVal <<< offset)
  if offset = 12 then
    { counter := d.counter + 1, bitStream, decoded := d.decoded ++ [lowByte (bitStream >>> 16)] }
  else if offset = 6 then
    { counter := d.counter + 1, bitStream, decoded := d.decoded ++ [lowByte (bitStream >>> 8)] }
  else if offset = 0 ∧ d.counter ≠ 4 then
    { counter := d.counter + 1, bitStream := 0, decoded := d.decoded ++ [lowByte bitStream] }
  else { d with counter := d.counter + 1, bitStream }

/-- One turn of the loop of `from_base64`, absent where it returns the empty text. -/
def decodeStep (d : Decoding) (c : Char) : Option Decoding :=
  match base64Chars.idxOf? c with
  | some numVal => some (takeDigit d numVal)
  | none => if c = '=' then some { d with counter := d.counter + 1 } else none

/-- `from_base64`, of a text whose characters an `int` counts. -/
def fromBase64 (data : Str) : Str :=
  match data.foldlM decodeStep {} with
  | some d => d.decoded
  | none => []

/-! ### The encoder -/

/-- The variables of the loop of `to_base64`. -/
structure Encoding where
  counter : ℕ := 0
  bitStream : UInt32 := 0
  encoded : Str := []
  offset : ℕ := 0

/-- The digit of six bits. -/
def digit (v : ℕ) : Char := base64Chars.getD v 'A'

/-- The digit of the lowest six bits. -/
def digitOf (bits : UInt32) : Char := digit (bits &&& 0x3f).toNat

/-- One turn of the loop of `to_base64`. -/
def encodeStep (e : Encoding) (c : UInt8) : Encoding :=
  let offset := 16 - e.counter % 3 * 8
  let bitStream := e.bitStream + UInt32.ofNat (c.toNat <<< offset)
  let next := { e with counter := e.counter + 1, bitStream, offset }
  if offset = 16 then { next with encoded := e.encoded ++ [digitOf (bitStream >>> 18)] }
  else if offset = 8 then { next with encoded := e.encoded ++ [digitOf (bitStream >>> 12)] }
  else if offset = 0 ∧ e.counter ≠ 3 then
    { next with
      bitStream := 0
      encoded := e.encoded ++ [digitOf (bitStream >>> 6), digitOf bitStream] }
  else next

/-- What `to_base64` appends behind the loop. -/
def pad (e : Encoding) : Str :=
  if e.offset = 16 then [digitOf (e.bitStream >>> 12), '=', '=']
  else if e.offset = 8 then [digitOf (e.bitStream >>> 6), '=']
  else []

/-- `to_base64`, of bytes that an `int` counts. -/
def toBase64 (data : List UInt8) : Str :=
  let e := data.foldl encodeStep {}
  e.encoded ++ pad e

/-! ### The counters -/

/-- `counter++`: past the largest `int` this is undefined. -/
def increment (counter : ℕ) : Except Fault Unit :=
  if counter + 1 < 2 ^ 31 then .ok () else .error .undefinedBehaviour

/-- The loop of `to_base64`, with its counter. -/
def encodeCounted (e : Encoding) : List UInt8 → Except Fault Encoding
  | [] => .ok e
  | c :: data => do
      increment e.counter
      encodeCounted (encodeStep e c) data

/-- `to_base64`, with its counter. -/
def toBase64Counted (data : List UInt8) : Except Fault Str := do
  let e ← encodeCounted {} data
  return e.encoded ++ pad e

/-- The loop of `from_base64`, with its counter, and what is returned. -/
def decodeCounted (d : Decoding) : Str → Except Fault Str
  | [] => .ok d.decoded
  | c :: data =>
      match decodeStep d c with
      | none => .ok []
      | some d' => do
          increment d.counter
          decodeCounted d' data

/-- `from_base64`, with its counter. -/
def fromBase64Counted (data : Str) : Except Fault Str := decodeCounted {} data

/-- The base64 text of data: four digits for every three bytes. -/
def text : List UInt8 → Str
  | [] => []
  | [b] => [digit (b.toNat / 4), digit (b.toNat % 4 * 16), '=', '=']
  | [b, b'] => [digit (b.toNat / 4), digit (b.toNat % 4 * 16 + b'.toNat / 16),
      digit (b'.toNat % 16 * 4), '=']
  | b :: b' :: b'' :: data => digit (b.toNat / 4) :: digit (b.toNat % 4 * 16 + b'.toNat / 16) ::
      digit (b'.toNat % 16 * 4 + b''.toNat / 64) :: digit (b''.toNat % 64) :: text data

/-! ### How many bytes come out -/

/-- The digits of a text whose places, from `i` on, are no multiples of four. -/
def yielding : ℕ → Str → ℕ
  | _, [] => 0
  | i, c :: s => (if c ∈ base64Chars ∧ i % 4 ≠ 0 then 1 else 0) + yielding (i + 1) s

/-- A digit gives a byte unless it is the first of four. -/
lemma takeDigit_spec (d : Decoding) (numVal : ℕ) :
    (takeDigit d numVal).counter = d.counter + 1 ∧
      (takeDigit d numVal).decoded.length =
        d.decoded.length + if d.counter % 4 ≠ 0 then 1 else 0 := by
  have hcases : d.counter % 4 = 0 ∨ d.counter % 4 = 1 ∨ d.counter % 4 = 2 ∨
      d.counter % 4 = 3 ∧ d.counter ≠ 4 := by omega
  rcases hcases with h | h | h | ⟨h, h4⟩
  · simp [takeDigit, h]
  · simp [takeDigit, h]
  · simp [takeDigit, h]
  · simp [takeDigit, h, h4]

/-- A character of base64 text is a digit or pads. -/
def IsBase64 (s : Str) : Prop := ∀ c ∈ s, c ∈ base64Chars ∨ c = '='

lemma decodeStep_of_mem (d : Decoding) {c : Char} (h : c ∈ base64Chars ∨ c = '=') :
    ∃ d', decodeStep d c = some d' ∧ d'.counter = d.counter + 1 ∧
      d'.decoded.length =
        d.decoded.length + if c ∈ base64Chars ∧ d.counter % 4 ≠ 0 then 1 else 0 := by
  rw [decodeStep]
  cases hindex : base64Chars.idxOf? c with
  | none =>
      have hmem : c ∉ base64Chars := List.idxOf?_eq_none_iff.mp hindex
      exact ⟨_, if_pos (h.resolve_left hmem), rfl, by simp [hmem]⟩
  | some numVal =>
      have hmem : c ∈ base64Chars := by
        by_contra hmem
        simp [List.idxOf?_eq_none_iff.mpr hmem] at hindex
      obtain ⟨hcounter, hlength⟩ := takeDigit_spec d numVal
      exact ⟨_, rfl, hcounter, by simp [hlength, hmem]⟩

/-- **The number of bytes that come out** of a base64 text. -/
theorem length_fromBase64 {s : Str} (h : IsBase64 s) : (fromBase64 s).length = yielding 0 s := by
  have key : ∀ (s : Str) (d : Decoding), IsBase64 s → ∃ d', s.foldlM decodeStep d = some d' ∧
      d'.decoded.length = d.decoded.length + yielding d.counter s := by
    intro s
    induction s with
    | nil => exact fun d _ => ⟨d, rfl, rfl⟩
    | cons c s ih =>
        intro d hs
        obtain ⟨d', hstep, hcounter, hlength⟩ := decodeStep_of_mem d (hs c List.mem_cons_self)
        obtain ⟨d'', hfold, htotal⟩ := ih d' fun x hx => hs x (List.mem_cons_of_mem _ hx)
        refine ⟨d'', by rw [List.foldlM_cons, hstep]; exact hfold, ?_⟩
        rw [htotal, hlength, hcounter, yielding, Nat.add_assoc]
  obtain ⟨d, hfold, hlength⟩ := key s {} h
  rw [fromBase64, hfold, hlength]
  exact Nat.zero_add _

/-- Any other text is decoded to the empty one. -/
lemma fromBase64_of_not_isBase64 {s : Str} (h : ¬ IsBase64 s) : fromBase64 s = [] := by
  have key : ∀ (s : Str) (d : Decoding), ¬ IsBase64 s → s.foldlM decodeStep d = none := by
    intro s
    induction s with
    | nil => exact fun d hs => absurd (fun c hc => by cases hc) hs
    | cons c s ih =>
        intro d hs
        rw [List.foldlM_cons]
        by_cases hc : c ∈ base64Chars ∨ c = '='
        · obtain ⟨d', hstep, -⟩ := decodeStep_of_mem d hc
          rw [hstep]
          exact ih d' fun hrest => hs (List.forall_mem_cons.mpr ⟨hc, hrest⟩)
        · obtain ⟨hdigit, hpad⟩ := not_or.mp hc
          rw [decodeStep, List.idxOf?_eq_none_iff.mpr hdigit]
          simp [hpad]
  rw [fromBase64, key s {} h]

lemma yielding_le (i : ℕ) (s : Str) : i * 3 / 4 + yielding i s ≤ (i + s.length) * 3 / 4 := by
  induction s generalizing i with
  | nil => exact le_rfl
  | cons c s ih =>
      have hrest := ih (i + 1)
      have hstep : i * 3 / 4 + (if c ∈ base64Chars ∧ i % 4 ≠ 0 then 1 else 0) ≤
          (i + 1) * 3 / 4 := by
        split_ifs with hc
        · have hplace : i % 4 = 1 ∨ i % 4 = 2 ∨ i % 4 = 3 := by omega
          omega
        · omega
      rw [yielding, List.length_cons]
      omega

/-- **At most three bytes come out of four characters.** -/
theorem length_fromBase64_le (s : Str) : (fromBase64 s).length ≤ s.length * 3 / 4 := by
  by_cases h : IsBase64 s
  · rw [length_fromBase64 h]
    simpa using yielding_le 0 s
  · rw [fromBase64_of_not_isBase64 h]
    exact Nat.zero_le _

/-- Without padding, four digits give three bytes. -/
theorem length_fromBase64_of_digits {s : Str} (h : ∀ c ∈ s, c ∈ base64Chars) :
    (fromBase64 s).length = s.length * 3 / 4 := by
  have key : ∀ (s : Str) (i : ℕ), (∀ c ∈ s, c ∈ base64Chars) →
      i * 3 / 4 + yielding i s = (i + s.length) * 3 / 4 := by
    intro s
    induction s with
    | nil => exact fun i _ => rfl
    | cons c s ih =>
        intro i hs
        have hrest := ih (i + 1) fun x hx => hs x (List.mem_cons_of_mem _ hx)
        have hstep : i * 3 / 4 + (if c ∈ base64Chars ∧ i % 4 ≠ 0 then 1 else 0) =
            (i + 1) * 3 / 4 := by
          by_cases hi : i % 4 = 0
          · rw [if_neg fun h => h.2 hi]
            omega
          · have hplace : i % 4 = 1 ∨ i % 4 = 2 ∨ i % 4 = 3 := by omega
            rw [if_pos ⟨hs c List.mem_cons_self, hi⟩]
            omega
        rw [yielding, ← Nat.add_assoc, hstep, hrest, List.length_cons, Nat.add_right_comm,
          Nat.add_assoc]
  have hdigits := key s 0 h
  rw [length_fromBase64 fun c hc => .inl (h c hc)]
  simpa using hdigits

/-! ### Round trip -/

/-- A byte as a `char`. -/
def charOf (b : UInt8) : Char := Char.ofNat b.toNat

section RoundTrip

variable {d : Decoding} {e : Encoding}

lemma toNat_and_63 (bits : UInt32) : (bits &&& 0x3f).toNat = bits.toNat % 64 := by
  rw [UInt32.toNat_and]
  exact Nat.and_two_pow_sub_one_eq_mod bits.toNat 6

lemma lowByte_eq (bits : UInt32) : lowByte bits = Char.ofNat (bits.toNat % 256) := by
  rw [lowByte, UInt32.toNat_and]
  exact congrArg Char.ofNat (Nat.and_two_pow_sub_one_eq_mod bits.toNat 8)

lemma idxOf_digit : ∀ v < 64, base64Chars.idxOf? (digit v) = some v := by
  decide

/-- A digit is read as its six bits. -/
lemma decodeStep_digit {v : ℕ} (hv : v < 64) : decodeStep d (digit v) = some (takeDigit d v) := by
  rw [decodeStep, idxOf_digit v hv]

lemma foldlM_digit {v : ℕ} {s : Str} (hv : v < 64) :
    (digit v :: s).foldlM decodeStep d = s.foldlM decodeStep (takeDigit d v) := by
  rw [List.foldlM_cons, decodeStep_digit hv]
  rfl

/-- Between two groups of digits. -/
def Decoding.Fresh (d : Decoding) : Prop := d.counter % 4 = 0 ∧ d.bitStream = 0

/-- Between two groups of bytes. -/
def Encoding.Fresh (e : Encoding) : Prop := e.counter % 3 = 0 ∧ e.bitStream = 0 ∧ e.offset = 0

lemma toNat_shiftRight_ofNat {n k : ℕ} (hn : n < 2 ^ 32) (hk : k < 32) :
    (UInt32.ofNat n >>> UInt32.ofNat k).toNat = n / 2 ^ k := by
  rw [UInt32.toNat_shiftRight, UInt32.toNat_ofNat_of_lt' hn,
    UInt32.toNat_ofNat_of_lt' (hk.trans (by decide)), Nat.mod_eq_of_lt hk,
    Nat.shiftRight_eq_div_pow]

lemma lowByte_shiftRight {n k : ℕ} (hn : n < 2 ^ 32) (hk : k < 32) :
    lowByte (UInt32.ofNat n >>> UInt32.ofNat k) = Char.ofNat (n / 2 ^ k % 256) := by
  rw [lowByte_eq, toNat_shiftRight_ofNat hn hk]

lemma digitOf_shiftRight {n k : ℕ} (hn : n < 2 ^ 32) (hk : k < 32) :
    digitOf (UInt32.ofNat n >>> UInt32.ofNat k) = digit (n / 2 ^ k % 64) := by
  rw [digitOf, toNat_and_63, toNat_shiftRight_ofNat hn hk]

section Digits

variable {n v : ℕ}

lemma takeDigit_first (hd : d.Fresh) : takeDigit d v =
    { counter := d.counter + 1, bitStream := UInt32.ofNat (v * 2 ^ 18), decoded := d.decoded } := by
  obtain ⟨hplace, hbits⟩ := hd
  rw [takeDigit, hplace]
  simp [hbits, Nat.shiftLeft_eq]

lemma takeDigit_second (hplace : d.counter % 4 = 1) (hbits : d.bitStream = UInt32.ofNat n)
    (hlt : n + v * 2 ^ 12 < 2 ^ 32) : takeDigit d v = {
      counter := d.counter + 1
      bitStream := UInt32.ofNat (n + v * 2 ^ 12)
      decoded := d.decoded ++ [Char.ofNat ((n + v * 2 ^ 12) / 2 ^ 16 % 256)] } := by
  rw [← lowByte_shiftRight hlt (by decide), UInt32.ofNat_add, takeDigit, hplace, hbits,
    ← Nat.shiftLeft_eq]
  rfl

lemma takeDigit_third (hplace : d.counter % 4 = 2) (hbits : d.bitStream = UInt32.ofNat n)
    (hlt : n + v * 2 ^ 6 < 2 ^ 32) : takeDigit d v = {
      counter := d.counter + 1
      bitStream := UInt32.ofNat (n + v * 2 ^ 6)
      decoded := d.decoded ++ [Char.ofNat ((n + v * 2 ^ 6) / 2 ^ 8 % 256)] } := by
  rw [← lowByte_shiftRight hlt (by decide), UInt32.ofNat_add, takeDigit, hplace, hbits,
    ← Nat.shiftLeft_eq]
  rfl

lemma takeDigit_fourth (hplace : d.counter % 4 = 3) (hbits : d.bitStream = UInt32.ofNat n)
    (hlt : n + v < 2 ^ 32) : takeDigit d v = {
      counter := d.counter + 1
      bitStream := 0
      decoded := d.decoded ++ [Char.ofNat ((n + v) % 256)] } := by
  have hcounter : d.counter ≠ 4 := by
    rintro h4
    rw [h4] at hplace
    cases hplace
  have hbyte : lowByte (UInt32.ofNat n + UInt32.ofNat (v <<< 0)) = Char.ofNat ((n + v) % 256) := by
    rw [Nat.shiftLeft_zero, ← UInt32.ofNat_add, lowByte_eq, UInt32.toNat_ofNat_of_lt' hlt]
  rw [takeDigit, hplace, hbits, ← hbyte]
  exact (if_neg (by decide)).trans ((if_neg (by decide)).trans (if_pos ⟨rfl, hcounter⟩))

/-- The first byte, from two digits. -/
lemma takeDigit_two (hd : d.Fresh) (b : UInt8) (hv : v < 16) :
    takeDigit (takeDigit d (b.toNat / 4)) (b.toNat % 4 * 16 + v) = {
      counter := d.counter + 2
      bitStream := UInt32.ofNat (b.toNat * 2 ^ 16 + v * 2 ^ 12)
      decoded := d.decoded ++ [charOf b] } := by
  have hzero := hd.1
  have hb := b.toNat_lt
  have hplace : (d.counter + 1) % 4 = 1 := by omega
  have hsum : b.toNat / 4 * 2 ^ 18 + (b.toNat % 4 * 16 + v) * 2 ^ 12 =
      b.toNat * 2 ^ 16 + v * 2 ^ 12 := by omega
  have hlt : b.toNat / 4 * 2 ^ 18 + (b.toNat % 4 * 16 + v) * 2 ^ 12 < 2 ^ 32 := by omega
  have hbyte : (b.toNat * 2 ^ 16 + v * 2 ^ 12) / 2 ^ 16 % 256 = b.toNat := by omega
  rw [takeDigit_first hd, takeDigit_second hplace rfl hlt, hsum, hbyte]
  rfl

/-- The first two bytes, from three digits. -/
lemma takeDigit_three (hd : d.Fresh) (b b' : UInt8) (hv : v < 4) :
    takeDigit (takeDigit (takeDigit d (b.toNat / 4)) (b.toNat % 4 * 16 + b'.toNat / 16))
      (b'.toNat % 16 * 4 + v) = {
        counter := d.counter + 3
        bitStream := UInt32.ofNat (b.toNat * 2 ^ 16 + b'.toNat * 2 ^ 8 + v * 2 ^ 6)
        decoded := d.decoded ++ [charOf b, charOf b'] } := by
  have hzero := hd.1
  have hb := b.toNat_lt
  have hb' := b'.toNat_lt
  have hplace : (d.counter + 2) % 4 = 2 := by omega
  have hsum : b.toNat * 2 ^ 16 + b'.toNat / 16 * 2 ^ 12 + (b'.toNat % 16 * 4 + v) * 2 ^ 6 =
      b.toNat * 2 ^ 16 + b'.toNat * 2 ^ 8 + v * 2 ^ 6 := by omega
  have hlt : b.toNat * 2 ^ 16 + b'.toNat / 16 * 2 ^ 12 + (b'.toNat % 16 * 4 + v) * 2 ^ 6 <
      2 ^ 32 := by omega
  have hbyte : (b.toNat * 2 ^ 16 + b'.toNat * 2 ^ 8 + v * 2 ^ 6) / 2 ^ 8 % 256 = b'.toNat := by
    omega
  rw [takeDigit_two hd b (by omega), takeDigit_third hplace rfl hlt, hsum, hbyte,
    List.append_assoc]
  rfl

/-- Three bytes, from four digits. -/
lemma takeDigit_four (hd : d.Fresh) (b b' b'' : UInt8) :
    takeDigit (takeDigit (takeDigit (takeDigit d (b.toNat / 4))
      (b.toNat % 4 * 16 + b'.toNat / 16)) (b'.toNat % 16 * 4 + b''.toNat / 64))
      (b''.toNat % 64) = {
        counter := d.counter + 4
        bitStream := 0
        decoded := d.decoded ++ [charOf b, charOf b', charOf b''] } := by
  have hzero := hd.1
  have hb := b.toNat_lt
  have hb' := b'.toNat_lt
  have hb'' := b''.toNat_lt
  have hplace : (d.counter + 3) % 4 = 3 := by omega
  have hlt : b.toNat * 2 ^ 16 + b'.toNat * 2 ^ 8 + b''.toNat / 64 * 2 ^ 6 + b''.toNat % 64 <
      2 ^ 32 := by omega
  have hbyte : (b.toNat * 2 ^ 16 + b'.toNat * 2 ^ 8 + b''.toNat / 64 * 2 ^ 6 + b''.toNat % 64) %
      256 = b''.toNat := by omega
  rw [takeDigit_three hd b b' (by omega), takeDigit_fourth hplace rfl hlt, hbyte,
    List.append_assoc]
  rfl

end Digits

section Bytes

variable {n : ℕ} {b : UInt8}

lemma encodeStep_first (he : e.Fresh) : encodeStep e b = {
    counter := e.counter + 1
    bitStream := UInt32.ofNat (b.toNat * 2 ^ 16)
    encoded := e.encoded ++ [digit (b.toNat / 4)]
    offset := 16 } := by
  obtain ⟨hplace, hbits, -⟩ := he
  have hb := b.toNat_lt
  have hdigit : digitOf (UInt32.ofNat (b.toNat * 2 ^ 16) >>> UInt32.ofNat 18) =
      digit (b.toNat / 4) := by
    rw [digitOf_shiftRight (by omega) (by decide)]
    congr 1
    omega
  rw [← hdigit, encodeStep, hplace, hbits, ← Nat.shiftLeft_eq, UInt32.zero_add]
  rfl

lemma encodeStep_second (hplace : e.counter % 3 = 1) (hbits : e.bitStream = UInt32.ofNat n)
    (hlt : n + b.toNat * 2 ^ 8 < 2 ^ 32) : encodeStep e b = {
      counter := e.counter + 1
      bitStream := UInt32.ofNat (n + b.toNat * 2 ^ 8)
      encoded := e.encoded ++ [digit ((n + b.toNat * 2 ^ 8) / 2 ^ 12 % 64)]
      offset := 8 } := by
  rw [← digitOf_shiftRight hlt (by decide), UInt32.ofNat_add, encodeStep, hplace, hbits,
    ← Nat.shiftLeft_eq]
  rfl

lemma encodeStep_third (hplace : e.counter % 3 = 2) (hbits : e.bitStream = UInt32.ofNat n)
    (hlt : n + b.toNat < 2 ^ 32) : encodeStep e b = {
      counter := e.counter + 1
      bitStream := 0
      encoded := e.encoded ++ [digit ((n + b.toNat) / 2 ^ 6 % 64), digit ((n + b.toNat) % 64)]
      offset := 0 } := by
  have hcounter : e.counter ≠ 3 := by
    rintro h3
    rw [h3] at hplace
    cases hplace
  have hlast : digitOf (UInt32.ofNat (n + b.toNat)) = digit ((n + b.toNat) % 64) := by
    rw [digitOf, toNat_and_63, UInt32.toNat_ofNat_of_lt' hlt]
  rw [← digitOf_shiftRight hlt (by decide), ← hlast, UInt32.ofNat_add, encodeStep, hplace, hbits]
  exact (if_neg (by decide)).trans ((if_neg (by decide)).trans (if_pos ⟨rfl, hcounter⟩))

lemma encodeStep_two (he : e.Fresh) (b b' : UInt8) : encodeStep (encodeStep e b) b' = {
    counter := e.counter + 2
    bitStream := UInt32.ofNat (b.toNat * 2 ^ 16 + b'.toNat * 2 ^ 8)
    encoded := e.encoded ++ [digit (b.toNat / 4), digit (b.toNat % 4 * 16 + b'.toNat / 16)]
    offset := 8 } := by
  have hzero := he.1
  have hb := b.toNat_lt
  have hb' := b'.toNat_lt
  have hplace : (e.counter + 1) % 3 = 1 := by omega
  have hlt : b.toNat * 2 ^ 16 + b'.toNat * 2 ^ 8 < 2 ^ 32 := by omega
  have hdigit : (b.toNat * 2 ^ 16 + b'.toNat * 2 ^ 8) / 2 ^ 12 % 64 =
      b.toNat % 4 * 16 + b'.toNat / 16 := by omega
  rw [encodeStep_first he, encodeStep_second hplace rfl hlt, hdigit, List.append_assoc]
  rfl

lemma encodeStep_three (he : e.Fresh) (b b' b'' : UInt8) :
    encodeStep (encodeStep (encodeStep e b) b') b'' = {
      counter := e.counter + 3
      bitStream := 0
      encoded := e.encoded ++ [digit (b.toNat / 4), digit (b.toNat % 4 * 16 + b'.toNat / 16),
        digit (b'.toNat % 16 * 4 + b''.toNat / 64), digit (b''.toNat % 64)]
      offset := 0 } := by
  have hzero := he.1
  have hb := b.toNat_lt
  have hb' := b'.toNat_lt
  have hb'' := b''.toNat_lt
  have hplace : (e.counter + 2) % 3 = 2 := by omega
  have hlt : b.toNat * 2 ^ 16 + b'.toNat * 2 ^ 8 + b''.toNat < 2 ^ 32 := by omega
  have hthird : (b.toNat * 2 ^ 16 + b'.toNat * 2 ^ 8 + b''.toNat) / 2 ^ 6 % 64 =
      b'.toNat % 16 * 4 + b''.toNat / 64 := by omega
  have hfourth : (b.toNat * 2 ^ 16 + b'.toNat * 2 ^ 8 + b''.toNat) % 64 = b''.toNat % 64 := by
    omega
  rw [encodeStep_two he, encodeStep_third hplace rfl hlt, hthird, hfourth, List.append_assoc]
  rfl

end Bytes

/-- The encoder writes the text of the data. -/
lemma encode_text (data : List UInt8) (he : e.Fresh) :
    (data.foldl encodeStep e).encoded ++ pad (data.foldl encodeStep e) =
      e.encoded ++ text data := by
  induction data using text.induct generalizing e with
  | case1 =>
      rw [List.foldl_nil, pad, he.2.2]
      rfl
  | case2 b =>
      have hb := b.toNat_lt
      have hdigit : b.toNat * 2 ^ 16 / 2 ^ 12 % 64 = b.toNat % 4 * 16 := by omega
      have hpad : digitOf (UInt32.ofNat (b.toNat * 2 ^ 16) >>> UInt32.ofNat 12) =
          digit (b.toNat % 4 * 16) := by
        rw [digitOf_shiftRight (by omega) (by decide), hdigit]
      rw [List.foldl_cons, List.foldl_nil, encodeStep_first he, text, ← hpad, List.append_assoc]
      rfl
  | case3 b b' =>
      have hb := b.toNat_lt
      have hb' := b'.toNat_lt
      have hdigit : (b.toNat * 2 ^ 16 + b'.toNat * 2 ^ 8) / 2 ^ 6 % 64 = b'.toNat % 16 * 4 := by
        omega
      have hpad : digitOf (UInt32.ofNat (b.toNat * 2 ^ 16 + b'.toNat * 2 ^ 8) >>>
          UInt32.ofNat 6) = digit (b'.toNat % 16 * 4) := by
        rw [digitOf_shiftRight (by omega) (by decide), hdigit]
      rw [List.foldl_cons, List.foldl_cons, List.foldl_nil, encodeStep_two he, text, ← hpad,
        List.append_assoc]
      rfl
  | case4 b b' b'' data ih =>
      have hfresh : (e.counter + 3) % 3 = 0 := by
        rw [Nat.add_mod_right]
        exact he.1
      rw [List.foldl_cons, List.foldl_cons, List.foldl_cons, encodeStep_three he,
        ih ⟨hfresh, rfl, rfl⟩, text, List.append_assoc]
      rfl

lemma toBase64_eq (data : List UInt8) : toBase64 data = text data :=
  encode_text data ⟨rfl, rfl, rfl⟩

/-- The decoder reads the text of the data. -/
lemma decode_text (data : List UInt8) (hd : d.Fresh) : ∃ d',
    (text data).foldlM decodeStep d = some d' ∧ d'.decoded = d.decoded ++ data.map charOf := by
  induction data using text.induct generalizing d with
  | case1 => exact ⟨d, rfl, (List.append_nil _).symm⟩
  | case2 b =>
      have hb := b.toNat_lt
      have hread := takeDigit_two (v := 0) hd b (by decide)
      rw [Nat.add_zero] at hread
      rw [text, foldlM_digit (by omega), foldlM_digit (by omega), hread]
      exact ⟨_, rfl, rfl⟩
  | case3 b b' =>
      have hb := b.toNat_lt
      have hb' := b'.toNat_lt
      have hread := takeDigit_three (v := 0) hd b b' (by decide)
      rw [Nat.add_zero] at hread
      rw [text, foldlM_digit (by omega), foldlM_digit (by omega), foldlM_digit (by omega), hread]
      exact ⟨_, rfl, rfl⟩
  | case4 b b' b'' data ih =>
      have hb := b.toNat_lt
      have hb' := b'.toNat_lt
      have hb'' := b''.toNat_lt
      have hfresh : (d.counter + 4) % 4 = 0 := by
        rw [Nat.add_mod_right]
        exact hd.1
      rw [text, foldlM_digit (by omega), foldlM_digit (by omega), foldlM_digit (by omega),
        foldlM_digit (by omega), takeDigit_four hd]
      obtain ⟨d', hfold, hdecoded⟩ := ih (d := {
        counter := d.counter + 4
        bitStream := 0
        decoded := d.decoded ++ [charOf b, charOf b', charOf b''] }) ⟨hfresh, rfl⟩
      refine ⟨d', hfold, hdecoded.trans ?_⟩
      rw [List.append_assoc]
      rfl

lemma fromBase64_text (data : List UInt8) : fromBase64 (text data) = data.map charOf := by
  obtain ⟨d, hfold, hdecoded⟩ := decode_text data (d := {}) ⟨rfl, rfl⟩
  rw [fromBase64, hfold]
  exact hdecoded

/-! ### As far as an `int` counts -/

lemma encodeStep_counter (e : Encoding) (c : UInt8) :
    (encodeStep e c).counter = e.counter + 1 := by
  unfold encodeStep
  dsimp only
  split_ifs <;> rfl

/-- The encoder ends as long as every byte is counted. -/
lemma encodeCounted_eq (data : List UInt8) (he : e.counter < 2 ^ 31) :
    encodeCounted e data = if e.counter + data.length < 2 ^ 31 then .ok (data.foldl encodeStep e)
      else .error .undefinedBehaviour := by
  induction data generalizing e with
  | nil => exact (if_pos he).symm
  | cons c data ih =>
      rw [encodeCounted, increment, List.length_cons, List.foldl_cons]
      by_cases hcount : e.counter + 1 < 2 ^ 31
      · have hnext := encodeStep_counter e c
        rw [if_pos hcount, ok_bind, ih (by omega), hnext, Nat.add_assoc, Nat.add_comm 1]
      · rw [if_neg hcount, error_bind, if_neg (by omega)]

lemma decodeStep_counter {d' : Decoding} {c : Char} (h : decodeStep d c = some d') :
    d'.counter = d.counter + 1 := by
  unfold decodeStep at h
  split at h
  · cases h
    exact (takeDigit_spec d _).1
  · split at h
    · cases h
      rfl
    · cases h

/-- The decoder ends as long as every character is counted. -/
lemma decodeCounted_eq {s : Str} {d' : Decoding} (h : s.foldlM decodeStep d = some d')
    (hd : d.counter < 2 ^ 31) :
    decodeCounted d s = if d.counter + s.length < 2 ^ 31 then .ok d'.decoded
      else .error .undefinedBehaviour := by
  induction s generalizing d with
  | nil =>
      cases h
      exact (if_pos hd).symm
  | cons c s ih =>
      obtain ⟨d₁, hstep, hrest⟩ := Option.bind_eq_some_iff.mp h
      have hcounter := decodeStep_counter hstep
      rw [decodeCounted, hstep, List.length_cons]
      dsimp only
      rw [increment]
      by_cases hcount : d.counter + 1 < 2 ^ 31
      · rw [if_pos hcount, ok_bind, ih hrest (hcounter ▸ hcount), hcounter, Nat.add_assoc,
          Nat.add_comm 1]
      · rw [if_neg hcount, error_bind, if_neg (by omega)]

lemma length_text (data : List UInt8) : (text data).length = (data.length + 2) / 3 * 4 := by
  induction data using text.induct with
  | case1 => rfl
  | case2 b => simp [text]
  | case3 b b' => simp [text]
  | case4 b b' b'' data ih =>
      simp only [text, List.length_cons, ih]
      omega

/-- The encoder writes the text of data whose bytes an `int` counts. -/
lemma toBase64Counted_eq (data : List UInt8) : toBase64Counted data =
    if data.length < 2 ^ 31 then .ok (text data) else .error .undefinedBehaviour := by
  rw [toBase64Counted, encodeCounted_eq (e := {}) data (by decide), Nat.zero_add]
  split_ifs
  · exact congrArg Except.ok (toBase64_eq data)
  · rfl

/-- **The encoder writes base64**, four digits for every three bytes, and the decoder reads the
bytes back, each exactly as long as an `int` counts what it is given. -/
theorem base64_roundTrip (data : List UInt8) :
    (text data).length = (data.length + 2) / 3 * 4 ∧
      toBase64Counted data = (if data.length < 2 ^ 31 then .ok (text data)
        else .error .undefinedBehaviour) ∧
      fromBase64Counted (text data) = if (text data).length < 2 ^ 31 then .ok (data.map charOf)
        else .error .undefinedBehaviour := by
  refine ⟨length_text data, toBase64Counted_eq data, ?_⟩
  obtain ⟨d, hfold, hdecoded⟩ := decode_text data (d := {}) ⟨rfl, rfl⟩
  rw [fromBase64Counted, decodeCounted_eq hfold (by decide), hdecoded, Nat.zero_add]
  rfl

end RoundTrip

example : fromBase64 "TmV1dHJhbGlubw==" = "Neutralino".toList := by decide

end Neutralino.base64
