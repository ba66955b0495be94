import Mathlib.Data.Char
import Mathlib.Data.List.Basic
import Mathlib.Algebra.Order.BigOperators.Group.List
import Mathlib.Algebra.Order.Ring.Nat

/-!
UTF-8, read byte by byte, with a replacement character for what is not text.

* `encode`: the bytes of a text.
* `Shape`, `Partial`, `first`, `Partial.next`: what was read of a character, and what
  one more byte makes of it.
* `repair`: the text that bytes are taken for; an incomplete character and a byte
  that begins none become `replacement`.
* `repair_encode`: **the bytes of a text are taken for it.**
* `repair_chunks_iff`: **bytes that are repaired chunk by chunk** give the text
  exactly if every cut falls between two characters.
-/

namespace Utf8

/-- The bytes of a text. -/
def encode (text : List Char) : List UInt8 := text.flatMap String.utf8EncodeChar

@[simp] lemma encode_nil : encode [] = [] := rfl

@[simp] lemma encode_cons (c : Char) (text : List Char) :
    encode (c :: text) = String.utf8EncodeChar c ++ encode text := rfl

@[simp] lemma encode_append (text text' : List Char) :
    encode (text ++ text') = encode text ++ encode text' := by
  rw [encode, List.flatMap_append]
  rfl

/-- A byte that continues a character. -/
def isTail (b : UInt8) : Bool := 0x80 ≤ b.toNat && b.toNat ≤ 0xBF

/-! ### One character -/

/-- What is to come of a character: one, two or three tails, of which the first
has narrower bounds after four of the leading bytes. -/
inductive Shape where
  | tail1
  | tail2
  | tail3
  | afterE0
  | afterED
  | afterF0
  | afterF4

namespace Shape

/-- The least byte to come. -/
def low : Shape → ℕ
  | afterE0 => 0xA0
  | afterF0 => 0x90
  | _ => 0x80

/-- The greatest byte to come. -/
def high : Shape → ℕ
  | afterED => 0x9F
  | afterF4 => 0x8F
  | _ => 0xBF

/-- What is to come after the next byte. -/
def next : Shape → Option Shape
  | tail1 => none
  | tail2 | afterE0 | afterED => some tail1
  | tail3 | afterF0 | afterF4 => some tail2

lemma le_low (shape : Shape) : 0x80 ≤ shape.low := by
  cases shape <;> decide

lemma high_le (shape : Shape) : shape.high ≤ 0xBF := by
  cases shape <;> decide

end Shape

/-- A character that was read in part, with the bits so far. -/
structure Partial where
  shape : Shape
  value : ℕ

/-- What a byte makes of what was read. -/
inductive Outcome where
  | char (c : Char)
  | more (p : Partial)
  | bad

/-- A byte that is to begin a character. -/
def first (b : UInt8) : Outcome :=
  let n := b.toNat
  if n ≤ 0x7F then .char (Char.ofNat n)
  else if n < 0xC2 then .bad
  else if n ≤ 0xDF then .more ⟨.tail1, n - 0xC0⟩
  else if n = 0xE0 then .more ⟨.afterE0, 0⟩
  else if n = 0xED then .more ⟨.afterED, 0xD⟩
  else if n ≤ 0xEF then .more ⟨.tail2, n - 0xE0⟩
  else if n = 0xF0 then .more ⟨.afterF0, 0⟩
  else if n ≤ 0xF3 then .more ⟨.tail3, n - 0xF0⟩
  else if n = 0xF4 then .more ⟨.afterF4, 4⟩
  else .bad

/-- A byte that is to continue a character. -/
def Partial.next (p : Partial) (b : UInt8) : Outcome :=
  if p.shape.low ≤ b.toNat ∧ b.toNat ≤ p.shape.high then
    let value := p.value * 64 + (b.toNat - 0x80)
    match p.shape.next with
    | none => .char (Char.ofNat value)
    | some shape => .more ⟨shape, value⟩
  else .bad

/-- The bytes that complete a character. -/
inductive Completes : Partial → List UInt8 → Char → Prop
  | last {p : Partial} {b : UInt8} {c : Char} : p.next b = .char c → Completes p [b] c
  | more {p p' : Partial} {b : UInt8} {bytes : List UInt8} {c : Char} :
      p.next b = .more p' → Completes p' bytes c → Completes p (b :: bytes) c

/-- The bytes of one character, as they are read. -/
inductive Reads : List UInt8 → Char → Prop
  | single {b : UInt8} {c : Char} : first b = .char c → Reads [b] c
  | several {b : UInt8} {p : Partial} {bytes : List UInt8} {c : Char} :
      first b = .more p → Completes p bytes c → Reads (b :: bytes) c

section OneCharacter

variable {p : Partial} {b : UInt8} {bytes : List UInt8} {c : Char} {v : ℕ}

/-- Whether a byte is within the bounds. -/
def Partial.Within (p : Partial) (b : UInt8) : Prop :=
  p.shape.low ≤ b.toNat ∧ b.toNat ≤ p.shape.high

lemma next_eq_char_iff : p.next b = .char c ↔ p.Within b ∧ p.shape.next = none ∧
    c = Char.ofNat (p.value * 64 + (b.toNat - 0x80)) := by
  rw [Partial.next, Partial.Within]
  split_ifs with hwithin
  · cases hnext : p.shape.next with
    | none => simp [hwithin, eq_comm]
    | some shape => simp
  · simp [hwithin]

lemma next_eq_more_iff {p' : Partial} : p.next b = .more p' ↔ p.Within b ∧
    p.shape.next = some p'.shape ∧ p'.value = p.value * 64 + (b.toNat - 0x80) := by
  rw [Partial.next, Partial.Within]
  split_ifs with hwithin
  · cases hnext : p.shape.next with
    | none => simp
    | some shape =>
        simp only [Outcome.more.injEq, hwithin, true_and, Option.some.injEq, and_self]
        constructor
        · rintro rfl
          exact ⟨rfl, rfl⟩
        · rintro ⟨rfl, hvalue⟩
          rw [← hvalue]
  · simp [hwithin]

/-- A byte that continues a character is a tail. -/
lemma Partial.Within.isTail (h : p.Within b) : isTail b = true := by
  rw [Utf8.isTail, Bool.and_eq_true, decide_eq_true_eq, decide_eq_true_eq]
  exact ⟨le_trans p.shape.le_low h.1, le_trans h.2 p.shape.high_le⟩

/-- The last byte to come. -/
lemma completes_last (hnext : p.shape.next = none) : Completes p bytes c ↔
    ∃ x, bytes = [x] ∧ p.Within x ∧ c = Char.ofNat (p.value * 64 + (x.toNat - 0x80)) := by
  constructor
  · intro h
    cases h with
    | last h =>
        obtain ⟨hwithin, -, hc⟩ := next_eq_char_iff.mp h
        exact ⟨_, rfl, hwithin, hc⟩
    | more h _ =>
        obtain ⟨-, hsome, -⟩ := next_eq_more_iff.mp h
        rw [hnext] at hsome
        cases hsome
  · rintro ⟨x, rfl, hwithin, hc⟩
    exact .last (next_eq_char_iff.mpr ⟨hwithin, hnext, hc⟩)

/-- More than one to come. -/
lemma completes_more {shape : Shape} (hnext : p.shape.next = some shape) : Completes p bytes c ↔
    ∃ x rest, bytes = x :: rest ∧ p.Within x ∧
      Completes ⟨shape, p.value * 64 + (x.toNat - 0x80)⟩ rest c := by
  constructor
  · intro h
    cases h with
    | last h =>
        obtain ⟨-, hnone, -⟩ := next_eq_char_iff.mp h
        rw [hnext] at hnone
        cases hnone
    | @more _ p' _ _ _ h hrest =>
        obtain ⟨hwithin, hsome, hvalue⟩ := next_eq_more_iff.mp h
        obtain rfl : shape = p'.shape := by
          rw [hnext] at hsome
          exact Option.some.inj hsome
        exact ⟨_, _, rfl, hwithin, by rwa [← hvalue]⟩
  · rintro ⟨x, rest, rfl, hwithin, hrest⟩
    have hmore : p.next x = .more ⟨shape, p.value * 64 + (x.toNat - 0x80)⟩ :=
      next_eq_more_iff.mpr ⟨hwithin, hnext, rfl⟩
    exact .more hmore hrest

/-- One tail to come. -/
lemma completes_tail1 : Completes ⟨.tail1, v⟩ bytes c ↔
    ∃ x, bytes = [x] ∧ isTail x = true ∧ c = Char.ofNat (v * 64 + (x.toNat - 0x80)) := by
  rw [completes_last rfl]
  simp only [Partial.Within, isTail, Shape.low, Shape.high, Bool.and_eq_true, decide_eq_true_eq]

/-- Two to come. -/
lemma completes_two (hnext : p.shape.next = some .tail1) : Completes p bytes c ↔
    ∃ x y, bytes = [x, y] ∧ p.Within x ∧ isTail y = true ∧
      c = Char.ofNat ((p.value * 64 + (x.toNat - 0x80)) * 64 + (y.toNat - 0x80)) := by
  rw [completes_more hnext]
  simp only [completes_tail1]
  constructor
  · rintro ⟨x, _, rfl, hx, y, rfl, hy, hc⟩
    exact ⟨x, y, rfl, hx, hy, hc⟩
  · rintro ⟨x, y, rfl, hx, hy, hc⟩
    exact ⟨x, _, rfl, hx, y, rfl, hy, hc⟩

/-- Two tails to come. -/
lemma completes_tail2 : Completes ⟨.tail2, v⟩ bytes c ↔
    ∃ x y, bytes = [x, y] ∧ isTail x = true ∧ isTail y = true ∧
      c = Char.ofNat ((v * 64 + (x.toNat - 0x80)) * 64 + (y.toNat - 0x80)) := by
  rw [completes_two rfl]
  simp only [Partial.Within, isTail, Shape.low, Shape.high, Bool.and_eq_true, decide_eq_true_eq]

/-- Three to come. -/
lemma completes_three (hnext : p.shape.next = some .tail2) : Completes p bytes c ↔
    ∃ x y z, bytes = [x, y, z] ∧ p.Within x ∧ isTail y = true ∧ isTail z = true ∧
      c = Char.ofNat (((p.value * 64 + (x.toNat - 0x80)) * 64 + (y.toNat - 0x80)) * 64 +
        (z.toNat - 0x80)) := by
  rw [completes_more hnext]
  simp only [completes_tail2]
  constructor
  · rintro ⟨x, _, rfl, hx, y, z, rfl, hy, hz, hc⟩
    exact ⟨x, y, z, rfl, hx, hy, hz, hc⟩
  · rintro ⟨x, y, z, rfl, hx, hy, hz, hc⟩
    exact ⟨x, _, rfl, hx, y, z, rfl, hy, hz, hc⟩

/-! The bytes of a character by its number. -/

lemma utf8EncodeChar_one (h : c.toNat ≤ 0x7F) :
    String.utf8EncodeChar c = [UInt8.ofNat c.toNat] := if_pos h

lemma utf8EncodeChar_two (h : 0x7F < c.toNat) (h' : c.toNat ≤ 0x7FF) :
    String.utf8EncodeChar c = [UInt8.ofNat (c.toNat / 64 % 32 + 0xC0),
      UInt8.ofNat (c.toNat % 64 + 0x80)] :=
  (if_neg (not_le.mpr h)).trans (if_pos h')

lemma utf8EncodeChar_three (h : 0x7FF < c.toNat) (h' : c.toNat ≤ 0xFFFF) :
    String.utf8EncodeChar c = [UInt8.ofNat (c.toNat / 4096 % 16 + 0xE0),
      UInt8.ofNat (c.toNat / 64 % 64 + 0x80), UInt8.ofNat (c.toNat % 64 + 0x80)] :=
  (if_neg (by show ¬ c.toNat ≤ 0x7F; omega)).trans
    ((if_neg (not_le.mpr h)).trans (if_pos h'))

lemma utf8EncodeChar_four (h : 0xFFFF < c.toNat) :
    String.utf8EncodeChar c = [UInt8.ofNat (c.toNat / 262144 % 8 + 0xF0),
      UInt8.ofNat (c.toNat / 4096 % 64 + 0x80), UInt8.ofNat (c.toNat / 64 % 64 + 0x80),
      UInt8.ofNat (c.toNat % 64 + 0x80)] :=
  (if_neg (by show ¬ c.toNat ≤ 0x7F; omega)).trans
    ((if_neg (by show ¬ c.toNat ≤ 0x7FF; omega)).trans (if_neg (not_le.mpr h)))

/-! What begins with a byte, by its number. -/

lemma first_one (h : b.toNat ≤ 0x7F) : first b = .char (Char.ofNat b.toNat) := if_pos h

lemma first_two (h : 0xC2 ≤ b.toNat) (h' : b.toNat ≤ 0xDF) :
    first b = .more ⟨.tail1, b.toNat - 0xC0⟩ := by
  simp only [first]
  rw [if_neg (by omega), if_neg (by omega), if_pos h']

lemma first_three (h : 0xE0 ≤ b.toNat) (h' : b.toNat ≤ 0xEF) :
    ∃ shape : Shape, first b = .more ⟨shape, b.toNat - 0xE0⟩ ∧ shape.next = some .tail1 ∧
      shape.low = (if b.toNat = 0xE0 then 0xA0 else 0x80) ∧
        shape.high = if b.toNat = 0xED then 0x9F else 0xBF := by
  simp only [first]
  rw [if_neg (by omega), if_neg (by omega), if_neg (by omega)]
  split_ifs with hE0 hED hED
  · omega
  · exact ⟨.afterE0, by rw [hE0], rfl, rfl, rfl⟩
  · exact ⟨.afterED, by rw [hED], rfl, rfl, rfl⟩
  · exact ⟨.tail2, rfl, rfl, rfl, rfl⟩

lemma first_four (h : 0xF0 ≤ b.toNat) (h' : b.toNat ≤ 0xF4) :
    ∃ shape : Shape, first b = .more ⟨shape, b.toNat - 0xF0⟩ ∧ shape.next = some .tail2 ∧
      shape.low = (if b.toNat = 0xF0 then 0x90 else 0x80) ∧
        shape.high = if b.toNat = 0xF4 then 0x8F else 0xBF := by
  simp only [first]
  rw [if_neg (by omega), if_neg (by omega), if_neg (by omega), if_neg (by omega),
    if_neg (by omega), if_neg (by omega)]
  split_ifs with hF0 hF4 hF3
  · omega
  · exact ⟨.afterF0, by rw [hF0], rfl, rfl, rfl⟩
  · omega
  · exact ⟨.tail3, rfl, rfl, rfl, rfl⟩
  · exact ⟨.afterF4, by rw [(by omega : b.toNat = 0xF4)], rfl, rfl, rfl⟩
  · omega

lemma first_bad (h : 0x7F < b.toNat ∧ b.toNat < 0xC2 ∨ 0xF4 < b.toNat) : first b = .bad := by
  simp only [first]
  rw [if_neg (by omega)]
  split_ifs with h1 h2 h3 h4 h5 h6 h7 h8
  all_goals first | rfl | omega

/-- A tail begins no character. -/
lemma first_of_isTail (h : isTail b = true) : first b = .bad := by
  rw [isTail, Bool.and_eq_true, decide_eq_true_eq, decide_eq_true_eq] at h
  exact first_bad (.inl (by omega))

lemma first_eq_char (h : first b = .char c) : b.toNat ≤ 0x7F ∧ c = Char.ofNat b.toNat := by
  by_cases hn : b.toNat ≤ 0x7F
  · exact ⟨hn, (Outcome.char.inj ((first_one hn).symm.trans h)).symm⟩
  · simp only [first] at h
    rw [if_neg hn] at h
    split_ifs at h

lemma toNat_ofNat (h : v.isValidChar) : (Char.ofNat v).toNat = v := by
  rw [Char.ofNat, dif_pos h]
  rfl

lemma ofNat_eq {n : ℕ} (h : n = b.toNat) : UInt8.ofNat n = b := by
  rw [h, UInt8.ofNat_toNat]

lemma isTail_iff : isTail b = true ↔ 0x80 ≤ b.toNat ∧ b.toNat ≤ 0xBF := by
  rw [isTail, Bool.and_eq_true, decide_eq_true_eq, decide_eq_true_eq]

/-! What is read as a character are its bytes, by the number of its first byte. -/

lemma Reads.eq_of_char (h : Reads (b :: bytes) c) {c' : Char} (hfirst : first b = .char c') :
    bytes = [] ∧ c = c' := by
  cases h with
  | single h => exact ⟨rfl, (Outcome.char.inj (hfirst.symm.trans h)).symm⟩
  | several h _ => cases hfirst.symm.trans h

lemma Reads.completes (h : Reads (b :: bytes) c) (hfirst : first b = .more p) :
    Completes p bytes c := by
  cases h with
  | single h => cases hfirst.symm.trans h
  | several h hrest => exact Outcome.more.inj (hfirst.symm.trans h) ▸ hrest

lemma Reads.first_ne_bad (h : Reads (b :: bytes) c) : first b ≠ .bad := by
  intro hfirst
  cases h with
  | single h => cases hfirst.symm.trans h
  | several h _ => cases hfirst.symm.trans h

lemma Reads.utf8EncodeChar_of_one (h : Reads (b :: bytes) c) (hn : b.toNat ≤ 0x7F) :
    String.utf8EncodeChar c = b :: bytes := by
  obtain ⟨rfl, hc⟩ := h.eq_of_char (first_one hn)
  have hnat : c.toNat = b.toNat := by rw [hc, toNat_ofNat (.inl (by omega))]
  rw [utf8EncodeChar_one (by omega), ofNat_eq hnat]

lemma Reads.utf8EncodeChar_of_two (h : Reads (b :: bytes) c) (hn : 0xC2 ≤ b.toNat)
    (hn' : b.toNat ≤ 0xDF) : String.utf8EncodeChar c = b :: bytes := by
  obtain ⟨x, rfl, hx, hc⟩ := completes_tail1.mp (h.completes (first_two hn hn'))
  rw [isTail_iff] at hx
  have hnat : c.toNat = (b.toNat - 0xC0) * 64 + (x.toNat - 0x80) := by
    rw [hc, toNat_ofNat (.inl (by omega))]
  rw [utf8EncodeChar_two (by omega) (by omega), ofNat_eq (b := b) (by omega),
    ofNat_eq (b := x) (by omega)]

lemma Reads.utf8EncodeChar_of_three (h : Reads (b :: bytes) c) (hn : 0xE0 ≤ b.toNat)
    (hn' : b.toNat ≤ 0xEF) : String.utf8EncodeChar c = b :: bytes := by
  obtain ⟨shape, hfirst, hnext, hlow, hhigh⟩ := first_three hn hn'
  obtain ⟨x, y, rfl, hx, hy, hc⟩ := (completes_two hnext).mp (h.completes hfirst)
  have hx' := isTail_iff.mp hx.isTail
  rw [isTail_iff] at hy
  rw [Partial.Within, hlow, hhigh] at hx
  have hnat : c.toNat = ((b.toNat - 0xE0) * 64 + (x.toNat - 0x80)) * 64 + (y.toNat - 0x80) := by
    rw [hc, toNat_ofNat]
    split_ifs at hx <;> simp only [Nat.isValidChar] <;> omega
  have hrange : 0x7FF < c.toNat ∧ c.toNat ≤ 0xFFFF := by split_ifs at hx <;> omega
  rw [utf8EncodeChar_three hrange.1 hrange.2, ofNat_eq (b := b) (by omega),
    ofNat_eq (b := x) (by omega), ofNat_eq (b := y) (by omega)]

lemma Reads.utf8EncodeChar_of_four (h : Reads (b :: bytes) c) (hn : 0xF0 ≤ b.toNat)
    (hn' : b.toNat ≤ 0xF4) : String.utf8EncodeChar c = b :: bytes := by
  obtain ⟨shape, hfirst, hnext, hlow, hhigh⟩ := first_four hn hn'
  obtain ⟨x, y, z, rfl, hx, hy, hz, hc⟩ := (completes_three hnext).mp (h.completes hfirst)
  have hx' := isTail_iff.mp hx.isTail
  rw [isTail_iff] at hy hz
  rw [Partial.Within, hlow, hhigh] at hx
  have hnat : c.toNat = (((b.toNat - 0xF0) * 64 + (x.toNat - 0x80)) * 64 +
      (y.toNat - 0x80)) * 64 + (z.toNat - 0x80) := by
    rw [hc, toNat_ofNat]
    split_ifs at hx <;> simp only [Nat.isValidChar] <;> omega
  have hrange : 0xFFFF < c.toNat := by split_ifs at hx <;> omega
  have hmax : c.toNat < 0x110000 := by split_ifs at hx <;> omega
  rw [utf8EncodeChar_four hrange, ofNat_eq (b := b) (by omega), ofNat_eq (b := x) (by omega),
    ofNat_eq (b := y) (by omega), ofNat_eq (b := z) (by omega)]

lemma Reads.utf8EncodeChar_eq (h : Reads bytes c) : String.utf8EncodeChar c = bytes := by
  obtain ⟨b, rest, rfl⟩ : ∃ b rest, bytes = b :: rest := by
    cases h with
    | single _ => exact ⟨_, _, rfl⟩
    | several _ _ => exact ⟨_, _, rfl⟩
  have hlt := b.toNat_lt
  rcases (by omega : b.toNat ≤ 0x7F ∨ (0x7F < b.toNat ∧ b.toNat < 0xC2 ∨ 0xF4 < b.toNat) ∨
      (0xC2 ≤ b.toNat ∧ b.toNat ≤ 0xDF) ∨ (0xE0 ≤ b.toNat ∧ b.toNat ≤ 0xEF) ∨
        (0xF0 ≤ b.toNat ∧ b.toNat ≤ 0xF4)) with hn | hn | ⟨hn, hn'⟩ | ⟨hn, hn'⟩ | ⟨hn, hn'⟩
  · exact h.utf8EncodeChar_of_one hn
  · exact absurd (first_bad hn) h.first_ne_bad
  · exact h.utf8EncodeChar_of_two hn hn'
  · exact h.utf8EncodeChar_of_three hn hn'
  · exact h.utf8EncodeChar_of_four hn hn'

/-! The bytes of a character are read as it. -/

lemma toNat_byte {n : ℕ} (h : n < 256) : (UInt8.ofNat n).toNat = n := UInt8.toNat_ofNat_of_lt' h

lemma eq_charOfNat {n : ℕ} (h : n = c.toNat) : c = Char.ofNat n := by
  rw [h, c.ofNat_toNat]

lemma reads_utf8EncodeChar_three (hvalid : c.toNat < 0xD800 ∨ 0xDFFF < c.toNat)
    (h : 0x7FF < c.toNat) (h' : c.toNat ≤ 0xFFFF) : Reads (String.utf8EncodeChar c) c := by
  rw [utf8EncodeChar_three h h']
  have hb := toNat_byte (n := c.toNat / 4096 % 16 + 0xE0) (by omega)
  have hx := toNat_byte (n := c.toNat / 64 % 64 + 0x80) (by omega)
  have hy := toNat_byte (n := c.toNat % 64 + 0x80) (by omega)
  obtain ⟨shape, hfirst, hnext, hlow, hhigh⟩ :=
    first_three (b := UInt8.ofNat (c.toNat / 4096 % 16 + 0xE0)) (by omega) (by omega)
  refine .several hfirst ((completes_two hnext).mpr ⟨_, _, rfl, ?_, ?_, eq_charOfNat ?_⟩)
  · rw [Partial.Within, hlow, hhigh, hb, hx]
    split_ifs <;> omega
  · rw [isTail_iff]
    omega
  · dsimp only
    omega

lemma reads_utf8EncodeChar_four (hvalid : c.toNat < 0x110000) (h : 0xFFFF < c.toNat) :
    Reads (String.utf8EncodeChar c) c := by
  rw [utf8EncodeChar_four h]
  have hb := toNat_byte (n := c.toNat / 262144 % 8 + 0xF0) (by omega)
  have hx := toNat_byte (n := c.toNat / 4096 % 64 + 0x80) (by omega)
  have hy := toNat_byte (n := c.toNat / 64 % 64 + 0x80) (by omega)
  have hz := toNat_byte (n := c.toNat % 64 + 0x80) (by omega)
  obtain ⟨shape, hfirst, hnext, hlow, hhigh⟩ :=
    first_four (b := UInt8.ofNat (c.toNat / 262144 % 8 + 0xF0)) (by omega) (by omega)
  refine .several hfirst ((completes_three hnext).mpr ⟨_, _, _, rfl, ?_, ?_, ?_, eq_charOfNat ?_⟩)
  · rw [Partial.Within, hlow, hhigh, hb, hx]
    split_ifs <;> omega
  · rw [isTail_iff]
    omega
  · rw [isTail_iff]
    omega
  · dsimp only
    omega

lemma reads_utf8EncodeChar (c : Char) : Reads (String.utf8EncodeChar c) c := by
  have hvalid := c.valid
  rw [UInt32.isValidChar, show c.val.toNat = c.toNat from rfl, Nat.isValidChar] at hvalid
  rcases (by omega : c.toNat ≤ 0x7F ∨ (0x7F < c.toNat ∧ c.toNat ≤ 0x7FF) ∨
      (0x7FF < c.toNat ∧ c.toNat ≤ 0xFFFF) ∨ 0xFFFF < c.toNat) with h | ⟨h, h'⟩ | ⟨h, h'⟩ | h
  · rw [utf8EncodeChar_one h]
    have hb := toNat_byte (n := c.toNat) (by omega)
    refine .single ((first_one (by omega)).trans ?_)
    rw [hb, c.ofNat_toNat]
  · rw [utf8EncodeChar_two h h']
    have hb := toNat_byte (n := c.toNat / 64 % 32 + 0xC0) (by omega)
    have hx := toNat_byte (n := c.toNat % 64 + 0x80) (by omega)
    have htail : isTail (UInt8.ofNat (c.toNat % 64 + 0x80)) = true := by
      rw [isTail_iff]
      omega
    exact .several (first_two (by omega) (by omega))
      (completes_tail1.mpr ⟨_, rfl, htail, eq_charOfNat (by omega)⟩)
  · exact reads_utf8EncodeChar_three (by omega) h h'
  · exact reads_utf8EncodeChar_four (by omega) h

/-- A character of more than one byte is not one of ASCII. -/
lemma le_toNat_of_length (h : 2 ≤ (String.utf8EncodeChar c).length) : 0x80 ≤ c.toNat := by
  by_contra hlt
  rw [utf8EncodeChar_one (by omega)] at h
  simp at h

/-- **A character is read from its bytes**, and from no others. -/
theorem reads_iff_encode : Reads bytes c ↔ String.utf8EncodeChar c = bytes := by
  constructor
  · exact Reads.utf8EncodeChar_eq
  · rintro rfl
    exact reads_utf8EncodeChar c

end OneCharacter

/-! ### Texts -/

/-- U+FFFD. -/
def replacement : Char := '\uFFFD'

/-- What a byte that begins a character shows, and what is then pending. -/
def fresh (b : UInt8) : List Char × Option Partial :=
  match first b with
  | .char c => ([c], none)
  | .more p => ([], some p)
  | .bad => ([replacement], none)

/-- What one byte shows, and what is then pending.  A byte that does not continue
the pending character is read again as the beginning of one. -/
def step : Option Partial → UInt8 → List Char × Option Partial
  | none, b => fresh b
  | some p, b =>
      match p.next b with
      | .char c => ([c], none)
      | .more p => ([], some p)
      | .bad => (replacement :: (fresh b).1, (fresh b).2)

/-- The text of bytes after a pending character. -/
def readFrom : Option Partial → List UInt8 → List Char
  | p, [] => if p.isSome then [replacement] else []
  | p, b :: bytes => (step p b).1 ++ readFrom (step p b).2 bytes

/-- The text that bytes are taken for. -/
def repair (bytes : List UInt8) : List Char := readFrom none bytes

section Texts

variable {p : Partial} {b : UInt8} {bytes rest : List UInt8} {text : List Char} {c : Char}

lemma readFrom_of_completes (h : Completes p bytes c) :
    readFrom (some p) (bytes ++ rest) = c :: readFrom none rest := by
  induction h with
  | last h => simp [readFrom, step, h]
  | more h _ ih => simpa [readFrom, step, h] using ih

/-- The bytes of a character are taken for it. -/
lemma readFrom_utf8EncodeChar : 
    readFrom none (String.utf8EncodeChar c ++ rest) = c :: readFrom none rest := by
  have hreads := reads_utf8EncodeChar c
  generalize String.utf8EncodeChar c = bytes at hreads
  cases hreads with
  | single h => simp [readFrom, step, fresh, h]
  | several h hrest => simpa [readFrom, step, fresh, h] using readFrom_of_completes hrest

/-- **The bytes of a text are taken for it.** -/
theorem repair_encode (text : List Char) : repair (encode text) = text := by
  induction text with
  | nil => rfl
  | cons c text ih =>
      rw [encode_cons, repair, readFrom_utf8EncodeChar]
      exact congrArg (c :: ·) ih

lemma encode_injective : Function.Injective encode :=
  Function.LeftInverse.injective repair_encode

/-! ### Chunks -/

/-- How many bytes begin a character. -/
def leads (bytes : List UInt8) : ℕ := bytes.countP fun b => !isTail b

@[simp] lemma leads_nil : leads [] = 0 := rfl

lemma leads_cons (b : UInt8) (bytes : List UInt8) :
    leads (b :: bytes) = leads bytes + if isTail b then 0 else 1 := by
  rw [leads, List.countP_cons]
  cases isTail b <;> rfl

@[simp] lemma leads_append (bytes bytes' : List UInt8) :
    leads (bytes ++ bytes') = leads bytes + leads bytes' := List.countP_append

lemma Completes.isTail_of_mem (h : Completes p bytes c) : ∀ b ∈ bytes, isTail b = true := by
  induction h with
  | last h => simpa using (next_eq_char_iff.mp h).1.isTail
  | more h _ ih => exact List.forall_mem_cons.mpr ⟨(next_eq_more_iff.mp h).1.isTail, ih⟩

/-- The first byte of a character begins it, the others continue it. -/
lemma utf8EncodeChar_eq_cons (c : Char) : ∃ b bytes, String.utf8EncodeChar c = b :: bytes ∧
    isTail b = false ∧ ∀ b' ∈ bytes, isTail b' = true := by
  have hlead : ∀ b, first b ≠ .bad → isTail b = false := fun b h =>
    Bool.not_eq_true _ ▸ mt first_of_isTail h
  have hreads := reads_utf8EncodeChar c
  generalize String.utf8EncodeChar c = bytes at hreads
  cases hreads with
  | single h => exact ⟨_, _, rfl, hlead _ (by simp [h]), by simp⟩
  | several h hrest => exact ⟨_, _, rfl, hlead _ (by simp [h]), hrest.isTail_of_mem⟩

lemma leads_encode (text : List Char) : leads (encode text) = text.length := by
  induction text with
  | nil => rfl
  | cons c text ih =>
      obtain ⟨b, bytes, heq, hb, hbytes⟩ := utf8EncodeChar_eq_cons c
      have hzero : leads bytes = 0 := by
        rw [leads, List.countP_eq_zero]
        intro b' hb'
        simp [hbytes b' hb']
      rw [encode_cons, leads_append, ih, heq, leads_cons, hzero, hb, List.length_cons]
      simp [Nat.add_comm]

/-- A byte shows a character for each that is begun. -/
lemma length_fresh (b : UInt8) : (fresh b).1.length + (if (fresh b).2.isSome then 1 else 0) = 1 := by
  rw [fresh]
  cases first b <;> rfl

lemma length_step (p : Option Partial) (b : UInt8) :
    (if p.isSome then 1 else 0) + (if isTail b then 0 else 1) ≤
      (step p b).1.length + if (step p b).2.isSome then 1 else 0 := by
  have hfresh := length_fresh b
  cases p with
  | none =>
      rw [step, hfresh, Option.isSome_none]
      cases isTail b <;> decide
  | some p =>
      rw [step]
      cases hnext : p.next b with
      | char c => simp [(next_eq_char_iff.mp hnext).1.isTail]
      | more p' => simp [(next_eq_more_iff.mp hnext).1.isTail]
      | bad =>
          rw [List.length_cons, Nat.add_right_comm, hfresh]
          split_ifs <;> simp

/-- At least as many characters are shown as are begun. -/
lemma leads_le_length (p : Option Partial) (bytes : List UInt8) :
    leads bytes + (if p.isSome then 1 else 0) ≤ (readFrom p bytes).length := by
  induction bytes generalizing p with
  | nil =>
      rw [readFrom]
      split_ifs <;> simp
  | cons b bytes ih =>
      have hstep := length_step p b
      have hrest := ih (step p b).2
      rw [leads_cons, readFrom, List.length_append]
      omega

/-- One more is shown where the bytes begin within a character. -/
lemma leads_lt_length (hb : isTail b = true) :
    leads (b :: bytes) < (repair (b :: bytes)).length := by
  have hrest := leads_le_length none bytes
  rw [leads_cons, hb, repair, readFrom, step, fresh, first_of_isTail hb]
  simp only [Option.isSome_none, if_true, List.cons_append, List.nil_append, List.length_cons] at *
  omega

/-- Bytes before which no character is cut are those of the beginning of the text. -/
lemma exists_prefix (h : bytes ++ rest = encode text) (hrest : ∀ b ∈ rest.head?, isTail b = false) :
    ∃ part part', text = part ++ part' ∧ encode part = bytes ∧ encode part' = rest := by
  induction text generalizing bytes with
  | nil =>
      obtain ⟨rfl, rfl⟩ := List.append_eq_nil_iff.mp h
      exact ⟨[], [], rfl, rfl, rfl⟩
  | cons c text ih =>
      rcases List.append_eq_append_iff.mp h with ⟨as, hc, hsplit⟩ | ⟨as, rfl, htext⟩
      · -- the cut falls within the first character or at one of its ends
        obtain ⟨b, tails, heq, hb, htails⟩ := utf8EncodeChar_eq_cons c
        cases bytes with
        | nil => exact ⟨[], c :: text, rfl, rfl, h.symm⟩
        | cons b' bytes =>
            rw [heq, List.cons_append] at hc
            obtain ⟨rfl, rfl⟩ := List.cons.inj hc
            cases as with
            | nil => exact ⟨[c], text, rfl, by simp [heq], hsplit.symm⟩
            | cons x as =>
                have hx := hrest x (by simp [hsplit])
                rw [htails x (by simp)] at hx
                cases hx
      · obtain ⟨part, part', rfl, rfl, hpart'⟩ := ih htext.symm
        exact ⟨c :: part, part', rfl, rfl, hpart'⟩

/-- Chunks of which none begins within a character are those of parts of the text. -/
lemma exists_parts {chunks : List (List UInt8)} (h : chunks.flatten = encode text)
    (hheads : ∀ chunk ∈ chunks, ∀ b ∈ chunk.head?, isTail b = false) :
    ∃ parts : List (List Char), parts.flatten = text ∧ parts.map encode = chunks := by
  induction chunks generalizing text with
  | nil =>
      obtain rfl : text = [] := encode_injective h.symm
      exact ⟨[], rfl, rfl⟩
  | cons chunk chunks ih =>
      have hhead : ∀ b ∈ chunks.flatten.head?, isTail b = false := by
        intro b hb
        rw [List.head?_flatten] at hb
        obtain ⟨chunk', hmem, hb⟩ := List.exists_of_findSome?_eq_some hb
        exact hheads chunk' (List.mem_cons_of_mem _ hmem) b hb
      obtain ⟨part, rest, rfl, rfl, hrest⟩ := exists_prefix h hhead
      obtain ⟨parts, rfl, rfl⟩ := ih hrest.symm fun chunk hmem =>
        hheads chunk (List.mem_cons_of_mem _ hmem)
      exact ⟨part :: parts, rfl, rfl⟩

/-- **Bytes that are repaired chunk by chunk** give the text exactly if the chunks
are the bytes of parts of it: every cut falls between two characters. -/
theorem repair_chunks_iff {chunks : List (List UInt8)} (h : chunks.flatten = encode text) :
    (chunks.map repair).flatten = text ↔
      ∃ parts : List (List Char), parts.flatten = text ∧ parts.map encode = chunks := by
  constructor
  · intro htext
    refine exists_parts h fun chunk hmem b hb => ?_
    by_contra htail
    have hle : ∀ chunk ∈ chunks, leads chunk ≤ (repair chunk).length := fun chunk _ =>
      leads_le_length none chunk
    have hlt : leads chunk < (repair chunk).length := by
      obtain ⟨bytes, rfl⟩ : ∃ bytes, chunk = b :: bytes := List.head?_eq_some_iff.mp hb
      exact leads_lt_length (by simpa using htail)
    have hsum : (chunks.map leads).sum < (chunks.map fun chunk => (repair chunk).length).sum :=
      List.sum_lt_sum _ _ hle ⟨chunk, hmem, hlt⟩
    have hleads : (chunks.map leads).sum = text.length := by
      rw [← leads_encode, ← h, leads, List.countP_flatten]
      rfl
    have hlength : (chunks.map fun chunk => (repair chunk).length).sum = text.length := by
      rw [← congrArg List.length htext, List.length_flatten, List.map_map]
      rfl
    omega
  · rintro ⟨parts, rfl, rfl⟩
    rw [List.map_map, (funext repair_encode : repair ∘ encode = id), List.map_id]

end Texts

end Utf8
