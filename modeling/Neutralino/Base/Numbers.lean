import Mathlib.Data.List.TakeWhile
import Neutralino.Base.Helpers

/-!
Machine numbers: their conversions, their decimal texts and their bytes.

* `toUnsigned`, `toSigned`: the conversions of 64-bit numbers.
* `stoi`: the number a text begins with; `stoi_decimal` reads one back.
* `stoll`: the same for 64 bits; `stoll_of_digits` on a text of digits.
* `addLongLong`: a sum that may overflow.
* `u32le`, `readU32le`: the bytes of a 32-bit number, little-endian.
-/

namespace Neutralino

/-! ### 64-bit numbers -/

/-- The conversion to `unsigned long`. -/
def toUnsigned (n : ℤ) : ℕ := (n % 2 ^ 64).toNat

/-- The conversion of an `unsigned long` to `long`. -/
def toSigned (n : ℕ) : ℤ := if n % 2 ^ 64 < 2 ^ 63 then n % 2 ^ 64 else n % 2 ^ 64 - 2 ^ 64

lemma toUnsigned_natCast {n : ℕ} (h : n < 2 ^ 64) : toUnsigned n = n := by
  unfold toUnsigned
  omega

lemma toSigned_of_lt {n : ℕ} (h : n < 2 ^ 63) : toSigned n = n := by
  unfold toSigned
  rw [if_pos (by omega)]
  omega

/-! ### Decimal texts -/

/-- `stoi`: white space is skipped, and what follows the digits is ignored. -/
def stoi (s : Str) : Except Fault ℤ :=
  let s := s.dropWhile helpers.isspace
  let negative := s.head? = some '-'
  let digits := (if negative ∨ s.head? = some '+' then s.tail else s).takeWhile Char.isDigit
  let value : ℤ := Nat.ofDigitChars 10 digits 0
  let value := if negative then -value else value
  if digits = [] then .error .invalidArgument
  else if value < -2 ^ 31 ∨ 2 ^ 31 ≤ value then .error .outOfRange
  else .ok value

lemma decimal_natCast (n : ℕ) : decimal n = Nat.toDigits 10 n := by
  show (Int.repr n).toList = _
  rw [Int.repr_eq_if, if_pos (by omega), Int.toNat_natCast, Nat.toList_repr]

/-- A number that was read is an `int`. -/
lemma stoi_bounds {s : Str} {n : ℤ} (h : stoi s = .ok n) : -2 ^ 31 ≤ n ∧ n < 2 ^ 31 := by
  unfold stoi at h
  extract_lets rest negative digits magnitude value at h
  split_ifs at h with hnone hrange
  rw [← Except.ok.inj h]
  omega

/-- A digit is neither a sign nor white space. -/
lemma isspace_of_isDigit {c : Char} (h : c.isDigit = true) :
    helpers.isspace c = false ∧ c ≠ '-' ∧ c ≠ '+' := by
  refine ⟨?_, ?_, ?_⟩
  · by_contra hspace
    simp only [Bool.not_eq_false, helpers.isspace, Bool.or_eq_true, decide_eq_true_eq] at hspace
    rcases hspace with ((((rfl | rfl) | rfl) | rfl) | rfl) | rfl <;> exact absurd h (by decide)
  · rintro rfl
    exact absurd h (by decide)
  · rintro rfl
    exact absurd h (by decide)

/-- A text of digits is read from its first character to its last. -/
lemma read_digits {s : Str} (hne : s ≠ []) (h : ∀ c ∈ s, c.isDigit = true) :
    s.dropWhile helpers.isspace = s ∧ s.head? ≠ some '-' ∧ s.head? ≠ some '+' ∧
      s.takeWhile Char.isDigit = s := by
  obtain ⟨c, t, rfl⟩ := List.exists_cons_of_ne_nil hne
  obtain ⟨hspace, hminus, hplus⟩ := isspace_of_isDigit (h c List.mem_cons_self)
  refine ⟨?_, by simpa using hminus, by simpa using hplus, List.takeWhile_eq_self_iff.mpr h⟩
  rw [List.dropWhile_cons, hspace]
  rfl

lemma stoi_of_digits {s : Str} (hne : s ≠ []) (h : ∀ c ∈ s, c.isDigit = true) :
    stoi s = if Nat.ofDigitChars 10 s 0 < 2 ^ 31 then .ok (Nat.ofDigitChars 10 s 0 : ℤ)
      else .error .outOfRange := by
  obtain ⟨hdrop, hminus, hplus, htake⟩ := read_digits hne h
  simp only [stoi, hdrop, hminus, hplus, or_self, if_false, htake, hne]
  split_ifs with hrange hsmall hsmall
  · omega
  · rfl
  · rfl
  · omega

lemma isDigit_of_mem_decimal {n : ℕ} : ∀ c ∈ Nat.toDigits 10 n, c.isDigit = true := fun _ hc =>
  Nat.isDigit_of_mem_toDigits (by omega) (le_refl _) hc

/-- **A decimal text is read back.** -/
theorem stoi_decimal {n : ℕ} (h : n < 2 ^ 31) : stoi (decimal n) = .ok n := by
  rw [decimal_natCast, stoi_of_digits Nat.toDigits_ne_nil isDigit_of_mem_decimal,
    Nat.ofDigitChars_ten_toDigits, if_pos h]

/-- A decimal text is that of one number. -/
lemma decimal_injective {m n : ℕ} (h : decimal m = decimal n) : m = n := by
  rw [decimal_natCast, decimal_natCast] at h
  calc m = Nat.ofDigitChars 10 (Nat.toDigits 10 m) 0 := Nat.ofDigitChars_ten_toDigits.symm
    _ = Nat.ofDigitChars 10 (Nat.toDigits 10 n) 0 := by rw [h]
    _ = n := Nat.ofDigitChars_ten_toDigits

/-- A decimal text of a number that is too large throws. -/
lemma stoi_decimal_of_le {n : ℕ} (h : 2 ^ 31 ≤ n) : stoi (decimal n) = .error .outOfRange := by
  rw [decimal_natCast, stoi_of_digits Nat.toDigits_ne_nil isDigit_of_mem_decimal,
    Nat.ofDigitChars_ten_toDigits, if_neg (by omega)]

/-- `stoll`. -/
def stoll (s : Str) : Except Fault ℤ :=
  let s := s.dropWhile helpers.isspace
  let negative := s.head? = some '-'
  let digits := (if negative ∨ s.head? = some '+' then s.tail else s).takeWhile Char.isDigit
  let value : ℤ := Nat.ofDigitChars 10 digits 0
  let value := if negative then -value else value
  if digits = [] then .error .invalidArgument
  else if value < -2 ^ 63 ∨ 2 ^ 63 ≤ value then .error .outOfRange
  else .ok value

/-- The number that a text of digits denotes. -/
def numberOf (s : Str) : ℕ := Nat.ofDigitChars 10 s 0

/-- A text of digits is read, unless its number is too large. -/
lemma stoll_of_digits {s : Str} (hne : s ≠ []) (h : ∀ c ∈ s, c.isDigit = true) :
    stoll s = if numberOf s < 2 ^ 63 then .ok (numberOf s : ℤ) else .error .outOfRange := by
  obtain ⟨hdrop, hminus, hplus, htake⟩ := read_digits hne h
  simp only [stoll, hdrop, hminus, hplus, or_self, if_false, htake, hne]
  rw [numberOf]
  split_ifs with hrange hsmall hsmall
  · omega
  · rfl
  · rfl
  · omega

/-- The sum of two numbers of type `long long`, which may overflow. -/
def addLongLong (a b : ℤ) : Except Fault ℤ :=
  if -2 ^ 63 ≤ a + b ∧ a + b < 2 ^ 63 then .ok (a + b) else .error .undefinedBehaviour

/-! ### Little-endian bytes -/

/-- The bytes of an `unsigned int`. -/
def u32le (n : ℕ) : Str :=
  [Char.ofNat (n % 256), Char.ofNat (n / 256 % 256), Char.ofNat (n / 65536 % 256),
    Char.ofNat (n / 16777216 % 256)]

/-- The `unsigned int` that the first bytes of a text hold. -/
def readU32le : Str → ℕ
  | a :: b :: c :: d :: _ =>
      (a.toNat % 256) + 256 * (b.toNat % 256) + 65536 * (c.toNat % 256) + 16777216 * (d.toNat % 256)
  | _ => 0

@[simp] lemma length_u32le (n : ℕ) : (u32le n).length = 4 := rfl

lemma toNat_ofNat_of_lt {n : ℕ} (h : n < 256) : (Char.ofNat n).toNat = n := by
  have hvalid : n.isValidChar := .inl (by omega)
  rw [Char.ofNat, dif_pos hvalid]
  rfl

/-- The bytes are read back, up to the width of the number. -/
@[simp] lemma readU32le_append (n : ℕ) (s : Str) : readU32le (u32le n ++ s) = n % 2 ^ 32 := by
  have hbyte : ∀ m : ℕ, (Char.ofNat (m % 256)).toNat = m % 256 := fun m =>
    toNat_ofNat_of_lt (Nat.mod_lt m (by omega))
  simp only [u32le, List.cons_append, List.nil_append, readU32le, hbyte]
  omega

end Neutralino
