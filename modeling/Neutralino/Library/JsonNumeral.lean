import Neutralino.Library.JsonText
import Neutralino.Library.Regex
import Mathlib.Algebra.Group.Int.Defs

/-!
The numerals of JSON.

* `numeral`: their grammar.
* `Number`: the numbers that a reader with 64 bits makes of them, whole or
  floating-point.
* `Floats`: the finite floating-point numbers, and how a text comes to one.
* `readNumber`: what a numeral denotes.
* `readBack_whole`: **a whole number of 64 bits is read back.**
-/

namespace JsonText

open Regex (Re)
open Quoted (Text)

/-! ### The grammar -/

def isNonzeroDigit (c : Char) : Bool := c.isDigit ∧ c ≠ '0'

def isExponentChar (c : Char) : Bool := c = 'e' ∨ c = 'E'

def isSign (c : Char) : Bool := c = '+' ∨ c = '-'

/-- `r?`. -/
def possibly (r : Re Char) : Re Char := .alt .empty r

def digit : Re Char := .cls Char.isDigit

def digits : Re Char := .cat digit (.star digit)

/-- A zero, or digits that begin with another. -/
def integerPart : Re Char :=
  .alt (.cls (· = '0')) (.cat (.cls isNonzeroDigit) (.star digit))

def fractionPart : Re Char := .cat (.cls (· = '.')) digits

def exponentPart : Re Char := .cat (.cls isExponentChar) (.cat (possibly (.cls isSign)) digits)

/-- The numerals. -/
def numeral : Re Char :=
  .cat (possibly (.cls (· = '-')))
    (.cat integerPart (.cat (possibly fractionPart) (possibly exponentPart)))

/-! ### Words of the grammar, by their first character -/

section Words

open Regex.Re (matches_alt matches_cat matches_cls matches_empty)

variable {r s u : Re Char} {p : Char → Bool} {c : Char} {t : Text}

lemma matches_possibly : (possibly r).Matches t ↔ t = [] ∨ r.Matches t := by
  rw [possibly, matches_alt, matches_empty]

lemma possibly_cons : (possibly r).Matches (c :: t) ↔ r.Matches (c :: t) := by
  simp [matches_possibly]

lemma cat_assoc : (Re.cat (.cat r s) u).Matches t ↔ (Re.cat r (.cat s u)).Matches t := by
  simp only [matches_cat]
  constructor
  · rintro ⟨_, z, ⟨x, y, hx, hy, rfl⟩, hz, rfl⟩
    exact ⟨x, y ++ z, hx, ⟨y, z, hy, hz, rfl⟩, by rw [List.append_assoc]⟩
  · rintro ⟨x, _, hx, ⟨y, z, hy, hz, rfl⟩, rfl⟩
    exact ⟨x ++ y, z, ⟨x, y, hx, hy, rfl⟩, hz, by rw [List.append_assoc]⟩

lemma alt_cat :
    (Re.cat (.alt r s) u).Matches t ↔ (Re.cat r u).Matches t ∨ (Re.cat s u).Matches t := by
  simp only [matches_cat, matches_alt, or_and_right, exists_or]

lemma empty_cat : (Re.cat .empty r).Matches t ↔ r.Matches t := by
  simp [matches_cat]

lemma possibly_cat :
    (Re.cat (possibly r) s).Matches t ↔ s.Matches t ∨ (Re.cat r s).Matches t := by
  rw [possibly, alt_cat, empty_cat]

lemma cls_cat_cons : (Re.cat (.cls p) s).Matches (c :: t) ↔ p c = true ∧ s.Matches t := by
  simp only [matches_cat, matches_cls]
  constructor
  · rintro ⟨_, v, ⟨d, hd, rfl⟩, hv, heq⟩
    obtain ⟨rfl, rfl⟩ := List.cons.inj heq
    exact ⟨hd, hv⟩
  · rintro ⟨hc, ht⟩
    exact ⟨[c], t, ⟨c, hc, rfl⟩, ht, rfl⟩

/-- Letters of a class, and what comes after them. -/
lemma star_cls_cat_cons : (Re.cat (.star (.cls p)) s).Matches (c :: t) ↔
    p c = true ∧ (Re.cat (.star (.cls p)) s).Matches t ∨ s.Matches (c :: t) := by
  simp only [matches_cat]
  constructor
  · rintro ⟨x, y, hx, hy, heq⟩
    cases x with
    | nil =>
        rw [List.nil_append] at heq
        exact .inr (heq ▸ hy)
    | cons d x =>
        obtain ⟨rfl, rfl⟩ := List.cons.inj heq
        have hall := Re.matches_star_cls.mp hx
        exact .inl ⟨hall _ List.mem_cons_self, x, y,
          Re.matches_star_cls.mpr fun d hd => hall d (List.mem_cons_of_mem _ hd), hy, rfl⟩
  · rintro (⟨hc, x, y, hx, hy, rfl⟩ | ht)
    · exact ⟨c :: x, y, .starCons (.cls hc) hx, hy, rfl⟩
    · exact ⟨[], c :: t, .starNil, ht, rfl⟩

lemma star_cls_cons :
    (Re.star (.cls p)).Matches (c :: t) ↔ p c = true ∧ (Re.star (.cls p)).Matches t := by
  simp [Re.matches_star_cls]

end Words

/-! ### The numbers -/

/-- The finite floating-point numbers: how they are written, and how a numeral
comes to one, or is too large. -/
class Floats (φ : Type) where
  strtod : Text → Option φ
  text : φ → Text
  text_ne_nil (x : φ) : text x ≠ []
  isNumberChar_of_mem (x : φ) : ∀ c ∈ text x, isNumberChar c = true

/-- No floating-point numbers: every numeral is too large for one. -/
instance : Floats Empty where
  strtod _ := none
  text x := x.elim
  text_ne_nil x := x.elim
  isNumberChar_of_mem x := x.elim

/-- A whole number or a floating-point number. -/
inductive Number (φ : Type) where
  | whole (n : ℤ)
  | float (x : φ)

/-- The numbers of 64 bits, signed or unsigned. -/
def Is64Bit (n : ℤ) : Prop := -2 ^ 63 ≤ n ∧ n < 2 ^ 64

instance (n : ℤ) : Decidable (Is64Bit n) := inferInstanceAs (Decidable (_ ∧ _))

/-- The digits of a whole number. -/
def wholeText : ℤ → Text
  | .ofNat n => Nat.toDigits 10 n
  | .negSucc n => '-' :: Nat.toDigits 10 (n + 1)

/-- The number that digits denote, with a sign before them. -/
def wholeValue : Text → ℤ
  | '-' :: s => -(Nat.ofDigitChars 10 s 0 : ℤ)
  | s => (Nat.ofDigitChars 10 s 0 : ℤ)

/-- A numeral with a fraction or an exponent. -/
def isFraction (t : Text) : Bool := t.any fun c => c = '.' ∨ isExponentChar c

section Reading

variable {φ : Type} [Floats φ]

/-- What a numeral denotes: a whole number, if it is written as one and has 64
bits, or else a floating-point number. -/
def numberOf (t : Text) : Option (Number φ) :=
  if isFraction t = false ∧ Is64Bit (wholeValue t) then some (.whole (wholeValue t))
  else (Floats.strtod t).map .float

/-- The number that a text is a numeral of. -/
def readNumber (t : Text) : Option (Number φ) := if numeral.test t then numberOf t else none

end Reading

/-! ### Whole numbers are read back -/

section Digits

open Regex.Re (matches_star_cls)

lemma isNumberChar_of_isDigit {c : Char} (h : c.isDigit = true) : isNumberChar c = true := by
  simp [isNumberChar, h]

lemma isDigit_of_mem_toDigits {n : ℕ} : ∀ c ∈ Nat.toDigits 10 n, c.isDigit = true := fun _ hc =>
  Nat.isDigit_of_mem_toDigits (by omega) (le_refl _) hc

/-- The digits of a positive number begin with none that is zero. -/
lemma exists_toDigits_eq_cons {n : ℕ} (h : 0 < n) :
    ∃ c s, Nat.toDigits 10 n = c :: s ∧ isNonzeroDigit c = true := by
  induction n using Nat.strong_induction_on with
  | _ n ih =>
      by_cases hn : n < 10
      · have hall : ∀ m < 10, 0 < m → isNonzeroDigit m.digitChar = true := by decide
        exact ⟨n.digitChar, [], Nat.toDigits_of_lt_base hn, hall n hn h⟩
      · obtain ⟨c, s, hcs, hc⟩ := ih (n / 10) (by omega) (by omega)
        refine ⟨c, s ++ [(n % 10).digitChar], ?_, hc⟩
        rw [Nat.toDigits_of_base_le (by omega) (by omega), hcs]
        rfl

/-- The digits of a number are an integer part. -/
lemma integerPart_toDigits (n : ℕ) : integerPart.Matches (Nat.toDigits 10 n) := by
  rcases Nat.eq_zero_or_pos n with rfl | hpos
  · exact .altL (.cls (by decide))
  · obtain ⟨c, s, hcs, hc⟩ := exists_toDigits_eq_cons hpos
    have hs : (Re.star digit).Matches s := matches_star_cls.mpr fun d hd =>
      isDigit_of_mem_toDigits d (hcs ▸ List.mem_cons_of_mem c hd)
    have hcat : (Re.cat (.cls isNonzeroDigit) (.star digit)).Matches ([c] ++ s) := .cat (.cls hc) hs
    rw [hcs]
    exact .altR hcat

/-- An integer part is a numeral, also after a minus. -/
lemma numeral_of_integerPart {t : Text} (h : integerPart.Matches t) :
    numeral.Matches t ∧ numeral.Matches ('-' :: t) := by
  have hrest : (Re.cat integerPart (.cat (possibly fractionPart) (possibly exponentPart))).Matches
      (t ++ []) :=
    .cat h (.cat (.altL .empty) (.altL .empty))
  rw [List.append_nil] at hrest
  have hminus : numeral.Matches (['-'] ++ t) := .cat (.altR (.cls rfl)) hrest
  exact ⟨.cat (.altL .empty) hrest, hminus⟩

/-- Digits and signs are neither a point nor an exponent. -/
lemma isFraction_of_digits {t : Text} (h : ∀ c ∈ t, c.isDigit = true ∨ c = '-') :
    isFraction t = false := by
  refine List.any_eq_false.mpr fun c hc hfraction => ?_
  have hdigit := h c hc
  simp only [isExponentChar, decide_eq_true_eq] at hfraction
  rcases hfraction with rfl | rfl | rfl <;> exact absurd hdigit (by decide)

lemma numeral_wholeText (n : ℤ) : numeral.Matches (wholeText n) := by
  cases n with
  | ofNat n => exact (numeral_of_integerPart (integerPart_toDigits n)).1
  | negSucc n => exact (numeral_of_integerPart (integerPart_toDigits (n + 1))).2

lemma isFraction_wholeText (n : ℤ) : isFraction (wholeText n) = false := by
  cases n with
  | ofNat n => exact isFraction_of_digits fun c hc => .inl (isDigit_of_mem_toDigits c hc)
  | negSucc n =>
      exact isFraction_of_digits fun c hc =>
        (List.mem_cons.mp hc).elim .inr fun hc => .inl (isDigit_of_mem_toDigits c hc)

/-- Digits that begin with no minus. -/
lemma wholeValue_of_digits {t : Text} (h : ∀ c ∈ t, c.isDigit = true) :
    wholeValue t = (Nat.ofDigitChars 10 t 0 : ℤ) := by
  unfold wholeValue
  split
  · exact absurd (h '-' List.mem_cons_self) (by decide)
  · rfl

lemma wholeValue_wholeText (n : ℤ) : wholeValue (wholeText n) = n := by
  cases n with
  | ofNat n =>
      rw [wholeText, wholeValue_of_digits isDigit_of_mem_toDigits, Nat.ofDigitChars_ten_toDigits]
      rfl
  | negSucc n =>
      rw [wholeText, wholeValue, Nat.ofDigitChars_ten_toDigits]
      rfl

end Digits

section Numerals

variable {φ : Type} [Floats φ]

instance : Numeral (Number φ) where
  text
    | .whole n => wholeText n
    | .float x => Floats.text x
  read := readNumber
  text_ne_nil
    | .whole (.ofNat n) => Nat.toDigits_ne_nil
    | .whole (.negSucc n) => List.cons_ne_nil _ _
    | .float x => Floats.text_ne_nil x
  isNumberChar_of_mem
    | .whole (.ofNat n), c, hc => isNumberChar_of_isDigit (isDigit_of_mem_toDigits c hc)
    | .whole (.negSucc n), c, hc => by
        rcases List.mem_cons.mp hc with rfl | hc
        · rfl
        · exact isNumberChar_of_isDigit (isDigit_of_mem_toDigits c hc)
    | .float x, c, hc => Floats.isNumberChar_of_mem x c hc

/-- **A whole number is read back**, if it has 64 bits. -/
theorem readBack_whole {n : ℤ} (h : Is64Bit n) : ReadBack (.whole n : Number φ) := by
  show readNumber (wholeText n) = _
  rw [readNumber, if_pos ((Re.test_iff _ _).mpr (numeral_wholeText n)), numberOf,
    wholeValue_wholeText, if_pos ⟨isFraction_wholeText n, h⟩]

/-- What is read of the characters of a numeral, where they end. -/
lemma next_run {run t : Text} (hne : run ≠ []) (hall : ∀ c ∈ run, isNumberChar c = true)
    (hend : ∀ c ∈ t.head?, isNumberChar c = false) :
    next (run ++ t) = (readNumber run).map fun n : Number φ => (Token.num n, t) := by
  obtain ⟨c, s, rfl⟩ := List.exists_cons_of_ne_nil hne
  have hc := hall c List.mem_cons_self
  have hquote : c ≠ '"' := by
    rintro rfl
    exact absurd hc (by decide)
  have hpunctuation : ¬ isPunctuation c = true := by
    intro hpunct
    rcases isPunctuation_iff.mp hpunct with rfl | rfl | rfl | rfl | rfl | rfl <;>
      exact absurd hc (by decide)
  have hstop : t.takeWhile isNumberChar = [] ∧ t.dropWhile isNumberChar = t := by
    cases t with
    | nil => exact ⟨rfl, rfl⟩
    | cons d t =>
        have hd := hend d rfl
        simp [hd]
  have htake : (c :: s ++ t).takeWhile isNumberChar = c :: s := by
    rw [List.takeWhile_append_of_pos hall, hstop.1, List.append_nil]
  have hdrop : (c :: s ++ t).dropWhile isNumberChar = t := by
    rw [List.dropWhile_append_of_pos hall, hstop.2]
  rw [List.cons_append] at htake hdrop ⊢
  rw [next, if_neg hquote, if_neg hpunctuation, if_pos hc, htake, hdrop]
  rfl

end Numerals

end JsonText
