import Neutralino.Server.Lexer

/-!
The scanner of the JSON library against the tokens of a text.

* `NumberLabel.language`: what may follow each label of `scan_number`.
* `scanNumber_iff`: **a number is scanned as far as the grammar goes.**
* `Means`: which token of a text the scanner stands for.
* `scan_of_next`, `Scanned.reads`: **the scanner agrees with the tokens of the text**,
  where no numerals stand side by side.
-/

namespace Neutralino.lexer

open JsonText (Floats Number Token isSpace isNumberChar isPunctuation isNonzeroDigit
  isExponentChar isSign wholeValue isFraction numeral digit digits possibly integerPart
  fractionPart exponentPart readNumber alt_cat cat_assoc possibly_cat possibly_cons cls_cat_cons
  star_cls_cat_cons star_cls_cons)
open Quoted (Text)
open Regex (Re)
open Utf8 (encode charOf)

/-! ### The labels of `scan_number` -/

namespace NumberLabel

/-- What may follow a label. -/
def language : NumberLabel → Re Char
  | minus => .cat integerPart (.cat (possibly fractionPart) (possibly exponentPart))
  | zero => .cat (possibly fractionPart) (possibly exponentPart)
  | any1 => .cat (.star digit) (.cat (possibly fractionPart) (possibly exponentPart))
  | decimal1 => .cat digits (possibly exponentPart)
  | decimal2 => .cat (.star digit) (possibly exponentPart)
  | exponent => .cat (possibly (.cls isSign)) digits
  | sign => digits
  | any2 => .star digit

lemma language_nil (label : NumberLabel) : label.language.Matches [] ↔ label.isDone = true := by
  rw [← Re.nullable_iff]
  cases label <;> decide

/-- A digit is no other character of a numeral. -/
lemma ne_of_isDigit {c : Char} (h : c.isDigit = true) :
    c ≠ '.' ∧ isExponentChar c = false ∧ isSign c = false ∧ c ≠ '-' := by
  refine ⟨?_, ?_, ?_, ?_⟩
  · rintro rfl
    exact absurd h (by decide)
  · by_contra hexponent
    simp only [Bool.not_eq_false, isExponentChar, decide_eq_true_eq] at hexponent
    rcases hexponent with rfl | rfl <;> exact absurd h (by decide)
  · by_contra hsign
    simp only [Bool.not_eq_false, isSign, decide_eq_true_eq] at hsign
    rcases hsign with rfl | rfl <;> exact absurd h (by decide)
  · rintro rfl
    exact absurd h (by decide)

/-- What may follow a label, by its first character. -/
lemma language_first (label : NumberLabel) (c : Char) (t : Text) :
    label.language.Matches (c :: t) ↔
      match label with
      | minus =>
          c = '0' ∧ zero.language.Matches t ∨ isNonzeroDigit c = true ∧ any1.language.Matches t
      | zero => isExponentChar c = true ∧ exponent.language.Matches t ∨
          c = '.' ∧ decimal1.language.Matches t
      | any1 => c.isDigit = true ∧ any1.language.Matches t ∨
          isExponentChar c = true ∧ exponent.language.Matches t ∨
            c = '.' ∧ decimal1.language.Matches t
      | decimal1 => c.isDigit = true ∧ decimal2.language.Matches t
      | decimal2 => c.isDigit = true ∧ decimal2.language.Matches t ∨
          isExponentChar c = true ∧ exponent.language.Matches t
      | exponent => c.isDigit = true ∧ any2.language.Matches t ∨
          isSign c = true ∧ sign.language.Matches t
      | sign | any2 => c.isDigit = true ∧ any2.language.Matches t := by
  cases label <;>
    simp only [language, integerPart, fractionPart, exponentPart, digits, digit, alt_cat, cat_assoc,
      possibly_cat, possibly_cons, cls_cat_cons, star_cls_cat_cons, star_cls_cons,
      decide_eq_true_eq]

lemma exists_ite_some {a : Prop} [Decidable a] {label : NumberLabel} {next : Option NumberLabel}
    {P : NumberLabel → Prop} :
    (∃ label', (if a then some label else next) = some label' ∧ P label') ↔
      a ∧ P label ∨ ¬ a ∧ ∃ label', next = some label' ∧ P label' := by
  by_cases ha : a
  · simp [ha]
  · simp [ha]

/-- A label leads on as its language does. -/
lemma language_cons (label : NumberLabel) (c : Char) (t : Text) :
    label.language.Matches (c :: t) ↔
      ∃ label', label.goto c = some label' ∧ label'.language.Matches t := by
  rw [language_first]
  have hdigit :
      c.isDigit = true → c ≠ '.' ∧ isExponentChar c = false ∧ isSign c = false ∧ c ≠ '-' :=
    ne_of_isDigit
  have hpoint : c = '.' → isExponentChar c = false := by
    rintro rfl
    rfl
  have hzero : isNonzeroDigit c = true → c ≠ '0' := fun h => (of_decide_eq_true h).2
  have hnone (P : NumberLabel → Prop) :
      ¬ ∃ label', (none : Option NumberLabel) = some label' ∧ P label' := by
    simp
  cases label <;> simp only [goto, exists_ite_some, hnone]
  all_goals grind

/-- A numeral, by its first character. -/
lemma start_iff (c : Char) (t : Text) : numeral.Matches (c :: t) ↔
    ∃ label, start c = some label ∧ label.language.Matches t := by
  have hminus : numeral.Matches (c :: t) ↔
      minus.language.Matches (c :: t) ∨ c = '-' ∧ minus.language.Matches t := by
    simp only [numeral, language, possibly_cat, cls_cat_cons, decide_eq_true_eq]
  have hzero : isNonzeroDigit c = true → c ≠ '0' ∧ c ≠ '-' := by
    intro h
    exact ⟨(of_decide_eq_true h).2, (ne_of_isDigit (of_decide_eq_true h).1).2.2.2⟩
  have hsign : c = '-' → c ≠ '0' := by
    rintro rfl
    decide
  rw [hminus, language_first]
  simp only [start, exists_ite_some, reduceCtorEq, false_and, exists_false, and_false, or_false]
  grind

lemma isNumberChar_of_goto {label label' : NumberLabel} {c : Char}
    (h : label.goto c = some label') :
    isNumberChar c = true := by
  have hmem : c.isDigit = true ∨ c = '.' ∨ isExponentChar c = true ∨ isSign c = true := by
    have hzero : isNonzeroDigit c = true → c.isDigit = true := fun h => (of_decide_eq_true h).1
    have hzero' : c = '0' → c.isDigit = true := by
      rintro rfl
      rfl
    cases label <;> simp only [goto] at h <;> grind
  rcases hmem with hdigit | rfl | hexponent | hsign
  · exact JsonText.isNumberChar_of_isDigit hdigit
  · rfl
  · rcases of_decide_eq_true hexponent with rfl | rfl <;> rfl
  · rcases of_decide_eq_true hsign with rfl | rfl <;> rfl

/-- A point and an exponent make the number a floating-point number. -/
lemma numberType_of_goto {label label' : NumberLabel} {c : Char} (h : label.goto c = some label')
    (type : NumberType) : label'.numberType type =
      if c = '.' ∨ isExponentChar c = true then .float else type := by
  have hdigit :
      c.isDigit = true → c ≠ '.' ∧ isExponentChar c = false ∧ isSign c = false ∧ c ≠ '-' :=
    ne_of_isDigit
  have hzero : isNonzeroDigit c = true → c.isDigit = true := fun h => (of_decide_eq_true h).1
  have hzero' : c = '0' → c.isDigit = true := by
    rintro rfl
    rfl
  have hsign : isSign c = true → c ≠ '.' ∧ isExponentChar c = false := by
    intro hsign
    rcases of_decide_eq_true hsign with rfl | rfl <;> exact ⟨by decide, rfl⟩
  cases label <;> simp only [goto] at h <;> grind [numberType]

end NumberLabel

/-! ### Numbers are scanned as far as the grammar goes -/

section Numbers

variable {φ : Type} [Floats φ] {label : NumberLabel} {type : NumberType} {buffer run : Text}
  {bytes rest : List UInt8} {token : TokenType φ}

/-- A text that begins as a numeral does not go on. -/
def Ends (rest : List UInt8) : Prop := ∀ b ∈ rest.head?, isNumberChar (charOf b) = false

lemma toNat_le_of_isNumberChar {c : Char} (h : isNumberChar c = true) : c.toNat ≤ 0x7F := by
  rcases of_decide_eq_true h with hdigit | rfl | rfl | rfl | rfl | rfl
  · exact (Char.isDigit_iff_toNat.mp hdigit).2.trans (by decide)
  all_goals decide

lemma isFraction_cons (c : Char) (t : Text) :
    isFraction (c :: t) = (decide (c = '.' ∨ isExponentChar c = true) || isFraction t) :=
  List.any_cons

lemma numberType_ite {c : Char} : (if isFraction run then .float
      else if c = '.' ∨ isExponentChar c = true then .float else type) =
    if isFraction (c :: run) then NumberType.float else type := by
  rw [isFraction_cons]
  by_cases hc : c = '.' ∨ isExponentChar c = true
  · simp [hc]
  · simp [hc]

lemma scanNumberFrom_sound (h : scanNumberFrom label type buffer bytes = some (token, rest)) :
    ∃ run, bytes = encode run ++ rest ∧ label.language.Matches run ∧
      (∀ c ∈ run, isNumberChar c = true) ∧
        token = numberToken (if isFraction run then .float else type) (buffer ++ run) := by
  induction bytes generalizing label type buffer with
  | nil =>
      rw [scanNumberFrom] at h
      split_ifs at h with hdone
      obtain ⟨rfl, rfl⟩ := Prod.mk.inj (Option.some.inj h)
      exact ⟨[], rfl, label.language_nil.mpr hdone, by simp, by simp [isFraction]⟩
  | cons b bytes ih =>
      rw [scanNumberFrom] at h
      cases hgoto : label.goto (charOf b) with
      | none =>
          simp only [hgoto] at h
          split_ifs at h with hdone
          obtain ⟨rfl, rfl⟩ := Prod.mk.inj (Option.some.inj h)
          exact ⟨[], rfl, label.language_nil.mpr hdone, by simp, by simp [isFraction]⟩
      | some label' =>
          simp only [hgoto] at h
          obtain ⟨run, rfl, hrun, hall, rfl⟩ := ih h
          have hnumber := NumberLabel.isNumberChar_of_goto hgoto
          have hb := Utf8.toNat_le_of_charOf rfl (toNat_le_of_isNumberChar hnumber)
          refine ⟨charOf b :: run, ?_, (label.language_cons _ _).mpr ⟨label', hgoto, hrun⟩,
            List.forall_mem_cons.mpr ⟨hnumber, hall⟩, ?_⟩
          · rw [← List.singleton_append, ← Utf8.encode_charOf hb, ← List.append_assoc,
              ← Utf8.encode_append]
            rfl
          · rw [NumberLabel.numberType_of_goto hgoto, numberType_ite, List.append_assoc]
            rfl

lemma scanNumberFrom_complete (hrun : label.language.Matches run) (hend : Ends rest) :
    scanNumberFrom (φ := φ) label type buffer (encode run ++ rest) =
      some (numberToken (if isFraction run then .float else type) (buffer ++ run), rest) := by
  induction run generalizing label type buffer with
  | nil =>
      have hdone := label.language_nil.mp hrun
      cases rest with
      | nil => simp [scanNumberFrom, hdone, isFraction]
      | cons b rest =>
          have hgoto : label.goto (charOf b) = none := by
            by_contra hne
            obtain ⟨label', hlabel'⟩ := Option.ne_none_iff_exists'.mp hne
            have hnumber := NumberLabel.isNumberChar_of_goto hlabel'
            rw [hend b rfl] at hnumber
            cases hnumber
          simp [scanNumberFrom, hdone, hgoto, isFraction]
  | cons c run ih =>
      obtain ⟨label', hgoto, hrun'⟩ := (label.language_cons c run).mp hrun
      have hc := toNat_le_of_isNumberChar (NumberLabel.isNumberChar_of_goto hgoto)
      obtain ⟨b, rfl, hencode⟩ := Utf8.exists_encode_eq_cons hc
      rw [hencode, List.cons_append, scanNumberFrom]
      simp only [hgoto]
      rw [ih hrun', NumberLabel.numberType_of_goto hgoto, numberType_ite, List.append_assoc]
      rfl

/-- The `number_type` of a numeral. -/
def numberTypeOf (t : Text) : NumberType :=
  if isFraction t then .float else if t.head? = some '-' then .integer else .unsigned

lemma numberTypeOf_cons {c : Char} (h : NumberLabel.start c = some label) (t : Text) :
    numberTypeOf (c :: t) = if isFraction t then .float else label.numberType .unsigned := by
  have hfirst : ¬ (c = '.' ∨ isExponentChar c = true) ∧
      (if c = '-' then NumberType.integer else .unsigned) = label.numberType .unsigned := by
    have hdigit : isNonzeroDigit c = true → c.isDigit = true ∧ c ≠ '.' ∧ isExponentChar c = false ∧
        isSign c = false ∧ c ≠ '-' := fun h =>
      ⟨(of_decide_eq_true h).1, NumberLabel.ne_of_isDigit (of_decide_eq_true h).1⟩
    have hminus : isExponentChar '-' = false ∧ isExponentChar '0' = false := by decide
    unfold NumberLabel.start at h
    grind [NumberLabel.numberType]
  rw [numberTypeOf, isFraction_cons, List.head?_cons, ← hfirst.2]
  simp [hfirst.1]

/-- **A number is scanned as far as the grammar goes.** -/
theorem scanNumber_sound {c : Char} (h : scanNumber c bytes = some (token, rest)) :
    ∃ run, bytes = encode run ++ rest ∧ numeral.Matches (c :: run) ∧
      (∀ d ∈ c :: run, isNumberChar d = true) ∧
        token = numberToken (numberTypeOf (c :: run)) (c :: run) := by
  obtain ⟨label, hstart, hfrom⟩ := Option.bind_eq_some_iff.mp h
  obtain ⟨run, rfl, hrun, hall, rfl⟩ := scanNumberFrom_sound hfrom
  have hc : isNumberChar c = true := by
    unfold NumberLabel.start at hstart
    split_ifs at hstart with hminus hzero hnonzero
    · rw [hminus]
      rfl
    · rw [hzero]
      rfl
    · exact JsonText.isNumberChar_of_isDigit (of_decide_eq_true hnonzero).1
  refine ⟨run, rfl, (NumberLabel.start_iff c run).mpr ⟨label, hstart, hrun⟩,
    List.forall_mem_cons.mpr ⟨hc, hall⟩, ?_⟩
  rw [numberTypeOf_cons hstart]
  rfl

theorem scanNumber_complete {c : Char} (hrun : numeral.Matches (c :: run)) (hend : Ends rest) :
    scanNumber (φ := φ) c (encode run ++ rest) =
      some (numberToken (numberTypeOf (c :: run)) (c :: run), rest) := by
  obtain ⟨label, hstart, hlabel⟩ := (NumberLabel.start_iff c run).mp hrun
  rw [scanNumber, hstart, Option.bind_some, scanNumberFrom_complete hlabel hend,
    numberTypeOf_cons hstart]
  rfl

end Numbers

/-! ### Tokens -/

/-- The token of a text that the scanner stands for. -/
inductive Means {φ : Type} : TokenType φ → Token (Number φ) → Prop
  | literalTrue : Means .literalTrue (.bool true)
  | literalFalse : Means .literalFalse (.bool false)
  | literalNull : Means .literalNull .null
  | valueString (s : Text) : Means (.valueString (encode s)) (.str s)
  | valueUnsigned (n : ℕ) : Means (.valueUnsigned n) (.num (.whole n))
  | valueInteger (n : ℤ) : Means (.valueInteger n) (.num (.whole n))
  | valueFloat (x : φ) : Means (.valueFloat (some x)) (.num (.float x))
  | beginArray : Means .beginArray (.punct '[')
  | endArray : Means .endArray (.punct ']')
  | beginObject : Means .beginObject (.punct '\x7b')
  | endObject : Means .endObject (.punct '\x7d')
  | nameSeparator : Means .nameSeparator (.punct ':')
  | valueSeparator : Means .valueSeparator (.punct ',')

section Tokens

variable {φ : Type} [Floats φ] {t rest : Text} {bytes more : List UInt8} {token : Token (Number φ)}
  {type : TokenType φ}

omit [Floats φ] in
lemma means_valueFloat {x : Option φ} :
    Means (.valueFloat x) token ↔ ∃ n, token = .num n ∧ x.map Number.float = some n := by
  constructor
  · intro h
    cases h
    exact ⟨_, rfl, rfl⟩
  · rintro ⟨n, rfl, hn⟩
    obtain ⟨y, rfl, rfl⟩ := Option.map_eq_some_iff.mp hn
    exact .valueFloat y

omit [Floats φ] in
lemma means_whole {type : TokenType φ} {n : ℤ}
    (h : (∃ m : ℕ, type = .valueUnsigned m ∧ n = m) ∨ type = .valueInteger n) :
    Means type token ↔ ∃ m, token = .num m ∧ some (Number.whole n) = some m := by
  constructor
  · intro hmeans
    rcases h with ⟨m, rfl, rfl⟩ | rfl
    · cases hmeans
      exact ⟨_, rfl, rfl⟩
    · cases hmeans
      exact ⟨_, rfl, rfl⟩
  · rintro ⟨m, rfl, hm⟩
    rw [← Option.some.inj hm]
    rcases h with ⟨m, rfl, rfl⟩ | rfl
    · exact .valueUnsigned m
    · exact .valueInteger n

/-- The sign of a whole number. -/
lemma wholeValue_sign (t : Text) :
    if t.head? = some '-' then wholeValue t ≤ 0 else 0 ≤ wholeValue t := by
  by_cases hminus : ∃ s, t = '-' :: s
  · obtain ⟨s, rfl⟩ := hminus
    rw [if_pos (by rfl), wholeValue]
    omega
  · have hhead : t.head? ≠ some '-' := fun h =>
      hminus ⟨_, (List.head?_eq_some_iff.mp h).choose_spec⟩
    rw [if_neg hhead]
    unfold wholeValue
    split
    · exact absurd ⟨_, rfl⟩ hminus
    · exact Int.natCast_nonneg _

/-- A numeral stands for the number that it denotes, unless this is too large. -/
lemma means_numberToken : Means (φ := φ) (numberToken (numberTypeOf t) t) token ↔
    ∃ n, token = .num n ∧ JsonText.numberOf t = some n := by
  have hsign := wholeValue_sign t
  unfold numberTypeOf JsonText.numberOf
  by_cases hfraction : isFraction t = true
  · simp only [hfraction, if_true, reduceCtorEq, false_and, if_false, numberToken]
    exact means_valueFloat
  · simp only [hfraction, Bool.false_eq_true, if_false, true_and]
    by_cases hminus : t.head? = some '-'
    · rw [if_pos hminus] at hsign ⊢
      by_cases hrange : JsonText.Is64Bit (wholeValue t)
      · rw [numberToken, if_pos ⟨hrange.1, by omega⟩, if_pos hrange]
        exact means_whole (.inr rfl)
      · have hrange' : ¬ (-2 ^ 63 ≤ wholeValue t ∧ wholeValue t < 2 ^ 63) := fun h =>
          hrange ⟨h.1, by omega⟩
        rw [numberToken, if_neg hrange', if_neg hrange]
        exact means_valueFloat
    · rw [if_neg hminus] at hsign ⊢
      by_cases hrange : JsonText.Is64Bit (wholeValue t)
      · rw [numberToken, if_pos hrange.2, if_pos hrange]
        exact means_whole (.inl ⟨_, rfl, (Int.toNat_of_nonneg hsign).symm⟩)
      · have hrange' : ¬ wholeValue t < 2 ^ 64 := fun h => hrange ⟨by omega, h⟩
        rw [numberToken, if_neg hrange', if_neg hrange]
        exact means_valueFloat

/-- What a text of one token is: the token is read of it, where a numeral ends. -/
def IsText (w : Text) (token : Token (Number φ)) : Prop :=
  ∀ t, (token.isNum = true → ∀ c ∈ t.head?, isNumberChar c = false) →
    JsonText.next (w ++ t) = some (token, t)

omit [Floats φ] in
lemma encode_cons_of_charOf {b : UInt8} {c : Char} (h : charOf b = c) (hc : c.toNat ≤ 0x7F)
    (text : Text) : encode (c :: text) = b :: encode text := by
  rw [← List.singleton_append, Utf8.encode_append, ← h,
    Utf8.encode_charOf (Utf8.toNat_le_of_charOf h hc)]
  rfl

lemma scanLiteral_iff {text : Text} (h : ∀ c ∈ text, c.toNat ≤ 0x7F) :
    scanLiteral text bytes = some more ↔ bytes = encode text ++ more := by
  induction text generalizing bytes with
  | nil => simp [scanLiteral]
  | cons c text ih =>
      obtain ⟨hc, htext⟩ := List.forall_mem_cons.mp h
      cases bytes with
      | nil =>
          obtain ⟨b, -, hencode⟩ := Utf8.exists_encode_eq_cons hc
          simp [scanLiteral, hencode]
      | cons b bytes =>
          rw [scanLiteral]
          by_cases hb : charOf b = c
          · rw [if_pos hb, ih htext, encode_cons_of_charOf hb hc]
            simp
          · rw [if_neg hb]
            obtain ⟨b', hb', hencode⟩ := Utf8.exists_encode_eq_cons hc
            rw [hencode]
            constructor
            · nofun
            · intro heq
              obtain rfl := (List.cons.inj heq).1
              exact absurd hb' hb

lemma isText_punct {c : Char} (h : isPunctuation c = true) :
    IsText [c] (.punct c : Token (Number φ)) := by
  intro t _
  have hquote : c ≠ '"' := by
    rintro rfl
    exact absurd h (by decide)
  exact (if_neg hquote).trans (if_pos h)

/-- A string between its quotes. -/
lemma isText_str {code s : Text} (h : ∀ t, Quoted.json.read (code ++ t) = some (s, t)) :
    IsText ('"' :: code) (.str s : Token (Number φ)) := by
  intro t _
  show JsonText.next ('"' :: (code ++ t)) = _
  rw [JsonText.next, if_pos rfl, h]
  rfl

/-- A numeral. -/
lemma isText_num {run : Text} {n : Number φ} (hne : run ≠ []) (hmatches : numeral.Matches run)
    (hall : ∀ c ∈ run, isNumberChar c = true) (hn : JsonText.numberOf run = some n) :
    IsText run (.num n : Token (Number φ)) := by
  intro t hend
  rw [JsonText.next_run hne hall (hend rfl), readNumber,
    if_pos ((Re.test_iff _ _).mpr hmatches), hn]
  rfl

/-- What is scanned is the text of a token. -/
lemma scanToken_sound {b : UInt8} (h : scanToken (charOf b) bytes = some (type, more))
    (hmeans : Means type token) :
    ∃ w, b :: bytes = encode w ++ more ∧ token.Ok ∧ IsText w token := by
  have hbyte {c : Char} (hb : charOf b = c) (hc : c.toNat ≤ 0x7F) (w : Text) :
      encode (c :: w) = b :: encode w :=
    encode_cons_of_charOf hb hc w
  have hpunct {c : Char} {type' : TokenType φ} (hb : charOf b = c) (hc : isPunctuation c = true)
      (hascii : c.toNat ≤ 0x7F) (hmeans' : Means type' (.punct c))
      (hunique : ∀ token', Means type' token' → token' = .punct c)
      (heq : some (type', bytes) = some (type, more)) :
      ∃ w, b :: bytes = encode w ++ more ∧ token.Ok ∧ IsText w token := by
    obtain ⟨rfl, rfl⟩ := Prod.mk.inj (Option.some.inj heq)
    obtain rfl := hunique token hmeans
    exact ⟨[c], by rw [hbyte hb hascii]; rfl, hc, isText_punct hc⟩
  have hliteral {c : Char} {text : Text} {type' : TokenType φ} (token' : Token (Number φ))
      (hb : charOf b = c) (hascii : ∀ x ∈ c :: text, x.toNat ≤ 0x7F)
      (hunique : Means type' token → token = token') (hok : token'.Ok)
      (hnext : ∀ t, JsonText.next (c :: text ++ t) = some (token', t))
      (heq : (scanLiteral text bytes).map (fun rest => (type', rest)) = some (type, more)) :
      ∃ w, b :: bytes = encode w ++ more ∧ token.Ok ∧ IsText w token := by
    obtain ⟨rest', hscan, heq⟩ := Option.map_eq_some_iff.mp heq
    obtain ⟨rfl, rfl⟩ := Prod.mk.inj heq
    obtain ⟨hc, htext⟩ := List.forall_mem_cons.mp hascii
    obtain rfl := hunique hmeans
    refine ⟨c :: text, ?_, hok, fun t _ => hnext t⟩
    rw [hbyte hb hc, (scanLiteral_iff htext).mp hscan]
    rfl
  unfold scanToken at h
  split at h
  case h_1 hb => exact hpunct hb rfl (by decide) .beginArray (fun _ h => by cases h; rfl) h
  case h_2 hb => exact hpunct hb rfl (by decide) .endArray (fun _ h => by cases h; rfl) h
  case h_3 hb => exact hpunct hb rfl (by decide) .beginObject (fun _ h => by cases h; rfl) h
  case h_4 hb => exact hpunct hb rfl (by decide) .endObject (fun _ h => by cases h; rfl) h
  case h_5 hb => exact hpunct hb rfl (by decide) .nameSeparator (fun _ h => by cases h; rfl) h
  case h_6 hb => exact hpunct hb rfl (by decide) .valueSeparator (fun _ h => by cases h; rfl) h
  case h_7 hb =>
    exact hliteral (.bool true) hb (forall_mem_of_all (by decide)) (fun h => by cases h; rfl)
      trivial (fun t => rfl) h
  case h_8 hb =>
    exact hliteral (.bool false) hb (forall_mem_of_all (by decide)) (fun h => by cases h; rfl)
      trivial (fun t => rfl) h
  case h_9 hb =>
    exact hliteral .null hb (forall_mem_of_all (by decide)) (fun h => by cases h; rfl)
      trivial (fun t => rfl) h
  case h_10 hb =>
    obtain ⟨⟨y, rest'⟩, hscan, heq⟩ := Option.map_eq_some_iff.mp h
    obtain ⟨rfl, rfl⟩ := Prod.mk.inj heq
    obtain ⟨code, s, rfl, hs, hread⟩ := follows_scanString.sound hscan
    obtain rfl : y = encode s := hs
    obtain rfl : token = .str s := by
      generalize hy : encode s = y at hmeans
      cases hmeans
      rw [Utf8.encode_injective hy]
    refine ⟨'"' :: code, ?_, trivial, isText_str hread⟩
    rw [hbyte hb (by decide)]
    rfl
  case h_11 =>
    obtain ⟨rfl, -⟩ := Prod.mk.inj (Option.some.inj h)
    cases hmeans
  case h_12 =>
    obtain ⟨run, rfl, hmatches, hall, rfl⟩ := scanNumber_sound h
    obtain ⟨n, rfl, hn⟩ := means_numberToken.mp hmeans
    have hb := Utf8.toNat_le_of_charOf rfl (toNat_le_of_isNumberChar (hall _ List.mem_cons_self))
    refine ⟨charOf b :: run, ?_, trivial, isText_num (List.cons_ne_nil _ _) hmatches hall hn⟩
    rw [hbyte rfl (by rwa [Utf8.toNat_charOf])]
    rfl

/-- What follows a text: the end of the input, or a byte that ends it. -/
def Tail (tail : List UInt8) : Prop := ∀ b ∈ tail.head?, b = 0

omit [Floats φ] in
lemma ends_encode {tail : List UInt8} (htail : Tail tail)
    (ht : ∀ c ∈ t.head?, isNumberChar c = false) : Ends (encode t ++ tail) := by
  cases t with
  | nil =>
      intro b hb
      obtain rfl := htail b hb
      rfl
  | cons c t =>
      intro b hb
      by_cases hc : c.toNat ≤ 0x7F
      · obtain ⟨d, rfl, hencode⟩ := Utf8.exists_encode_eq_cons hc
        rw [hencode] at hb
        obtain rfl : d = b := by simpa using hb
        exact ht _ rfl
      · obtain ⟨d, rest, hcode, hd⟩ := Utf8.exists_cons_of_lt (not_le.mp hc)
        rw [Utf8.encode_cons, hcode] at hb
        obtain rfl : d = b := by simpa using hb
        by_contra hnumber
        have hle := toNat_le_of_isNumberChar (Bool.not_eq_false _ ▸ hnumber)
        rw [Utf8.toNat_charOf] at hle
        omega

lemma scanToken_of_start {c : Char} (h : NumberLabel.start c ≠ none) (bytes : List UInt8) :
    scanToken (φ := φ) c bytes = scanNumber c bytes := by
  unfold scanToken
  split
  case h_12 => rfl
  all_goals exact absurd rfl h

/-- Punctuation is scanned. -/
lemma scanToken_punct {c : Char} (h : isPunctuation c = true) (bytes : List UInt8) :
    ∃ type : TokenType φ, Means type (.punct c) ∧ scanToken c bytes = some (type, bytes) := by
  rcases JsonText.isPunctuation_iff.mp h with rfl | rfl | rfl | rfl | rfl | rfl
  · exact ⟨_, .beginObject, rfl⟩
  · exact ⟨_, .endObject, rfl⟩
  · exact ⟨_, .beginArray, rfl⟩
  · exact ⟨_, .endArray, rfl⟩
  · exact ⟨_, .nameSeparator, rfl⟩
  · exact ⟨_, .valueSeparator, rfl⟩

/-- A numeral is scanned. -/
lemma scanToken_num {c : Char} {s : Text} {n : Number φ} {tail : List UInt8} (htail : Tail tail)
    (hc : isNumberChar c = true) (h : readNumber ((c :: s).takeWhile isNumberChar) = some n) :
    ∃ type : TokenType φ, Means type (.num n) ∧ scanToken c (encode s ++ tail) =
      some (type, encode ((c :: s).dropWhile isNumberChar) ++ tail) := by
  have htake : (c :: s).takeWhile isNumberChar = c :: s.takeWhile isNumberChar := by simp [hc]
  have hdrop : (c :: s).dropWhile isNumberChar = s.dropWhile isNumberChar := by simp [hc]
  rw [htake, readNumber] at h
  split_ifs at h with htest
  have hmatches := (Re.test_iff _ _).mp htest
  have hstart : NumberLabel.start c ≠ none := by
    obtain ⟨label, hlabel, -⟩ := (NumberLabel.start_iff c _).mp hmatches
    rw [hlabel]
    exact Option.some_ne_none _
  have hend : Ends (encode (s.dropWhile isNumberChar) ++ tail) := by
    refine ends_encode htail fun d hd => ?_
    have hnot := List.head?_dropWhile_not isNumberChar s
    rw [Option.mem_def.mp hd] at hnot
    simpa using hnot
  refine ⟨_, means_numberToken.mpr ⟨n, rfl, h⟩, ?_⟩
  rw [hdrop, scanToken_of_start hstart, ← scanNumber_complete hmatches hend, ← List.append_assoc,
    ← Utf8.encode_append, List.takeWhile_append_dropWhile]

/-- A literal is scanned. -/
lemma scanToken_literal {c : Char} (text : Text) {type : TokenType φ} {bytes : List UInt8}
    (h : ∀ bytes, scanToken c bytes = (scanLiteral text bytes).map fun rest => (type, rest))
    (hascii : ∀ x ∈ text, x.toNat ≤ 0x7F) :
    scanToken c (encode text ++ bytes) = some (type, bytes) := by
  rw [h, (scanLiteral_iff hascii).mpr rfl]
  rfl

/-- The token that a text begins with is scanned. -/
lemma scanToken_complete {tail : List UInt8} (htail : Tail tail)
    (h : JsonText.next t = some (token, rest)) :
    ∃ b bytes, encode t ++ tail = b :: bytes ∧ ∃ type, Means type token ∧
      scanToken (charOf b) bytes = some (type, encode rest ++ tail) := by
  cases t with
  | nil => cases h
  | cons c s =>
      have hscan : c.toNat ≤ 0x7F ∧ ∃ type, Means type token ∧
          scanToken c (encode s ++ tail) = some (type, encode rest ++ tail) := by
        rw [JsonText.next] at h
        split_ifs at h with hquote hpunct hnumber
        · obtain ⟨⟨u, rest'⟩, hread, heq⟩ := Option.map_eq_some_iff.mp h
          obtain ⟨rfl, rfl⟩ := Prod.mk.inj heq
          obtain ⟨y, rfl, hstring⟩ := follows_scanString.complete hread tail
          subst hquote
          refine ⟨by decide, _, .valueString u, ?_⟩
          show (scanString _).map _ = _
          rw [hstring]
          rfl
        · obtain ⟨rfl, rfl⟩ := Prod.mk.inj (Option.some.inj h)
          refine ⟨?_, scanToken_punct hpunct _⟩
          rcases JsonText.isPunctuation_iff.mp hpunct with rfl | rfl | rfl | rfl | rfl | rfl <;>
            decide
        · obtain ⟨n, hn, heq⟩ := Option.map_eq_some_iff.mp h
          obtain ⟨rfl, rfl⟩ := Prod.mk.inj heq
          exact ⟨toNat_le_of_isNumberChar hnumber, scanToken_num htail hnumber hn⟩
        · split at h
          · rename_i heq
            obtain ⟨rfl, rfl⟩ := List.cons.inj heq
            obtain ⟨rfl, rfl⟩ := Prod.mk.inj (Option.some.inj h)
            exact ⟨by decide, _, .literalNull,
              scanToken_literal ['u', 'l', 'l'] (fun _ => rfl)
                (forall_mem_of_all (by decide))⟩
          · rename_i heq
            obtain ⟨rfl, rfl⟩ := List.cons.inj heq
            obtain ⟨rfl, rfl⟩ := Prod.mk.inj (Option.some.inj h)
            exact ⟨by decide, _, .literalTrue,
              scanToken_literal ['r', 'u', 'e'] (fun _ => rfl)
                (forall_mem_of_all (by decide))⟩
          · rename_i heq
            obtain ⟨rfl, rfl⟩ := List.cons.inj heq
            obtain ⟨rfl, rfl⟩ := Prod.mk.inj (Option.some.inj h)
            exact ⟨by decide, _, .literalFalse,
              scanToken_literal ['a', 'l', 's', 'e'] (fun _ => rfl)
                (forall_mem_of_all (by decide))⟩
          · cases h
      obtain ⟨hc, hscan⟩ := hscan
      obtain ⟨b, rfl, hencode⟩ := Utf8.exists_encode_eq_cons hc
      exact ⟨b, _, by rw [hencode]; rfl, hscan⟩

/-! ### White space and the end of the input -/

omit [Floats φ] in
lemma encode_map_charOf {bytes : List UInt8} (h : ∀ b ∈ bytes, b.toNat ≤ 0x7F) :
    encode (bytes.map charOf) = bytes := by
  induction bytes with
  | nil => rfl
  | cons b bytes ih =>
      obtain ⟨hb, hbytes⟩ := List.forall_mem_cons.mp h
      rw [List.map_cons, encode_cons_of_charOf rfl (by rwa [Utf8.toNat_charOf]), ih hbytes]

lemma toNat_le_of_isSpace {c : Char} (h : isSpace c = true) : c.toNat ≤ 0x7F := by
  rcases of_decide_eq_true h with rfl | rfl | rfl | rfl <;> decide

/-- White space is skipped. -/
lemma exists_skipWhitespace (bytes : List UInt8) : ∃ spaces : Text,
    (∀ c ∈ spaces, isSpace c = true) ∧ bytes = encode spaces ++ skipWhitespace bytes := by
  have hall : ∀ b ∈ bytes.takeWhile fun b => isSpace (charOf b), isSpace (charOf b) = true :=
    fun b hb => List.mem_takeWhile_imp (p := fun b => isSpace (charOf b)) hb
  refine ⟨(bytes.takeWhile fun b => isSpace (charOf b)).map charOf, ?_, ?_⟩
  · intro c hc
    obtain ⟨b, hb, rfl⟩ := List.mem_map.mp hc
    exact hall b hb
  · rw [encode_map_charOf, skipWhitespace, List.takeWhile_append_dropWhile]
    intro b hb
    have hle := toNat_le_of_isSpace (hall b hb)
    rwa [Utf8.toNat_charOf] at hle

lemma skipWhitespace_encode {tail : List UInt8} (htail : Tail tail) (t : Text) :
    skipWhitespace (encode t ++ tail) = encode (t.dropWhile isSpace) ++ tail := by
  induction t with
  | nil =>
      cases tail with
      | nil => rfl
      | cons b tail =>
          obtain rfl := htail b rfl
          rfl
  | cons c t ih =>
      by_cases hspace : isSpace c = true
      · obtain ⟨b, rfl, hencode⟩ := Utf8.exists_encode_eq_cons (toNat_le_of_isSpace hspace)
        rw [List.dropWhile_cons, if_pos hspace, ← ih, hencode, List.cons_append, skipWhitespace,
          List.dropWhile_cons, if_pos hspace]
        rfl
      · rw [List.dropWhile_cons, if_neg hspace]
        by_cases hc : c.toNat ≤ 0x7F
        · obtain ⟨b, rfl, hencode⟩ := Utf8.exists_encode_eq_cons hc
          rw [hencode, List.cons_append, skipWhitespace, List.dropWhile_cons, if_neg hspace]
        · obtain ⟨b, rest, hcode, hb⟩ := Utf8.exists_cons_of_lt (not_le.mp hc)
          have hnot : ¬ isSpace (charOf b) = true := by
            intro hb'
            have hle := toNat_le_of_isSpace hb'
            rw [Utf8.toNat_charOf] at hle
            omega
          rw [Utf8.encode_cons, hcode, List.cons_append, List.cons_append, skipWhitespace,
            List.dropWhile_cons, if_neg hnot]

/-- What is scanned is the text of a token, behind white space. -/
lemma scan_sound (h : scan (φ := φ) bytes = (type, more)) (hmeans : Means type token) :
    ∃ spaces w, (∀ c ∈ spaces, isSpace c = true) ∧ bytes = encode (spaces ++ w) ++ more ∧
      token.Ok ∧ IsText w token := by
  obtain ⟨spaces, hspaces, hbytes⟩ := exists_skipWhitespace bytes
  rw [scan] at h
  cases hskip : skipWhitespace bytes with
  | nil =>
      simp only [hskip] at h
      obtain ⟨rfl, -⟩ := Prod.mk.inj h
      cases hmeans
  | cons b rest =>
      simp only [hskip] at h
      cases htoken : scanToken (φ := φ) (charOf b) rest with
      | none =>
          rw [htoken] at h
          obtain ⟨rfl, -⟩ := Prod.mk.inj h
          cases hmeans
      | some r =>
          rw [htoken, Option.getD_some] at h
          subst h
          obtain ⟨w, hw, hok, htext⟩ := scanToken_sound htoken hmeans
          refine ⟨spaces, w, hspaces, ?_, hok, htext⟩
          rw [Utf8.encode_append, List.append_assoc, ← hw, ← hskip]
          exact hbytes

/-- The token that a text begins with is scanned, behind white space. -/
lemma scan_complete {tail : List UInt8} (htail : Tail tail)
    (h : JsonText.next (t.dropWhile isSpace) = some (token, rest)) :
    ∃ type, Means type token ∧ scan (φ := φ) (encode t ++ tail) = (type, encode rest ++ tail) := by
  obtain ⟨b, bytes, hbytes, type, hmeans, htoken⟩ := scanToken_complete htail h
  refine ⟨type, hmeans, ?_⟩
  rw [scan, skipWhitespace_encode htail, hbytes]
  simp only [htoken, Option.getD_some]

/-- A number is no end of the input. -/
lemma numberToken_ne (numberType : NumberType) (buffer : Text) :
    numberToken (φ := φ) numberType buffer ≠ .endOfInput := by
  cases numberType with
  | unsigned =>
      rw [numberToken]
      split_ifs <;> exact nofun
  | integer =>
      rw [numberToken]
      split_ifs <;> exact nofun
  | float => exact nofun

lemma eq_of_scanToken_end {b : UInt8}
    (h : scanToken (φ := φ) (charOf b) bytes = some (.endOfInput, more)) :
    b = 0 := by
  unfold scanToken at h
  split at h
  case h_11 heq =>
    have hzero : b.toNat = 0 := by rw [← Utf8.toNat_charOf, heq]; rfl
    exact UInt8.toNat_inj.mp hzero
  case h_12 =>
    obtain ⟨run, -, -, -, heq⟩ := scanNumber_sound h
    exact absurd heq.symm (numberToken_ne _ _)
  all_goals
    first
    | cases h
    | obtain ⟨_, -, heq⟩ := Option.map_eq_some_iff.mp h
      cases heq

/-- Where the scanner sees the end there is white space and the end. -/
lemma scan_end_sound (h : scan (φ := φ) bytes = (.endOfInput, more)) :
    ∃ spaces tail,
      (∀ c ∈ spaces, isSpace c = true) ∧ bytes = encode spaces ++ tail ∧ Tail tail := by
  obtain ⟨spaces, hspaces, hbytes⟩ := exists_skipWhitespace bytes
  refine ⟨spaces, _, hspaces, hbytes, fun b hb => ?_⟩
  obtain ⟨rest, hskip⟩ := List.head?_eq_some_iff.mp hb
  rw [scan] at h
  simp only [hskip] at h
  cases htoken : scanToken (φ := φ) (charOf b) rest with
  | none =>
      rw [htoken] at h
      cases h
  | some r =>
      rw [htoken, Option.getD_some] at h
      subst h
      exact eq_of_scanToken_end htoken

lemma scan_end_complete {tail : List UInt8} (htail : Tail tail)
    (h : ∀ c ∈ t, isSpace c = true) : (scan (φ := φ) (encode t ++ tail)).1 = .endOfInput := by
  have hdrop : t.dropWhile isSpace = [] := List.dropWhile_eq_nil_iff.mpr h
  rw [scan, skipWhitespace_encode htail, hdrop]
  cases tail with
  | nil => rfl
  | cons b tail =>
      obtain rfl := htail b rfl
      rfl

/-- What is scanned of a string are the bytes of a text. -/
lemma exists_encode_of_scan (bytes : List UInt8) {s : List UInt8}
    (h : (scan (φ := φ) bytes).1 = .valueString s) :
    ∃ u, s = encode u := by
  rw [scan] at h
  cases hskip : skipWhitespace bytes with
  | nil =>
      simp only [hskip] at h
      cases h
  | cons b rest =>
      simp only [hskip] at h
      cases htoken : scanToken (φ := φ) (charOf b) rest with
      | none =>
          rw [htoken] at h
          cases h
      | some r =>
          obtain ⟨type, rest'⟩ := r
          rw [htoken, Option.getD_some] at h
          dsimp only at h
          subst h
          unfold scanToken at htoken
          split at htoken
          case h_10 =>
            obtain ⟨⟨y, more⟩, hscan, heq⟩ := Option.map_eq_some_iff.mp htoken
            obtain ⟨hy, -⟩ := Prod.mk.inj heq
            obtain rfl : y = s := by simpa using hy
            obtain ⟨code, u, -, hu, -⟩ := follows_scanString.sound hscan
            exact ⟨u, hu⟩
          case h_12 =>
            obtain ⟨run, -, -, -, heq⟩ := scanNumber_sound htoken
            cases htype : numberTypeOf (charOf b :: run) <;> rw [htype, numberToken] at heq
            · split_ifs at heq
            · split_ifs at heq
            · cases heq
          all_goals
            first
            | cases htoken
            | obtain ⟨_, -, heq⟩ := Option.map_eq_some_iff.mp htoken
              cases heq

/-! ### What is left of the input -/

omit [Floats φ] in
lemma length_le_of_eq {code : Text} (h : bytes = encode code ++ more) :
    more.length ≤ bytes.length := by
  rw [h, List.length_append]
  exact Nat.le_add_left _ _

lemma scanToken_length {c : Char} (h : scanToken (φ := φ) c bytes = some (type, more)) :
    more.length ≤ bytes.length := by
  have hself {type' : TokenType φ} (heq : some (type', bytes) = some (type, more)) :
      more.length ≤ bytes.length := by
    obtain ⟨-, rfl⟩ := Prod.mk.inj (Option.some.inj heq)
    exact le_refl _
  have hliteral {text : Text} {type' : TokenType φ} (hascii : ∀ x ∈ text, x.toNat ≤ 0x7F)
      (heq : (scanLiteral text bytes).map (fun rest => (type', rest)) = some (type, more)) :
      more.length ≤ bytes.length := by
    obtain ⟨rest', hscan, heq⟩ := Option.map_eq_some_iff.mp heq
    obtain ⟨-, rfl⟩ := Prod.mk.inj heq
    exact length_le_of_eq ((scanLiteral_iff hascii).mp hscan)
  unfold scanToken at h
  split at h
  case h_7 => exact hliteral (forall_mem_of_all (by decide)) h
  case h_8 => exact hliteral (forall_mem_of_all (by decide)) h
  case h_9 => exact hliteral (forall_mem_of_all (by decide)) h
  case h_10 =>
    obtain ⟨r, hscan, heq⟩ := Option.map_eq_some_iff.mp h
    obtain ⟨-, rfl⟩ := Prod.mk.inj heq
    obtain ⟨code, -, hbytes, -, -⟩ := follows_scanString.sound hscan
    exact length_le_of_eq hbytes
  case h_12 =>
    obtain ⟨run, hbytes, -⟩ := scanNumber_sound h
    exact length_le_of_eq hbytes
  all_goals exact hself h

/-- A token takes at least one byte, unless it is an error or the end. -/
lemma scan_length (bytes : List UInt8) : (scan (φ := φ) bytes).2.length ≤ bytes.length ∧
    ((scan (φ := φ) bytes).2.length < bytes.length ∨ (scan (φ := φ) bytes).1 = .parseError ∨
      (scan (φ := φ) bytes).1 = .endOfInput) := by
  have hskip := (List.dropWhile_suffix (l := bytes) fun b => isSpace (charOf b)).length_le
  rw [← skipWhitespace] at hskip
  rw [scan]
  cases heq : skipWhitespace bytes with
  | nil => exact ⟨Nat.zero_le _, .inr (.inr rfl)⟩
  | cons b rest =>
      rw [heq, List.length_cons] at hskip
      simp only
      cases htoken : scanToken (φ := φ) (charOf b) rest with
      | none => exact ⟨Nat.zero_le _, .inr (.inl rfl)⟩
      | some r =>
          have hle := scanToken_length htoken
          rw [Option.getD_some]
          exact ⟨by omega, .inl (by omega)⟩

/-! ### Token after token -/

/-- Bytes that are scanned as tokens. -/
inductive Scanned : List UInt8 → List (Token (Number φ)) → List UInt8 → Prop
  | nil {bytes : List UInt8} : Scanned bytes [] bytes
  | cons {bytes bytes' rest : List UInt8} {type : TokenType φ} {token : Token (Number φ)}
      {ts : List (Token (Number φ))} : scan bytes = (type, bytes') → Means type token →
        Scanned bytes' ts rest → Scanned bytes (token :: ts) rest

/-- The first character of a token is no space, and one of a numeral only for numerals. -/
lemma next_first {c : Char} {s : Text} (h : JsonText.next (c :: s) = some (token, rest)) :
    isSpace c = false ∧ isNumberChar c = token.isNum := by
  rw [JsonText.next] at h
  split_ifs at h with hquote hpunct hnumber
  · obtain ⟨r, -, heq⟩ := Option.map_eq_some_iff.mp h
    obtain ⟨rfl, -⟩ := Prod.mk.inj heq
    rw [hquote]
    exact ⟨rfl, rfl⟩
  · obtain ⟨rfl, -⟩ := Prod.mk.inj (Option.some.inj h)
    rcases JsonText.isPunctuation_iff.mp hpunct with rfl | rfl | rfl | rfl | rfl | rfl <;>
      exact ⟨rfl, rfl⟩
  · obtain ⟨n, -, heq⟩ := Option.map_eq_some_iff.mp h
    obtain ⟨rfl, -⟩ := Prod.mk.inj heq
    refine ⟨?_, hnumber⟩
    by_contra hspace
    rcases of_decide_eq_true (Bool.not_eq_false _ ▸ hspace) with rfl | rfl | rfl | rfl <;>
      exact absurd hnumber (by decide)
  · split at h
    case h_4 => cases h
    all_goals
      rename_i heq
      obtain ⟨rfl, rfl⟩ := List.cons.inj heq
      obtain ⟨rfl, -⟩ := Prod.mk.inj (Option.some.inj h)
      exact ⟨rfl, rfl⟩

/-- Behind a numeral, where the next token is none, stands no character of one. -/
lemma head_of_reads {ts : List (Token (Number φ))} (h : JsonText.Reads t ts)
    (hapart : ∀ token' ∈ ts.head?, token'.isNum = false) :
    ∀ c ∈ t.head?, isNumberChar c = false := by
  intro c hc
  obtain ⟨s, rfl⟩ := List.head?_eq_some_iff.mp hc
  by_contra hnumber
  have hspace : isSpace c = false := by
    by_contra hspace
    rcases of_decide_eq_true (Bool.not_eq_false _ ▸ hspace) with rfl | rfl | rfl | rfl <;>
      exact hnumber rfl
  cases h with
  | nil hall =>
      rw [hall c List.mem_cons_self] at hspace
      cases hspace
  | cons hnext _ =>
      rw [List.dropWhile_cons, if_neg (by simp [hspace])] at hnext
      exact hnumber ((next_first hnext).2.trans (hapart _ rfl))

/-- **Bytes that are scanned as tokens are a text of them**, if no numerals stand side by
side. -/
theorem Scanned.reads {bytes rest : List UInt8} {ts : List (Token (Number φ))}
    (h : Scanned bytes ts rest) (hspaced : JsonText.Spaced ts)
    (hend : (scan (φ := φ) rest).1 = .endOfInput) :
    ∃ t tail, bytes = encode t ++ tail ∧ JsonText.Reads t ts ∧ Tail tail := by
  induction h with
  | nil =>
      obtain ⟨spaces, tail, hspaces, hbytes, htail⟩ := scan_end_sound (Prod.ext hend rfl)
      exact ⟨spaces, tail, hbytes, .nil hspaces, htail⟩
  | @cons _ _ _ _ token ts hscan hmeans _ ih =>
      obtain ⟨t, tail, rfl, hreads, htail⟩ := ih hspaced.tail hend
      obtain ⟨spaces, w, hspaces, rfl, -, htext⟩ := scan_sound hscan hmeans
      have hnext := htext t fun hnum => head_of_reads hreads fun token' htoken' => by
        obtain ⟨ts', rfl⟩ := List.head?_eq_some_iff.mp htoken'
        simpa [hnum] using (List.isChain_cons_cons.mp hspaced.apart).1
      have hdrop : (spaces ++ (w ++ t)).dropWhile isSpace = w ++ t := by
        rw [List.dropWhile_append_of_pos hspaces]
        cases hw : w ++ t with
        | nil => rfl
        | cons c s =>
            rw [hw] at hnext
            rw [List.dropWhile_cons, if_neg (by simp [(next_first hnext).1])]
      refine ⟨spaces ++ (w ++ t), tail, ?_, .cons (by rw [hdrop]; exact hnext) hreads, htail⟩
      simp only [Utf8.encode_append, List.append_assoc]

/-- **A text of tokens is scanned as them**, up to the end of the input. -/
theorem scanned_of_reads {ts : List (Token (Number φ))} (h : JsonText.Reads t ts)
    {tail : List UInt8} (htail : Tail tail) :
    ∃ rest, Scanned (encode t ++ tail) ts rest ∧ (scan (φ := φ) rest).1 = .endOfInput := by
  induction h with
  | nil hspaces => exact ⟨_, .nil, scan_end_complete htail hspaces⟩
  | cons hnext _ ih =>
      obtain ⟨rest, hscanned, hend⟩ := ih
      obtain ⟨type, hmeans, hscan⟩ := scan_complete htail hnext
      exact ⟨rest, .cons hscan hmeans hscanned, hend⟩

end Tokens

end Neutralino.lexer
