import Neutralino.Server.Assets
import Neutralino.Base.Numbers

/-!
The `Range` header of a request: `__getFileReaderOptionsFromHeaders`.

* `rangeValue`, `getFileReaderOptionsFromHeaders`: the expression the header is
  matched with, and what is made of its two numbers.
* `IsRange`: a header asks for a range; `rangeValue_test_iff`: the expression says so.
* `Reads`: what a header is to be read as; `respond_of_default`: a header that is
  ignored leads to the full file.
* `reads_iff`: **when a header is read so**.  Numbers that are too large throw, and
  a range that ends before it starts is taken for one without an end.
-/

namespace Neutralino.neuserver

open Regex

/-! ### The code -/

/-- `(\d+)-(\d*)?` after `bytes=`. -/
def rangeValue : Re Char :=
  .cat (.lit "bytes=".toList) (.cat (.cat (.cls Char.isDigit) (.star (.cls Char.isDigit)))
    (.cat (.lit "-".toList) (.alt (.star (.cls Char.isDigit)) .empty)))

/-- The first group of a match. -/
def rangeFirst (value : Str) : Str := (value.drop "bytes=".length).takeWhile Char.isDigit

/-- The second group of a match. -/
def rangeLast (value : Str) : Str := ((value.drop "bytes=".length).dropWhile Char.isDigit).tail

/-- `__getFileReaderOptionsFromHeaders`, for the value of the header `Range`, where
it is there. -/
def getFileReaderOptionsFromHeaders (range : Option Str) : Except Fault fs.FileReaderOptions :=
  match range with
  | none => .ok {}
  | some value =>
      if rangeValue.test value then do
        let pos ← stoll (rangeFirst value)
        if rangeLast value ≠ [] then
          let last ← stoll (rangeLast value)
          if pos ≤ last then
            let size ← addLongLong (last - pos) 1
            return { pos := pos, size := size }
          else return { pos := pos }
        else return { pos := pos }
      else .ok {}

/-! ### What a header asks for -/

/-- A header asks for the bytes from one number on, up to another where there is one. -/
structure IsRange (value a b : Str) : Prop where
  value_eq : value = "bytes=".toList ++ (a ++ '-' :: b)
  first_ne : a ≠ []
  first : ∀ c ∈ a, c.isDigit = true
  last : ∀ c ∈ b, c.isDigit = true

/-- The expression says that a header asks for a range. -/
lemma rangeValue_test_iff {value : Str} : rangeValue.test value = true ↔ ∃ a b, IsRange value a b := by
  rw [Re.test_iff]
  constructor
  · intro h
    obtain ⟨u, v, hu, hv, rfl⟩ := Re.matches_cat.mp h
    obtain ⟨a, w, ha, hw, rfl⟩ := Re.matches_cat.mp hv
    obtain ⟨x, b, hx, hb, rfl⟩ := Re.matches_cat.mp hw
    obtain ⟨d, a, hd, ha', rfl⟩ := Re.matches_cat.mp ha
    obtain ⟨c, hdigit, rfl⟩ := Re.matches_cls.mp hd
    obtain rfl := Re.matches_lit.mp hu
    obtain rfl := Re.matches_lit.mp hx
    refine ⟨c :: a, b, rfl, by simp, ?_, ?_⟩
    · exact List.forall_mem_cons.mpr ⟨hdigit, Re.matches_star_cls.mp ha'⟩
    · rcases Re.matches_alt.mp hb with hb | hb
      · exact Re.matches_star_cls.mp hb
      · simp [Re.matches_empty.mp hb]
  · rintro ⟨a, b, rfl, hne, ha, hb⟩
    obtain ⟨c, a, rfl⟩ := List.exists_cons_of_ne_nil hne
    obtain ⟨hc, ha⟩ := List.forall_mem_cons.mp ha
    have hfirst := Re.matches_cat.mpr
      ⟨[c], a, .cls (p := Char.isDigit) hc, Re.matches_star_cls.mpr ha, rfl⟩
    have hlast := Re.matches_cat.mpr
      ⟨['-'], b, Re.matches_lit.mpr rfl, .altL (s := .empty) (Re.matches_star_cls.mpr hb), rfl⟩
    exact Re.matches_cat.mpr ⟨_, _, Re.matches_lit.mpr rfl, .cat hfirst hlast, rfl⟩

section Range

variable {value a b : Str}

lemma IsRange.rangeFirst_eq (h : IsRange value a b) : rangeFirst value = a := by
  rw [rangeFirst, h.value_eq]
  show (a ++ '-' :: b).takeWhile Char.isDigit = a
  rw [List.takeWhile_append_of_pos h.first, List.takeWhile_cons_of_neg (by decide), List.append_nil]

lemma IsRange.rangeLast_eq (h : IsRange value a b) : rangeLast value = b := by
  rw [rangeLast, h.value_eq]
  show ((a ++ '-' :: b).dropWhile Char.isDigit).tail = b
  rw [List.dropWhile_append_of_pos h.first, List.dropWhile_cons_of_neg (by decide), List.tail_cons]

/-- A header asks for one range. -/
lemma IsRange.unique {a' b' : Str} (h : IsRange value a b) (h' : IsRange value a' b') :
    a' = a ∧ b' = b :=
  ⟨h'.rangeFirst_eq.symm.trans h.rangeFirst_eq, h'.rangeLast_eq.symm.trans h.rangeLast_eq⟩

/-- The numbers of a range can be represented and stand in their order. -/
def Satisfiable (a b : Str) : Prop :=
  if b = [] then numberOf a < 2 ^ 63 else numberOf a ≤ numberOf b ∧ numberOf b < 2 ^ 63

/-- What a range is to be read as. -/
def rangeOptions (a b : Str) : fs.FileReaderOptions :=
  if b = [] then { pos := numberOf a }
  else { pos := numberOf a, size := numberOf b - numberOf a + 1 }

/-- What a header is to be read as: its range where it asks for one that can be
satisfied, and nothing for any other. -/
structure Reads (value : Str) (options : fs.FileReaderOptions) : Prop where
  range : ∀ a b, IsRange value a b → Satisfiable a b → options = rangeOptions a b
  ignored : (∀ a b, IsRange value a b → ¬ Satisfiable a b) → options = {}

/-- The condition: a range that is asked for can be satisfied, and its length can
be represented too. -/
def Fits (value : Str) : Prop :=
  ∀ a b, IsRange value a b →
    Satisfiable a b ∧ (b ≠ [] → numberOf b - numberOf a + 1 < (2 : ℤ) ^ 63)

/-- What is made of a range. -/
lemma IsRange.options_eq (h : IsRange value a b) :
    getFileReaderOptionsFromHeaders (some value) =
      if 2 ^ 63 ≤ numberOf a ∨ 2 ^ 63 ≤ numberOf b then .error .outOfRange
      else if b = [] ∨ numberOf b < numberOf a then .ok { pos := numberOf a }
      else if numberOf b - numberOf a + 1 < (2 : ℤ) ^ 63 then
        .ok { pos := numberOf a, size := numberOf b - numberOf a + 1 }
      else .error .undefinedBehaviour := by
  have htest : rangeValue.test value = true := rangeValue_test_iff.mpr ⟨a, b, h⟩
  rw [getFileReaderOptionsFromHeaders]
  simp only [htest, if_true, h.rangeFirst_eq, h.rangeLast_eq, stoll_of_digits h.first_ne h.first]
  by_cases ha : numberOf a < 2 ^ 63
  · rw [if_pos ha, ok_bind]
    by_cases hb : b = []
    · have hzero : ¬ (2 ^ 63 ≤ numberOf a ∨ 2 ^ 63 ≤ numberOf b) := by
        have : numberOf b = 0 := by rw [hb]; rfl
        omega
      rw [if_neg (not_not.mpr hb), if_neg hzero, if_pos (.inl hb)]
      rfl
    · rw [if_pos hb, stoll_of_digits hb h.last]
      by_cases hlarge : numberOf b < 2 ^ 63
      · have hfits : ¬ (2 ^ 63 ≤ numberOf a ∨ 2 ^ 63 ≤ numberOf b) := by omega
        rw [if_pos hlarge, ok_bind, if_neg hfits]
        by_cases hle : numberOf a ≤ numberOf b
        · have hnot : ¬ (b = [] ∨ numberOf b < numberOf a) := by
            rintro (hb' | hlt)
            · exact hb hb'
            · omega
          rw [if_pos (by exact_mod_cast hle), if_neg hnot, addLongLong]
          by_cases hsize : (numberOf b : ℤ) - numberOf a + 1 < 2 ^ 63
          · rw [if_pos ⟨by omega, hsize⟩, if_pos hsize]
            rfl
          · rw [if_neg fun hsum => hsize hsum.2, if_neg hsize]
            rfl
        · rw [if_neg (by exact_mod_cast hle), if_pos (.inr (by omega))]
          rfl
      · rw [if_neg hlarge, if_pos (.inr (by omega))]
        rfl
  · rw [if_neg ha, if_pos (.inl (by omega))]
    rfl

/-- What a header for a range is to be read as. -/
lemma IsRange.reads_iff_options (h : IsRange value a b) (options : fs.FileReaderOptions) :
    Reads value options ↔
      (Satisfiable a b → options = rangeOptions a b) ∧ (¬ Satisfiable a b → options = {}) := by
  constructor
  · refine fun hreads => ⟨hreads.range a b h, fun hnot => hreads.ignored fun a' b' h' => ?_⟩
    obtain ⟨rfl, rfl⟩ := h.unique h'
    exact hnot
  · rintro ⟨hrange, hignored⟩
    refine ⟨fun a' b' h' hsat => ?_, fun hnone => hignored (hnone a b h)⟩
    obtain ⟨rfl, rfl⟩ := h.unique h'
    exact hrange hsat

lemma satisfiable_of_ne_nil (hb : b ≠ []) :
    Satisfiable a b ↔ numberOf a ≤ numberOf b ∧ numberOf b < 2 ^ 63 := by
  rw [Satisfiable, if_neg hb]

/-- A header for a range is read as it should be exactly if the range fits. -/
lemma IsRange.read_iff (h : IsRange value a b) :
    (∃ options, getFileReaderOptionsFromHeaders (some value) = .ok options ∧ Reads value options) ↔
      Satisfiable a b ∧ (b ≠ [] → numberOf b - numberOf a + 1 < (2 : ℤ) ^ 63) := by
  simp only [h.reads_iff_options, h.options_eq]
  by_cases hb : b = []
  · have hzero : numberOf b = 0 := by rw [hb]; rfl
    have hsat : Satisfiable a b ↔ numberOf a < 2 ^ 63 := by rw [Satisfiable, if_pos hb]
    by_cases ha : numberOf a < 2 ^ 63
    · rw [if_neg (by omega), if_pos (.inl hb)]
      refine iff_of_true ⟨_, rfl, fun _ => ?_, fun hnot => absurd (hsat.mpr ha) hnot⟩
        ⟨hsat.mpr ha, fun hne => absurd hb hne⟩
      rw [rangeOptions, if_pos hb]
    · rw [if_pos (.inl (by omega))]
      exact iff_of_false (fun ⟨_, hread, _⟩ => nomatch hread) fun hfits => ha (hsat.mp hfits.1)
  · have hsat := satisfiable_of_ne_nil (a := a) hb
    by_cases hlarge : 2 ^ 63 ≤ numberOf a ∨ 2 ^ 63 ≤ numberOf b
    · rw [if_pos hlarge]
      refine iff_of_false (fun ⟨_, hread, _⟩ => nomatch hread) fun hfits => ?_
      have := hsat.mp hfits.1
      omega
    · rw [if_neg hlarge]
      by_cases hlt : numberOf b < numberOf a
      · -- the end stands before the start: the header is not ignored
        have hnot : ¬ Satisfiable a b := fun hfits => by
          have := hsat.mp hfits
          omega
        rw [if_pos (.inr hlt)]
        refine iff_of_false ?_ fun hfits => hnot hfits.1
        rintro ⟨options, hread, -, hignored⟩
        obtain rfl := Except.ok.inj hread
        have hpos := congrArg fs.FileReaderOptions.pos (hignored hnot)
        have : (numberOf a : ℤ) = -1 := hpos
        omega
      · have hfits : Satisfiable a b := hsat.mpr (by omega)
        rw [if_neg (by rintro (hb' | hlt'); exacts [hb hb', hlt hlt'])]
        by_cases hsize : (numberOf b : ℤ) - numberOf a + 1 < 2 ^ 63
        · rw [if_pos hsize]
          refine iff_of_true ⟨_, rfl, fun _ => ?_, fun hnot => absurd hfits hnot⟩
            ⟨hfits, fun _ => hsize⟩
          rw [rangeOptions, if_neg hb]
        · rw [if_neg hsize]
          exact iff_of_false (fun ⟨_, hread, _⟩ => nomatch hread) fun h => hsize (h.2 hb)

/-- **A header is read as it should be**, without an exception and without an
overflow, exactly if a range it asks for can be satisfied and its length
represented. -/
theorem reads_iff (value : Str) :
    (∃ options, getFileReaderOptionsFromHeaders (some value) = .ok options ∧ Reads value options) ↔
      Fits value := by
  by_cases htest : rangeValue.test value = true
  · obtain ⟨a, b, h⟩ := rangeValue_test_iff.mp htest
    rw [h.read_iff]
    refine ⟨fun hfits a' b' h' => ?_, fun hfits => hfits a b h⟩
    obtain ⟨rfl, rfl⟩ := h.unique h'
    exact hfits
  · have hnone : ∀ a b, ¬ IsRange value a b := fun a b h => htest (rangeValue_test_iff.mpr ⟨a, b, h⟩)
    have hread : getFileReaderOptionsFromHeaders (some value) = .ok {} := by
      rw [getFileReaderOptionsFromHeaders]
      simp only [htest, Bool.false_eq_true, if_false]
    refine iff_of_true ⟨{}, hread, fun a b h => absurd h (hnone a b), fun _ => rfl⟩ ?_
    exact fun a b h => absurd h (hnone a b)

/-- A header that is ignored leads to the full file. -/
lemma respond_of_default {disk : Disk} {filename path prependData content : Str}
    (h : disk.openForRead filename = .bytes content) :
    ∃ file, fs.readFile disk filename {} = .ok file ∧
      (router.respond path prependData {} file).status = 200 ∧
        (router.respond path prependData {} file).data = prependData ++ content := by
  have hread : fs.readFile disk filename {} = .ok { data := content, size := content.length } := by
    simp [fs.readFile, h]
  exact ⟨_, hread, rfl, rfl⟩

/-- A range that starts further than can be represented throws. -/
theorem large_range_throws :
    ¬ ∀ value, ∃ options, getFileReaderOptionsFromHeaders (some value) = .ok options ∧
      Reads value options := by
  intro h
  obtain ⟨options, hread, -⟩ := h "bytes=9223372036854775808-"
  have hrange : IsRange "bytes=9223372036854775808-" "9223372036854775808" [] :=
    ⟨rfl, by decide, forall_mem_of_all (by decide), nofun⟩
  rw [hrange.options_eq, if_pos (.inl (by decide))] at hread
  cases hread

end Range

end Neutralino.neuserver
