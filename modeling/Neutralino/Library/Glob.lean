import Mathlib.Data.List.Infix

/-!
Glob patterns.

* `Piece`, `Matches`: the pieces of a pattern, and the words that a pattern matches
  as a whole.
* `matches_run_iff`, `matches_any_iff`, `matches_letter_iff`, `matches_append_iff`,
  `matches_letters_iff`: what a pattern matches, piece by piece.
* `test`: the matcher, `test_iff` its correctness.
-/

namespace Glob

variable {α : Type}

/-- A piece of a pattern: any run of letters, any letter, or the letter `a`. -/
inductive Piece (α : Type) where
  | run
  | any
  | letter (a : α)
  deriving DecidableEq

/-- A pattern matches a word as a whole. -/
inductive Matches : List (Piece α) → List α → Prop
  | nil : Matches [] []
  | run {ps : List (Piece α)} {ys : List α} (xs : List α) :
      Matches ps ys → Matches (.run :: ps) (xs ++ ys)
  | any {ps : List (Piece α)} {a : α} {ys : List α} : Matches ps ys → Matches (.any :: ps) (a :: ys)
  | letter {ps : List (Piece α)} {a : α} {ys : List α} :
      Matches ps ys → Matches (.letter a :: ps) (a :: ys)

/-! ### Piece by piece -/

section Pieces

variable {ps qs : List (Piece α)} {xs : List α} {a : α}

lemma matches_nil_iff : Matches ([] : List (Piece α)) xs ↔ xs = [] := by
  constructor
  · intro h
    cases h
    rfl
  · rintro rfl
    exact .nil

lemma matches_run_iff : Matches (.run :: ps) xs ↔ ∃ u v, xs = u ++ v ∧ Matches ps v := by
  constructor
  · intro h
    cases h with
    | run u h => exact ⟨u, _, rfl, h⟩
  · rintro ⟨u, v, rfl, h⟩
    exact .run u h

lemma matches_any_iff : Matches (.any :: ps) xs ↔ ∃ a v, xs = a :: v ∧ Matches ps v := by
  constructor
  · intro h
    cases h with
    | any h => exact ⟨_, _, rfl, h⟩
  · rintro ⟨a, v, rfl, h⟩
    exact .any h

lemma matches_letter_iff : Matches (.letter a :: ps) xs ↔ ∃ v, xs = a :: v ∧ Matches ps v := by
  constructor
  · intro h
    cases h with
    | letter h => exact ⟨_, rfl, h⟩
  · rintro ⟨v, rfl, h⟩
    exact .letter h

/-- Patterns one after another match words one after another. -/
lemma matches_append_iff :
    Matches (ps ++ qs) xs ↔ ∃ u v, xs = u ++ v ∧ Matches ps u ∧ Matches qs v := by
  constructor
  · intro h
    induction ps generalizing xs with
    | nil => exact ⟨[], xs, rfl, .nil, h⟩
    | cons p ps ih =>
        cases h with
        | run w h =>
            obtain ⟨u, v, rfl, hu, hv⟩ := ih h
            exact ⟨w ++ u, v, (List.append_assoc ..).symm, .run w hu, hv⟩
        | any h =>
            obtain ⟨u, v, rfl, hu, hv⟩ := ih h
            exact ⟨_ :: u, v, rfl, .any hu, hv⟩
        | letter h =>
            obtain ⟨u, v, rfl, hu, hv⟩ := ih h
            exact ⟨_ :: u, v, rfl, .letter hu, hv⟩
  · rintro ⟨u, v, rfl, hu, hv⟩
    induction hu with
    | nil => exact hv
    | run w _ ih => exact List.append_assoc w _ v ▸ .run w ih
    | any _ ih => exact .any ih
    | letter _ ih => exact .letter ih

/-- Letters match themselves. -/
lemma matches_letters_iff {word : List α} : Matches (word.map .letter) xs ↔ xs = word := by
  induction word generalizing xs with
  | nil => exact matches_nil_iff
  | cons a word ih =>
      rw [List.map_cons, matches_letter_iff]
      simp_rw [ih]
      exact exists_eq_right

/-- A letter of the pattern occurs in every word that it matches. -/
lemma Matches.mem_of_letter_mem (h : Matches ps xs) (ha : .letter a ∈ ps) : a ∈ xs := by
  induction h with
  | nil => cases ha
  | run u _ ih => exact List.mem_append_right u (ih (by simpa using ha))
  | any _ ih => exact List.mem_cons_of_mem _ (ih (by simpa using ha))
  | letter _ ih =>
      obtain heq | ha := List.mem_cons.mp ha
      · cases heq
        exact List.mem_cons_self
      · exact List.mem_cons_of_mem _ (ih ha)

end Pieces

/-! ### The matcher -/

section Test

variable [DecidableEq α]

/-- Whether a pattern matches a word. -/
def test : List (Piece α) → List α → Bool
  | [], xs => xs.isEmpty
  | .run :: ps, xs => xs.tails.any (test ps)
  | .any :: _, [] => false
  | .any :: ps, _ :: xs => test ps xs
  | .letter _ :: _, [] => false
  | .letter a :: ps, b :: xs => a = b && test ps xs

theorem test_iff (ps : List (Piece α)) (xs : List α) : test ps xs = true ↔ Matches ps xs := by
  induction ps generalizing xs with
  | nil => rw [test, List.isEmpty_iff, matches_nil_iff]
  | cons p ps ih =>
      cases p with
      | run =>
          rw [test, List.any_eq_true, matches_run_iff]
          simp only [List.mem_tails, ih]
          constructor
          · rintro ⟨v, ⟨u, rfl⟩, h⟩
            exact ⟨u, v, rfl, h⟩
          · rintro ⟨u, v, rfl, h⟩
            exact ⟨v, ⟨u, rfl⟩, h⟩
      | any =>
          rw [matches_any_iff]
          cases xs with
          | nil => simp [test]
          | cons b xs => simp [test, ih]
      | letter a =>
          rw [matches_letter_iff]
          cases xs with
          | nil => simp [test]
          | cons b xs =>
              rw [test, Bool.and_eq_true, decide_eq_true_eq, ih]
              simp only [List.cons.injEq, and_assoc, exists_and_left, exists_eq_left', @eq_comm _ b a]

instance (ps : List (Piece α)) (xs : List α) : Decidable (Matches ps xs) :=
  decidable_of_iff _ (test_iff ps xs)

end Test

end Glob
