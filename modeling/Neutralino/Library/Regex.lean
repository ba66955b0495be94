import Mathlib.Data.List.Basic

/-!
Regular expressions whose atoms are classes of letters, as `std::regex` has
them, with the whole-word matcher.

* `Re`, `Re.Matches`: the syntax and the language of an expression.
* `Re.test`: the matcher by derivatives, `test_iff` its correctness.
* `upTo`: repetition up to a bound.
* `dot`: the ECMAScript `.`, any character except a line terminator.
-/

namespace Regex

/-- A regular expression over the alphabet `α`; an atom is a class of letters. -/
inductive Re (α : Type) where
  | never
  | empty
  | cls (p : α → Bool)
  | cat (r s : Re α)
  | alt (r s : Re α)
  | star (r : Re α)

namespace Re

variable {α : Type}

/-- The language of an expression. -/
inductive Matches : Re α → List α → Prop
  | empty : Matches .empty []
  | cls {p : α → Bool} {a : α} : p a = true → Matches (.cls p) [a]
  | cat {r s : Re α} {xs ys : List α} : Matches r xs → Matches s ys → Matches (.cat r s) (xs ++ ys)
  | altL {r s : Re α} {xs : List α} : Matches r xs → Matches (.alt r s) xs
  | altR {r s : Re α} {xs : List α} : Matches s xs → Matches (.alt r s) xs
  | starNil {r : Re α} : Matches (.star r) []
  | starCons {r : Re α} {xs ys : List α} :
      Matches r xs → Matches (.star r) ys → Matches (.star r) (xs ++ ys)

/-! ### Reading the language off the syntax -/

@[simp] lemma matches_never (xs : List α) : ¬ Matches (.never : Re α) xs := nofun

@[simp] lemma matches_empty {xs : List α} : Matches (.empty : Re α) xs ↔ xs = [] :=
  ⟨fun h => by cases h; rfl, fun h => h ▸ .empty⟩

lemma matches_cls {p : α → Bool} {xs : List α} :
    Matches (.cls p) xs ↔ ∃ a, p a = true ∧ xs = [a] :=
  ⟨fun h => by cases h with | cls ha => exact ⟨_, ha, rfl⟩,
    fun ⟨_, ha, hx⟩ => hx ▸ .cls ha⟩

lemma matches_cat {r s : Re α} {xs : List α} :
    Matches (.cat r s) xs ↔ ∃ u v, Matches r u ∧ Matches s v ∧ xs = u ++ v :=
  ⟨fun h => by cases h with | cat hu hv => exact ⟨_, _, hu, hv, rfl⟩,
    fun ⟨_, _, hu, hv, hx⟩ => hx ▸ .cat hu hv⟩

lemma matches_alt {r s : Re α} {xs : List α} :
    Matches (.alt r s) xs ↔ Matches r xs ∨ Matches s xs := by
  constructor
  · intro h
    cases h with
    | altL h => exact .inl h
    | altR h => exact .inr h
  · rintro (h | h)
    · exact .altL h
    · exact .altR h

/-- A non-empty word of `r*` starts with a non-empty word of `r`. -/
lemma matches_star_cons {r : Re α} {a : α} {xs : List α} :
    Matches (.star r) (a :: xs) ↔
      ∃ u v, Matches r (a :: u) ∧ Matches (.star r) v ∧ xs = u ++ v := by
  constructor
  · intro h
    generalize hs : Re.star r = s at h
    generalize hw : a :: xs = w at h
    induction h with
    | starNil => simp at hw
    | @starCons r' u v hu hv _ ih =>
        cases u with
        | nil => exact ih hs (by simpa using hw)
        | cons b u =>
            obtain ⟨rfl, rfl⟩ := List.cons.inj hw
            cases hs
            exact ⟨u, v, hu, hv, rfl⟩
    | _ => cases hs
  · rintro ⟨u, v, hu, hv, rfl⟩
    exact .starCons hu hv

/-- What holds of the letters of every word of `r` holds of those of `r*`. -/
lemma forall_mem_of_matches_star {r : Re α} {P : α → Prop} (hr : ∀ xs, Matches r xs → ∀ a ∈ xs, P a)
    {xs : List α} (h : Matches (.star r) xs) : ∀ a ∈ xs, P a := by
  generalize hs : Re.star r = s at h
  induction h with
  | starNil => simp
  | starCons hu _ _ ih =>
      cases hs
      intro a ha
      rcases List.mem_append.mp ha with ha | ha
      · exact hr _ hu a ha
      · exact ih rfl a ha
  | _ => cases hs

/-- The words of `p*` are those whose letters all belong to the class `p`. -/
lemma matches_star_cls {p : α → Bool} {xs : List α} :
    Matches (.star (.cls p)) xs ↔ ∀ a ∈ xs, p a = true := by
  induction xs with
  | nil => simpa using Matches.starNil
  | cons a xs ih =>
      rw [matches_star_cons, List.forall_mem_cons, ← ih]
      constructor
      · rintro ⟨u, v, hu, hv, rfl⟩
        obtain ⟨b, hb, hbu⟩ := matches_cls.mp hu
        obtain ⟨rfl, rfl⟩ := List.cons.inj hbu
        exact ⟨hb, hv⟩
      · rintro ⟨ha, hxs⟩
        exact ⟨[], xs, .cls ha, hxs, rfl⟩

/-! ### The matcher -/

/-- Whether an expression matches the empty word. -/
def nullable : Re α → Bool
  | never => false
  | empty => true
  | cls _ => false
  | cat r s => nullable r && nullable s
  | alt r s => nullable r || nullable s
  | star _ => true

/-- The derivative: what is left to match after the letter `a`. -/
def deriv (a : α) : Re α → Re α
  | never => never
  | empty => never
  | cls p => if p a then empty else never
  | cat r s => if nullable r then alt (cat (deriv a r) s) (deriv a s) else cat (deriv a r) s
  | alt r s => alt (deriv a r) (deriv a s)
  | star r => cat (deriv a r) (star r)

/-- Whether the expression matches the whole word (`regex_match`). -/
def test (r : Re α) : List α → Bool
  | [] => nullable r
  | a :: xs => test (deriv a r) xs

lemma nullable_iff (r : Re α) : nullable r = true ↔ Matches r [] := by
  induction r with
  | never => simp [nullable]
  | empty => simp [nullable]
  | cls p => simp [nullable, matches_cls]
  | cat r s ihr ihs => simp [nullable, ihr, ihs, matches_cat]
  | alt r s ihr ihs => simp [nullable, ihr, ihs, matches_alt]
  | star r _ => simpa [nullable] using Matches.starNil

lemma deriv_iff (r : Re α) (a : α) (xs : List α) :
    Matches (deriv a r) xs ↔ Matches r (a :: xs) := by
  induction r generalizing xs with
  | never => simp [deriv]
  | empty => simp [deriv]
  | cls p =>
      by_cases hp : p a
      · simp [deriv, hp, matches_cls]
      · simp [deriv, hp, matches_cls]
  | alt r s ihr ihs => simp [deriv, matches_alt, ihr, ihs]
  | star r ih => simp [deriv, matches_cat, matches_star_cons, ih]
  | cat r s ihr ihs =>
      -- the first letter falls in `r`, or `r` takes nothing and it falls in `s`
      have key : Matches (.cat r s) (a :: xs) ↔
          Matches (.cat (deriv a r) s) xs ∨ (Matches r [] ∧ Matches (deriv a s) xs) := by
        simp only [matches_cat, ihr, ihs]
        constructor
        · rintro ⟨u, v, hu, hv, hx⟩
          cases u with
          | nil => exact .inr ⟨hu, hx ▸ hv⟩
          | cons b u =>
              obtain ⟨rfl, rfl⟩ := List.cons.inj hx
              exact .inl ⟨u, v, hu, hv, rfl⟩
        · rintro (⟨u, v, hu, hv, rfl⟩ | ⟨hu, hv⟩)
          · exact ⟨a :: u, v, hu, hv, rfl⟩
          · exact ⟨[], a :: xs, hu, hv, rfl⟩
      rw [key, ← nullable_iff]
      by_cases hr : nullable r
      · simp [deriv, hr, matches_alt]
      · simp [deriv, hr]

/-- The matcher decides the language. -/
theorem test_iff (r : Re α) (xs : List α) : r.test xs = true ↔ Matches r xs := by
  induction xs generalizing r with
  | nil => exact nullable_iff r
  | cons a xs ih => rw [test, ih, deriv_iff]

/-! ### Bounded repetition -/

/-- At most `n` words of an expression, one after another. -/
def upTo (r : Re α) : ℕ → Re α
  | 0 => .empty
  | n + 1 => .alt .empty (.cat r (upTo r n))

/-- The words of `p{0,n}` are those of at most `n` letters of the class `p`. -/
lemma matches_upTo_cls {p : α → Bool} {n : ℕ} {xs : List α} :
    Matches (upTo (.cls p) n) xs ↔ xs.length ≤ n ∧ ∀ a ∈ xs, p a = true := by
  induction n generalizing xs with
  | zero => simp +contextual [upTo]
  | succ n ih =>
      rw [upTo, matches_alt, matches_empty, matches_cat]
      constructor
      · rintro (rfl | ⟨u, v, hu, hv, rfl⟩)
        · simp
        · obtain ⟨a, ha, rfl⟩ := matches_cls.mp hu
          obtain ⟨hlen, hall⟩ := ih.mp hv
          exact ⟨by simpa using hlen, by simpa [ha] using hall⟩
      · rintro ⟨hlen, hall⟩
        cases xs with
        | nil => exact .inl rfl
        | cons a xs =>
            obtain ⟨ha, hall⟩ := List.forall_mem_cons.mp hall
            exact .inr ⟨[a], xs, .cls ha, ih.mpr ⟨by simpa using hlen, hall⟩, rfl⟩

/-! ### Literal text -/

variable [DecidableEq α]

/-- The expression that matches the word `w` and nothing else. -/
def lit : List α → Re α
  | [] => .empty
  | a :: w => .cat (.cls (· = a)) (lit w)

@[simp] lemma matches_lit {w xs : List α} : Matches (lit w) xs ↔ xs = w := by
  induction w generalizing xs with
  | nil => simp [lit]
  | cons a w ih =>
      simp only [lit, matches_cat, matches_cls, ih, decide_eq_true_eq]
      constructor
      · rintro ⟨u, v, ⟨b, rfl, rfl⟩, rfl, rfl⟩
        rfl
      · rintro rfl
        exact ⟨[a], w, ⟨a, rfl, rfl⟩, rfl, rfl⟩

end Re

/-! ### The ECMAScript dot -/

/-- The line terminators of a narrow-character `std::regex`. -/
def isLineTerminator (c : Char) : Bool := c = '\n' || c = '\r'

/-- `.`: any character but a line terminator. -/
def dot : Re Char := .cls fun c => !isLineTerminator c

/-- `.*`. -/
def dotStar : Re Char := .star dot

lemma matches_dotStar {xs : List Char} :
    dotStar.Matches xs ↔ ∀ c ∈ xs, isLineTerminator c = false := by
  simp [dotStar, dot, Re.matches_star_cls]

end Regex
