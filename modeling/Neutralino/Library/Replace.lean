import Mathlib.Data.List.Infix
import Mathlib.Data.List.Count

/-!
`std::regex_replace` for an expression that is a literal text or a sequence of
character classes, with the ECMAScript format of its replacement.

* `format`: the text a replacement stands for at one match, its `$` sequences
  read (`format_eq_self`: a replacement without `$` stands for itself).
* `replaceAll`: every occurrence replaced, from left to right without overlap.
* `matchesAt`, `replaceClasses`: the same for a sequence of character classes;
  `replaceClasses_append` and `length_replaceClasses_append`: what removing
  leaves of a text that ends in a match.
* `replaceAll_eq_self`, `infix_replaceAll`, `infix_replaceAll_of_disjoint`,
  `count_replaceAll_le`: what a pass leaves, puts in and keeps.
-/

namespace Replace

/-- `match_results::format` for a match `m` without groups, between the text
`pre` since the last match and the rest `suf`. -/
def format (pre m suf : List Char) : List Char → List Char
  | [] => []
  | '$' :: '$' :: f => '$' :: format pre m suf f
  | '$' :: '&' :: f => m ++ format pre m suf f
  | '$' :: '`' :: f => pre ++ format pre m suf f
  | '$' :: '\'' :: f => suf ++ format pre m suf f
  | '$' :: c :: d :: f =>
      if c.isDigit then
        -- two digits name one group; only the group 0, the match, exists
        if d.isDigit then (if c = '0' ∧ d = '0' then m else []) ++ format pre m suf f
        else (if c = '0' then m else []) ++ format pre m suf (d :: f)
      else '$' :: format pre m suf (c :: d :: f)
  | ['$', c] => if c.isDigit then (if c = '0' then m else []) else ['$', c]
  | c :: f => c :: format pre m suf f

/-- A replacement without `$` stands for itself. -/
lemma format_eq_self {pre m suf f : List Char} (h : '$' ∉ f) : format pre m suf f = f := by
  induction f with
  | nil => rfl
  | cons c f ih =>
      obtain ⟨hc, hf⟩ : '$' ≠ c ∧ '$' ∉ f := by simpa using h
      rw [format, ih hf]
      all_goals
        intros
        exact absurd (Eq.symm ‹c = '$'›) hc

/-- The scan: the first argument counts the characters of a match still to skip. -/
def replaceFrom (needle fmt : List Char) : ℕ → List Char → List Char → List Char
  | _, _, [] => []
  | k + 1, pre, _ :: s => replaceFrom needle fmt k pre s
  | 0, pre, c :: s =>
      if needle.isPrefixOf (c :: s) then
        format pre needle ((c :: s).drop needle.length) fmt ++
          replaceFrom needle fmt (needle.length - 1) [] s
      else c :: replaceFrom needle fmt 0 (pre ++ [c]) s

/-- `regex_replace(s, regex(needle), fmt)` for a literal `needle`. -/
def replaceAll (needle fmt s : List Char) : List Char := replaceFrom needle fmt 0 [] s

section

variable {needle fmt : List Char}

/-- Without an occurrence the text is unchanged. -/
theorem replaceAll_eq_self {s : List Char} (h : ¬ needle <:+: s) : replaceAll needle fmt s = s := by
  have key : ∀ (s pre : List Char), ¬ needle <:+: s → replaceFrom needle fmt 0 pre s = s := by
    intro s
    induction s with
    | nil => intro pre _; rfl
    | cons c s ih =>
        intro pre h
        have hp : needle.isPrefixOf (c :: s) = false := by
          rw [Bool.eq_false_iff, Ne, List.isPrefixOf_iff_prefix]
          exact fun hp => h hp.isInfix
        have hs : ¬ needle <:+: s := fun hs => h (hs.trans (List.suffix_cons c s).isInfix)
        simp [replaceFrom, hp, ih _ hs]
  exact key s [] h

/-- An occurrence puts the replacement in. -/
theorem infix_replaceAll (hf : '$' ∉ fmt) (hn : needle ≠ []) {s : List Char} (h : needle <:+: s) :
    fmt <:+: replaceAll needle fmt s := by
  have key : ∀ (s pre : List Char), needle <:+: s → fmt <:+: replaceFrom needle fmt 0 pre s := by
    intro s
    induction s with
    | nil => intro pre h; exact absurd (List.infix_nil.mp h) hn
    | cons c s ih =>
        intro pre h
        by_cases hp : needle.isPrefixOf (c :: s)
        · rw [replaceFrom, if_pos hp, format_eq_self hf]
          exact (List.prefix_append _ _).isInfix
        · rw [replaceFrom, if_neg hp]
          have hs : needle <:+: s :=
            (List.infix_cons_iff.mp h).resolve_left (by rwa [List.isPrefixOf_iff_prefix] at hp)
          exact (ih _ hs).trans (List.suffix_cons _ _).isInfix
  exact key s [] h

/-- Text that shares no character with the needle is copied. -/
lemma replaceFrom_append_of_disjoint (hn : needle ≠ []) :
    ∀ (e : List Char), (∀ c ∈ e, c ∉ needle) → ∀ pre b,
      replaceFrom needle fmt 0 pre (e ++ b) = e ++ replaceFrom needle fmt 0 (pre ++ e) b
  | [], _, pre, b => by simp
  | c :: e, he, pre, b => by
      have hp : needle.isPrefixOf (c :: (e ++ b)) = false := by
        obtain ⟨d, w, rfl⟩ := List.exists_cons_of_ne_nil hn
        have : d ≠ c := fun h => he c (by simp) (by simp [h])
        simp [List.isPrefixOf, this]
      have ih := replaceFrom_append_of_disjoint hn e (fun c hc => he c (by simp [hc])) (pre ++ [c]) b
      simp [replaceFrom, hp, ih]

/-- A text that shares no character with the needle survives the pass. -/
theorem infix_replaceAll_of_disjoint (hn : needle ≠ []) {e s : List Char} (hne : e ≠ [])
    (he : ∀ c ∈ e, c ∉ needle) (h : e <:+: s) : e <:+: replaceAll needle fmt s := by
  -- no match reaches into `e`, so the skip count never exceeds what stands before it
  have key : ∀ (a b pre : List Char) (k : ℕ), k ≤ a.length →
      e <:+: replaceFrom needle fmt k pre (a ++ (e ++ b)) := by
    intro a b
    induction a with
    | nil =>
        intro pre k hk
        obtain rfl : k = 0 := by simpa using hk
        rw [List.nil_append, replaceFrom_append_of_disjoint hn e he]
        exact (List.prefix_append _ _).isInfix
    | cons c a ih =>
        intro pre k hk
        cases k with
        | succ k => exact ih _ k (by simpa using hk)
        | zero =>
            rw [List.cons_append]
            by_cases hp : needle.isPrefixOf (c :: (a ++ (e ++ b)))
            · rw [replaceFrom, if_pos hp]
              refine (ih _ _ ?_).trans (List.suffix_append _ _).isInfix
              by_contra hlong
              obtain ⟨d, e', rfl⟩ := List.exists_cons_of_ne_nil hne
              obtain ⟨r, hr⟩ := List.isPrefixOf_iff_prefix.mp hp
              have hget : (needle ++ r)[a.length + 1]? = some d := by rw [hr]; simp
              rw [List.getElem?_append_left (by omega)] at hget
              exact he d (by simp) (List.mem_of_getElem? hget)
            · rw [replaceFrom, if_neg hp]
              exact (ih _ 0 (Nat.zero_le _)).trans (List.suffix_cons _ _).isInfix
  obtain ⟨a, b, rfl⟩ := h
  rw [List.append_assoc]
  exact key a b [] 0 (Nat.zero_le _)

/-- A match that begins before a character the needle does not hold ends before it. -/
lemma prefix_of_prefix_append_cons {c : Char} (hc : c ∉ needle) {a b : List Char}
    (h : needle <+: a ++ c :: b) : needle <+: a := by
  rcases List.prefix_or_prefix_of_prefix h (List.prefix_append a (c :: b)) with hshort | ⟨u, rfl⟩
  · exact hshort
  · cases u with
    | nil => rw [List.append_nil]
    | cons d u =>
        obtain ⟨rfl, -⟩ := List.cons_prefix_cons.mp ((List.prefix_append_right_inj a).mp h)
        exact absurd (List.mem_append_right _ List.mem_cons_self) hc

/-- Where there is no occurrence before such a character, all up to it is copied. -/
theorem prefix_replaceAll {c : Char} (hn : needle ≠ []) (hc : c ∉ needle) {a : List Char}
    (h : ¬ needle <:+: a) (b : List Char) :
    ∃ b', replaceAll needle fmt (a ++ c :: b) = a ++ c :: b' := by
  have key : ∀ (a pre : List Char), ¬ needle <:+: a →
      ∃ b', replaceFrom needle fmt 0 pre (a ++ c :: b) = a ++ c :: b' := by
    intro a
    induction a with
    | nil =>
        intro pre _
        refine ⟨replaceFrom needle fmt 0 (pre ++ [c]) b, ?_⟩
        rw [List.nil_append, replaceFrom, if_neg]
        · rfl
        · intro hp
          exact hn (List.prefix_nil.mp (prefix_of_prefix_append_cons hc (List.isPrefixOf_iff_prefix.mp hp)))
    | cons d a ih =>
        intro pre h
        obtain ⟨b', hb⟩ := ih (pre ++ [d]) fun ha => h (ha.trans (List.suffix_cons d a).isInfix)
        refine ⟨b', ?_⟩
        rw [List.cons_append, replaceFrom, if_neg, hb, List.cons_append]
        intro hp
        exact h (prefix_of_prefix_append_cons hc (List.isPrefixOf_iff_prefix.mp hp)).isInfix
  exact key a [] h

/-- What stands before a match counts only for a replacement that names it. -/
lemma replaceFrom_pre (hf : '$' ∉ fmt) (s : List Char) :
    ∀ (k : ℕ) (pre pre' : List Char),
      replaceFrom needle fmt k pre s = replaceFrom needle fmt k pre' s := by
  induction s with
  | nil => intro k pre pre'; cases k <;> rfl
  | cons d s ih =>
      intro k pre pre'
      cases k with
      | succ k => exact ih k pre pre'
      | zero =>
          rw [replaceFrom, replaceFrom, format_eq_self hf, format_eq_self hf,
            ih 0 (pre ++ [d]) (pre' ++ [d])]

/-- At a character that the needle does not hold, a pass can be cut in two. -/
theorem replaceAll_append_cons {c : Char} (hf : '$' ∉ fmt) (hn : needle ≠ []) (hc : c ∉ needle)
    (a b : List Char) :
    replaceAll needle fmt (a ++ c :: b) = replaceAll needle fmt a ++ c :: replaceAll needle fmt b := by
  -- a match lies before the character, so the skip count never exceeds what stands before it
  have key : ∀ (a pre : List Char) (k : ℕ), k ≤ a.length →
      replaceFrom needle fmt k pre (a ++ c :: b) =
        replaceFrom needle fmt k pre a ++ c :: replaceAll needle fmt b := by
    intro a
    induction a with
    | nil =>
        intro pre k hk
        obtain rfl : k = 0 := by simpa using hk
        have hp : ¬ needle.isPrefixOf (c :: b) := fun hp =>
          hn (List.prefix_nil.mp (prefix_of_prefix_append_cons hc (List.isPrefixOf_iff_prefix.mp hp)))
        have hnil : replaceFrom needle fmt 0 pre [] = [] := rfl
        rw [hnil, List.nil_append, List.nil_append, replaceFrom, if_neg hp, replaceAll,
          replaceFrom_pre hf b 0 (pre ++ [c]) []]
    | cons d a ih =>
        intro pre k hk
        cases k with
        | succ k => exact ih pre k (by simpa using hk)
        | zero =>
            have hsame : needle.isPrefixOf (d :: (a ++ c :: b)) = needle.isPrefixOf (d :: a) := by
              rw [Bool.eq_iff_iff, List.isPrefixOf_iff_prefix, List.isPrefixOf_iff_prefix]
              exact ⟨fun hp => prefix_of_prefix_append_cons hc (a := d :: a) hp,
                fun hp => hp.trans (List.prefix_append (d :: a) _)⟩
            rw [List.cons_append, replaceFrom, replaceFrom, hsame, format_eq_self hf, format_eq_self hf]
            split_ifs with hp
            · have hlength := (List.isPrefixOf_iff_prefix.mp hp).length_le
              rw [List.length_cons] at hlength
              rw [ih [] _ (by omega), List.append_assoc]
            · rw [ih _ 0 (Nat.zero_le _), List.cons_append]
  exact key a [] 0 (Nat.zero_le _)

/-- A pass adds no character that the replacement does not hold. -/
theorem count_replaceAll_le {c : Char} (hf : '$' ∉ fmt) (hc : c ∉ fmt) (s : List Char) :
    (replaceAll needle fmt s).count c ≤ s.count c := by
  have key : ∀ (s : List Char) (k : ℕ) (pre : List Char),
      (replaceFrom needle fmt k pre s).count c ≤ s.count c := by
    intro s
    induction s with
    | nil => intro k pre; cases k <;> simp [replaceFrom]
    | cons d s ih =>
        intro k pre
        cases k with
        | succ k => exact (ih k pre).trans (List.count_le_count_cons)
        | zero =>
            by_cases hp : needle.isPrefixOf (d :: s)
            · rw [replaceFrom, if_pos hp, format_eq_self hf, List.count_append,
                List.count_eq_zero_of_not_mem hc, Nat.zero_add]
              exact (ih _ _).trans (List.count_le_count_cons)
            · rw [replaceFrom, if_neg hp, List.count_cons, List.count_cons]
              exact Nat.add_le_add_right (ih _ _) _
  exact key s 0 []

end

/-! ### Sequences of character classes -/

/-- A text begins with one character of each class. -/
def matchesAt : List (Char → Bool) → List Char → Bool
  | [], _ => true
  | p :: pat, c :: s => p c && matchesAt pat s
  | _ :: _, [] => false

/-- The scan: the number counts the characters of a match still to skip. -/
def replaceClassesFrom (pat : List (Char → Bool)) (fmt : List Char) :
    ℕ → List Char → List Char → List Char
  | _, _, [] => []
  | k + 1, pre, _ :: s => replaceClassesFrom pat fmt k pre s
  | 0, pre, c :: s =>
      if matchesAt pat (c :: s) then
        format pre ((c :: s).take pat.length) ((c :: s).drop pat.length) fmt ++
          replaceClassesFrom pat fmt (pat.length - 1) [] s
      else c :: replaceClassesFrom pat fmt 0 (pre ++ [c]) s

/-- `regex_replace` for a sequence of character classes. -/
def replaceClasses (pat : List (Char → Bool)) (fmt s : List Char) : List Char :=
  replaceClassesFrom pat fmt 0 [] s

section

variable {pat : List (Char → Bool)} {ext : List Char}

lemma replaceClassesFrom_skip (fmt pre m s : List Char) :
    replaceClassesFrom pat fmt m.length pre (m ++ s) = replaceClassesFrom pat fmt 0 pre s := by
  induction m with
  | nil => rfl
  | cons c m ih => simpa [replaceClassesFrom] using ih

/-- Removing takes a match away, and goes on after it. -/
lemma removeFrom_of_matchesAt {pre m s : List Char} (hm : m.length = pat.length) (hne : pat ≠ [])
    (h : matchesAt pat (m ++ s) = true) :
    replaceClassesFrom pat [] 0 pre (m ++ s) = replaceClassesFrom pat [] 0 [] s := by
  cases m with
  | nil => exact absurd (List.length_eq_zero_iff.mp hm.symm) hne
  | cons c m =>
      have hlen : pat.length - 1 = m.length := by simp [← hm]
      rw [List.cons_append] at h ⊢
      rw [replaceClassesFrom, if_pos h, hlen, replaceClassesFrom_skip]
      rfl

lemma replaceClassesFrom_keep {fmt pre s : List Char} {c : Char}
    (h : ¬ matchesAt pat (c :: s) = true) : replaceClassesFrom pat fmt 0 pre (c :: s) =
      c :: replaceClassesFrom pat fmt 0 (pre ++ [c]) s := by
  rw [replaceClassesFrom, if_neg h]

/-- A match that lies in a text takes its beginning away. -/
lemma removeFrom_of_matchesAt_append {pre s : List Char} (hne : pat ≠ [])
    (hlength : pat.length ≤ s.length) (h : matchesAt pat (s ++ ext) = true) :
    replaceClassesFrom pat [] 0 pre (s ++ ext) =
      replaceClassesFrom pat [] 0 [] (s.drop pat.length ++ ext) := by
  have htake : (s.take pat.length).length = pat.length := by
    rw [List.length_take, min_eq_left hlength]
  have hsplit := List.take_append_drop pat.length s
  conv_lhs => rw [← hsplit, List.append_assoc]
  refine removeFrom_of_matchesAt htake hne ?_
  rwa [← List.append_assoc, hsplit]

/-- **A text that ends in a match**, and has no other, loses its end. -/
theorem replaceClasses_append (hext : ext.length = pat.length) (hne : pat ≠ [])
    (hmatch : matchesAt pat ext = true) {s : List Char}
    (h : ∀ a b, s = a ++ b → b ≠ [] → matchesAt pat (b ++ ext) = false) :
    replaceClasses pat [] (s ++ ext) = s := by
  have key : ∀ (s pre : List Char),
      (∀ a b, s = a ++ b → b ≠ [] → matchesAt pat (b ++ ext) = false) →
      replaceClassesFrom pat [] 0 pre (s ++ ext) = s := by
    intro s
    induction s with
    | nil =>
        intro pre _
        have hremove := @removeFrom_of_matchesAt pat pre ext [] hext hne (by simpa using hmatch)
        simpa [replaceClassesFrom] using hremove
    | cons c s ih =>
        intro pre h
        have hhead : matchesAt pat (c :: (s ++ ext)) = false := h [] (c :: s) rfl (by simp)
        rw [List.cons_append, replaceClassesFrom_keep (by simp [hhead])]
        rw [ih _ fun a b hs hb => h (c :: a) b (by simp [hs]) hb]
  exact key s [] h

/-- A text that ends in a match loses at least its end, and more where a match
begins before it; no match is to reach from the text into its end. -/
theorem length_replaceClasses_append (hext : ext.length = pat.length) (hne : pat ≠ [])
    (hmatch : matchesAt pat ext = true)
    (hcross : ∀ b, b ≠ [] → matchesAt pat (b ++ ext) = true → pat.length ≤ b.length) (s : List Char) :
    (replaceClasses pat [] (s ++ ext)).length ≤ s.length ∧
      ((∃ a b, s = a ++ b ∧ b ≠ [] ∧ matchesAt pat (b ++ ext) = true) →
        (replaceClasses pat [] (s ++ ext)).length < s.length) := by
  have key : ∀ (n : ℕ) (s pre : List Char), s.length = n →
      (replaceClassesFrom pat [] 0 pre (s ++ ext)).length ≤ s.length ∧
        ((∃ a b, s = a ++ b ∧ b ≠ [] ∧ matchesAt pat (b ++ ext) = true) →
          (replaceClassesFrom pat [] 0 pre (s ++ ext)).length < s.length) := by
    intro n
    induction n using Nat.strong_induction_on with
    | _ n ih =>
        intro s pre hn
        have hpos : 0 < pat.length := List.length_pos_iff.mpr hne
        cases s with
        | nil =>
            have hremove := @removeFrom_of_matchesAt pat pre ext [] hext hne (by simpa using hmatch)
            rw [List.append_nil] at hremove
            rw [List.nil_append, hremove]
            refine ⟨by simp [replaceClassesFrom], ?_⟩
            rintro ⟨a, b, hs, hb, -⟩
            exact absurd (List.append_eq_nil_iff.mp hs.symm).2 hb
        | cons c s =>
            by_cases hhead : matchesAt pat ((c :: s) ++ ext) = true
            · -- the match lies in the text, and the scan goes on after it
              have hlength := hcross (c :: s) (by simp) hhead
              have hdrop : ((c :: s).drop pat.length).length = (c :: s).length - pat.length :=
                List.length_drop
              have hrest := (ih _ (by omega) ((c :: s).drop pat.length) [] rfl).1
              rw [removeFrom_of_matchesAt_append hne hlength hhead]
              exact ⟨by omega, fun _ => by omega⟩
            · have hstep : replaceClassesFrom pat [] 0 pre (c :: s ++ ext) =
                  c :: replaceClassesFrom pat [] 0 (pre ++ [c]) (s ++ ext) :=
                replaceClassesFrom_keep hhead
              obtain ⟨hle, hlt⟩ := ih s.length (by simp [← hn]) s (pre ++ [c]) rfl
              rw [hstep]
              refine ⟨by simpa using hle, ?_⟩
              rintro ⟨a, b, hs, hb, hm⟩
              cases a with
              | nil =>
                  obtain rfl : c :: s = b := hs
                  exact absurd hm hhead
              | cons d a =>
                  obtain ⟨-, rfl⟩ := List.cons.inj hs
                  simpa using hlt ⟨a, b, rfl, hb, hm⟩
  exact key s.length s [] rfl

end

end Replace
