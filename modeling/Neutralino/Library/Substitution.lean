import Neutralino.Library.Replace

/-!
Keys of a text replaced by their values, all at once and one after another.

* `Piece`, `pieces`: a text read as characters and keys; `render` writes the pieces
  with a text for each key (`render_pieces`).
* `occurrences`: at how many places of a text a key begins.
* `isLiteral`: the replacements in which `regex_replace` reads no `$` sequence.
* `NestFree`: no key is found in a text written so far but where the text has it.
* `foldl_replaceAll`: **passes one after another replace the keys all at once** where
  the values are literal and no key is found nested.
-/

namespace Replace

/-! ### Pieces -/

/-- A piece of a text: a character, or the key of an entry. -/
inductive Piece (ι : Type*) where
  | char (c : Char)
  | key (i : ι)
  deriving DecidableEq

section Pieces

variable {ι : Type*} (entries : List ι) (key : ι → List Char)

/-- The scan: the number counts the characters of a key still to skip. -/
def piecesFrom : ℕ → List Char → List (Piece ι)
  | _, [] => []
  | k + 1, _ :: s => piecesFrom k s
  | 0, c :: s =>
      match entries.find? fun i => (key i).isPrefixOf (c :: s) with
      | some i => .key i :: piecesFrom ((key i).length - 1) s
      | none => .char c :: piecesFrom 0 s

/-- A text as its pieces, the keys of the entries found from left to right. -/
def pieces (s : List Char) : List (Piece ι) := piecesFrom entries key 0 s

/-- The text of a piece, for a text of each key. -/
def Piece.text (f : ι → List Char) : Piece ι → List Char
  | .char c => [c]
  | .key i => f i

/-- The text of pieces. -/
def render (f : ι → List Char) (ps : List (Piece ι)) : List Char := ps.flatMap (Piece.text f)

@[simp] lemma render_nil (f : ι → List Char) : render f [] = [] := rfl

@[simp] lemma render_char (f : ι → List Char) (c : Char) (ps : List (Piece ι)) :
    render f (.char c :: ps) = c :: render f ps := rfl

@[simp] lemma render_key (f : ι → List Char) (i : ι) (ps : List (Piece ι)) :
    render f (.key i :: ps) = f i ++ render f ps := rfl

lemma render_cons (f : ι → List Char) (p : Piece ι) (ps : List (Piece ι)) :
    render f (p :: ps) = p.text f ++ render f ps := rfl

variable {entries key}

lemma render_piecesFrom (hne : ∀ i ∈ entries, key i ≠ []) (k : ℕ) (s : List Char) :
    render key (piecesFrom entries key k s) = s.drop k := by
  induction s generalizing k with
  | nil => cases k <;> rfl
  | cons c s ih =>
      cases k with
      | succ k => exact ih k
      | zero =>
          rw [piecesFrom]
          cases hfind : entries.find? fun i => (key i).isPrefixOf (c :: s) with
          | none => simp [ih]
          | some i =>
              have hkey := hne i (List.mem_of_find?_eq_some hfind)
              have hmatch : (key i).isPrefixOf (c :: s) = true := by
                simpa using List.find?_some hfind
              have hlength : 0 < (key i).length := List.length_pos_iff.mpr hkey
              obtain ⟨rest, hrest⟩ := List.isPrefixOf_iff_prefix.mp hmatch
              have hdrop : s.drop ((key i).length - 1) = rest := by
                calc s.drop ((key i).length - 1)
                    = (c :: s).drop ((key i).length - 1 + 1) := rfl
                  _ = (key i ++ rest).drop (key i).length := by
                      rw [hrest, Nat.sub_add_cancel hlength]
                  _ = rest := List.drop_left
              simp only [render_key, ih, hdrop, List.drop_zero]
              exact hrest

/-- The pieces of a text with their keys are the text. -/
theorem render_pieces (hne : ∀ i ∈ entries, key i ≠ []) (s : List Char) :
    render key (pieces entries key s) = s := render_piecesFrom hne 0 s

/-- The keys in the pieces of a text are those of entries. -/
lemma mem_of_key_mem_piecesFrom {k : ℕ} {s : List Char} {i : ι}
    (h : .key i ∈ piecesFrom entries key k s) : i ∈ entries := by
  induction s generalizing k with
  | nil => cases k <;> cases h
  | cons c s ih =>
      cases k with
      | succ k => exact ih h
      | zero =>
          rw [piecesFrom] at h
          cases hfind : entries.find? fun i => (key i).isPrefixOf (c :: s) with
          | none =>
              simp only [hfind, List.mem_cons, reduceCtorEq, false_or] at h
              exact ih h
          | some j =>
              simp only [hfind, List.mem_cons, Piece.key.injEq] at h
              rcases h with rfl | h
              · exact List.mem_of_find?_eq_some hfind
              · exact ih h

lemma mem_of_key_mem_pieces {s : List Char} {i : ι} (h : .key i ∈ pieces entries key s) :
    i ∈ entries := mem_of_key_mem_piecesFrom h

/-- Pieces come out alike where their keys have the same texts. -/
lemma render_congr {f g : ι → List Char} {ps : List (Piece ι)}
    (h : ∀ i, .key i ∈ ps → f i = g i) : render f ps = render g ps := by
  refine List.flatMap_congr fun p hp => ?_
  cases p with
  | char c => rfl
  | key i => exact h i hp

end Pieces

/-! ### Occurrences -/

/-- At how many places of a text the needle begins. -/
def occurrences (needle : List Char) : List Char → ℕ
  | [] => 0
  | c :: s => (if needle.isPrefixOf (c :: s) then 1 else 0) + occurrences needle s

section Occurrences

variable {needle fmt : List Char}

lemma occurrences_le_append (needle e s : List Char) :
    occurrences needle s ≤ occurrences needle (e ++ s) := by
  induction e with
  | nil => exact Nat.le_refl _
  | cons c e ih => exact ih.trans (Nat.le_add_left _ _)

lemma occurrences_needle_append (hne : needle ≠ []) (s : List Char) :
    occurrences needle s + 1 ≤ occurrences needle (needle ++ s) := by
  obtain ⟨c, rest, rfl⟩ := List.exists_cons_of_ne_nil hne
  have hmatch : (c :: rest).isPrefixOf (c :: (rest ++ s)) = true :=
    List.isPrefixOf_iff_prefix.mpr (List.prefix_append _ _)
  rw [List.cons_append, occurrences, if_pos hmatch]
  have := occurrences_le_append (c :: rest) rest s
  omega

/-- A text in which no match begins is copied. -/
lemma replaceFrom_append_of_occurrences {e s : List Char}
    (h : occurrences needle (e ++ s) = occurrences needle s) (pre : List Char) :
    replaceFrom needle fmt 0 pre (e ++ s) = e ++ replaceFrom needle fmt 0 (pre ++ e) s := by
  induction e generalizing pre with
  | nil => simp
  | cons c e ih =>
      rw [List.cons_append, occurrences] at h
      have hle := occurrences_le_append needle e s
      have hmatch : ¬ needle.isPrefixOf (c :: (e ++ s)) = true := by
        intro hmatch
        rw [if_pos hmatch] at h
        omega
      rw [if_neg hmatch, Nat.zero_add] at h
      rw [List.cons_append, replaceFrom, if_neg hmatch, ih h, List.append_assoc]
      rfl

lemma replaceFrom_skip (pre m s : List Char) :
    replaceFrom needle fmt m.length pre (m ++ s) = replaceFrom needle fmt 0 pre s := by
  induction m with
  | nil => rfl
  | cons c m ih => exact ih

lemma replaceFrom_needle (hne : needle ≠ []) (pre s : List Char) :
    replaceFrom needle fmt 0 pre (needle ++ s) =
      format pre needle s fmt ++ replaceFrom needle fmt 0 [] s := by
  obtain ⟨c, rest, rfl⟩ := List.exists_cons_of_ne_nil hne
  have hmatch : (c :: rest).isPrefixOf (c :: (rest ++ s)) = true :=
    List.isPrefixOf_iff_prefix.mpr (List.prefix_append _ _)
  rw [List.cons_append, replaceFrom, if_pos hmatch]
  congr 1
  · simp
  · exact replaceFrom_skip [] rest s

end Occurrences

/-! ### Literal replacements -/

/-- The characters that are read together with a `$` before them. -/
def endsSequence (c : Char) : Bool :=
  c = '$' || c = '&' || c = '`' || c = '\'' || c.isDigit

/-- No `$` of the replacement begins a sequence that `format` reads. -/
def isLiteral : List Char → Bool
  | [] => true
  | c :: f => !(c = '$' && f.head?.any endsSequence) && isLiteral f

lemma isLiteral_of_cons {c : Char} {f : List Char} (h : isLiteral (c :: f) = true) :
    isLiteral f = true := by
  rw [isLiteral, Bool.and_eq_true] at h
  exact h.2

lemma not_isLiteral {c : Char} (h : endsSequence c = true) (f : List Char) :
    isLiteral ('$' :: c :: f) = false := by
  simp [isLiteral, h]

/-- A literal replacement stands for itself. -/
lemma format_of_isLiteral {pre m suf f : List Char} (h : isLiteral f = true) :
    format pre m suf f = f := by
  have hnot : ∀ (c : Char) (s : List Char), endsSequence c = true →
      isLiteral ('$' :: c :: s) ≠ true := fun c s hc => by simp [not_isLiteral hc]
  fun_induction format pre m suf f with
  | case1 => rfl
  | case2 => exact absurd h (hnot _ _ rfl)
  | case3 => exact absurd h (hnot _ _ rfl)
  | case4 => exact absurd h (hnot _ _ rfl)
  | case5 => exact absurd h (hnot _ _ rfl)
  | case6 c d f _ _ _ _ hc => exact absurd h (hnot _ _ (by simp [endsSequence, hc]))
  | case7 c d f _ _ _ _ hc => exact absurd h (hnot _ _ (by simp [endsSequence, hc]))
  | case8 c d f _ _ _ _ _ ih => rw [ih (isLiteral_of_cons h)]
  | case9 => exact absurd h (hnot _ _ rfl)
  | case10 c _ _ _ _ hc => exact absurd h (hnot _ _ (by simp [endsSequence, hc]))
  | case11 => rfl
  | case12 c f _ _ _ _ _ _ ih => rw [ih (isLiteral_of_cons h)]

section Texts

variable {ι : Type*} {i : ι}

/-! ### Another text for one key -/

section OneKey

variable {f g : ι → List Char} (hother : ∀ j, j ≠ i → f j = g j)

include hother

lemma text_eq {p : Piece ι} (hp : p ≠ .key i) : p.text f = p.text g := by
  cases p with
  | char c => rfl
  | key j => exact hother j fun hj => hp (congrArg Piece.key hj)

variable [DecidableEq ι]

lemma length_render_add (ps : List (Piece ι)) :
    (render f ps).length + ps.count (.key i) * (g i).length =
      (render g ps).length + ps.count (.key i) * (f i).length := by
  induction ps with
  | nil => simp
  | cons p ps ih =>
      rw [render_cons, render_cons, List.length_append, List.length_append]
      by_cases hp : p = .key i
      · subst hp
        rw [List.count_cons_self, Nat.succ_mul, Nat.succ_mul]
        simp only [Piece.text]
        omega
      · rw [List.count_cons_of_ne (hp), text_eq hother hp]
        omega

/-- The pieces come out as the same text exactly when the key is none of them or has
the same text. -/
theorem render_eq_iff (ps : List (Piece ι)) :
    render f ps = render g ps ↔ .key i ∉ ps ∨ f i = g i := by
  constructor
  · intro h
    refine or_iff_not_imp_left.mpr fun hmem => ?_
    rw [not_not] at hmem
    have hlength : (f i).length = (g i).length := by
      have hadd := length_render_add hother ps
      rw [h, Nat.add_left_cancel_iff] at hadd
      exact (Nat.eq_of_mul_eq_mul_left (List.count_pos_iff.mpr hmem) hadd).symm
    induction ps with
    | nil => cases hmem
    | cons p ps ih =>
        rw [render_cons, render_cons] at h
        by_cases hp : p = .key i
        · subst hp
          exact (List.append_inj h hlength).1
        · rw [text_eq hother hp] at h
          exact ih (List.append_cancel_left h)
            ((List.mem_cons.mp hmem).resolve_left (Ne.symm hp))
  · rintro (hmem | heq)
    · refine render_congr fun j hj => hother j ?_
      rintro rfl
      exact hmem hj
    · refine render_congr fun j _ => ?_
      by_cases hj : j = i
      · rw [hj, heq]
      · exact hother j hj

end OneKey

/-! ### One pass -/

section Passes

variable [DecidableEq ι] {key value : ι → List Char}

/-- Every key of the pieces begins where it stands. -/
lemma count_le_occurrences {f : ι → List Char} (hkey : f i = key i) (hne : key i ≠ [])
    (ps : List (Piece ι)) : ps.count (.key i) ≤ occurrences (key i) (render f ps) := by
  induction ps with
  | nil => exact Nat.zero_le _
  | cons p ps ih =>
      by_cases hp : p = .key i
      · subst hp
        rw [List.count_cons_self, render_key, hkey]
        exact (Nat.add_le_add_right ih 1).trans (occurrences_needle_append hne _)
      · rw [List.count_cons_of_ne (hp)]
        exact ih.trans (occurrences_le_append _ (p.text f) _)

/-- A pass replaces the key of `i` in the pieces, if it is found nowhere else. -/
lemma replaceFrom_render {f g : ι → List Char} (hkey : f i = key i) (hne : key i ≠ [])
    (hvalue : g i = value i) (hother : ∀ j, j ≠ i → g j = f j) {ps : List (Piece ι)}
    (hliteral : .key i ∈ ps → isLiteral (value i) = true)
    (hcount : occurrences (key i) (render f ps) = ps.count (.key i)) (pre : List Char) :
    replaceFrom (key i) (value i) 0 pre (render f ps) = render g ps := by
  induction ps generalizing pre with
  | nil => rfl
  | cons p ps ih =>
      have hps : .key i ∈ ps → isLiteral (value i) = true :=
        fun h => hliteral (List.mem_cons_of_mem _ h)
      have hle := count_le_occurrences hkey hne ps
      by_cases hp : p = .key i
      · subst hp
        rw [render_key, hkey, List.count_cons_self] at hcount
        have hneedle := occurrences_needle_append hne (render f ps)
        rw [render_key, render_key, hkey, hvalue, replaceFrom_needle hne,
          format_of_isLiteral (hliteral List.mem_cons_self), ih hps (by omega)]
      · rw [render_cons, List.count_cons_of_ne (hp)] at hcount
        have happend := occurrences_le_append (key i) (p.text f) (render f ps)
        rw [render_cons, render_cons, text_eq hother hp,
          replaceFrom_append_of_occurrences (by omega), ih hps (by omega)]

/-! ### One pass after another -/

variable (key value)

/-- The texts of the keys when some of them are replaced. -/
def partly (done : List ι) (i : ι) : List Char := if i ∈ done then value i else key i

/-- Each key, in turn, is found in the text written so far only where it is one of
the pieces. -/
def NestFree (ps : List (Piece ι)) : List ι → List ι → Prop
  | _, [] => True
  | done, i :: todo =>
      occurrences (key i) (render (partly key value done) ps) = ps.count (.key i) ∧
        NestFree ps (done ++ [i]) todo

instance NestFree.decide (ps : List (Piece ι)) :
    ∀ done todo, Decidable (NestFree key value ps done todo)
  | _, [] => isTrue trivial
  | done, i :: todo =>
      have := NestFree.decide ps (done ++ [i]) todo
      inferInstanceAs (Decidable (_ ∧ _))

variable {key value}

/-- **Passes one after another replace the keys all at once**, where the values are
literal and no key is found nested. -/
theorem foldl_replaceAll {ps : List (Piece ι)} {done todo : List ι} (hne : ∀ i ∈ todo, key i ≠ [])
    (hnodup : (done ++ todo).Nodup)
    (hliteral : ∀ i ∈ todo, .key i ∈ ps → isLiteral (value i) = true)
    (hnest : NestFree key value ps done todo) :
    todo.foldl (fun s i => replaceAll (key i) (value i) s) (render (partly key value done) ps) =
      render (partly key value (done ++ todo)) ps := by
  induction todo generalizing done with
  | nil => simp
  | cons i todo ih =>
      have hi : i ∉ done := fun hi =>
        (List.nodup_append.mp hnodup).2.2 _ hi _ List.mem_cons_self rfl
      have hother : ∀ j, j ≠ i →
          partly key value (done ++ [i]) j = partly key value done j := fun j hj => by
        simp [partly, hj]
      have hpass : replaceAll (key i) (value i) (render (partly key value done) ps) =
          render (partly key value (done ++ [i])) ps :=
        replaceFrom_render (by simp [partly, hi]) (hne i List.mem_cons_self) (by simp [partly])
          hother (hliteral i List.mem_cons_self) hnest.1 []
      rw [List.append_cons] at hnodup ⊢
      rw [List.foldl_cons, hpass]
      exact ih (fun j hj => hne j (List.mem_cons_of_mem _ hj)) hnodup
        (fun j hj => hliteral j (List.mem_cons_of_mem _ hj)) hnest.2

end Passes

end Texts

end Replace
