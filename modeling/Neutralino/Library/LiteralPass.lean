import Neutralino.Library.Substitution

/-!
One pass of `regex_replace` against the literal replacement of its needle.

* `substitute`: every occurrence of the needle replaced by a text as it stands.
* `count_format_add_le`: each `$` sequence that `format` reads costs a `$`.
* `replaceAll_eq_substitute_iff`: **when a pass is literal**: in a text without `$`,
  exactly when the needle does not occur or the replacement is literal.
* `cut`, `between`: a text around its first occurrence, and what another text has in
  that place; `between_substitute` reads back what was put in.
-/

namespace Replace

/-- Every occurrence of the needle replaced by a text as it stands. -/
def substitute (needle fmt s : List Char) : List Char :=
  render (fun _ : Unit => fmt) (pieces [()] (fun _ => needle) s)

section Scan

variable {needle : List Char} {c : Char} {s : List Char}

lemma piecesFrom_of_match (h : needle.isPrefixOf (c :: s) = true) :
    piecesFrom [()] (fun _ => needle) 0 (c :: s) =
      .key () :: piecesFrom [()] (fun _ => needle) (needle.length - 1) s := by
  simp [piecesFrom, h]

lemma piecesFrom_of_not_match (h : ¬ needle.isPrefixOf (c :: s) = true) :
    piecesFrom [()] (fun _ => needle) 0 (c :: s) =
      .char c :: piecesFrom [()] (fun _ => needle) 0 s := by
  simp [piecesFrom, h]

/-- The needle is a piece of the texts in which it occurs. -/
lemma key_mem_pieces_iff (hne : needle ≠ []) :
    .key () ∈ pieces [()] (fun _ => needle) s ↔ needle <:+: s := by
  have key : ∀ s, .key () ∈ piecesFrom [()] (fun _ => needle) 0 s ↔ needle <:+: s := by
    intro s
    induction s with
    | nil => simp [piecesFrom, hne]
    | cons c s ih =>
        rw [List.infix_cons_iff]
        by_cases h : needle.isPrefixOf (c :: s) = true
        · rw [piecesFrom_of_match h]
          simp [List.isPrefixOf_iff_prefix.mp h]
        · rw [piecesFrom_of_not_match h]
          simpa [ih] using fun hprefix => absurd (List.isPrefixOf_iff_prefix.mpr hprefix) h
  exact key s

end Scan

/-! ### What a format costs -/

section Format

/-- The `$` that a replacement loses at least. -/
def lost (f : List Char) : ℕ := if isLiteral f = true then 0 else 1

lemma lost_le (f : List Char) : lost f ≤ 1 := by
  rw [lost]
  split_ifs <;> omega

lemma lost_of_not_isLiteral {f : List Char} (h : ¬ isLiteral f = true) : lost f = 1 := if_neg h

/-- A `$` that begins no sequence is not lost. -/
lemma lost_cons {c : Char} {f : List Char} (h : c = '$' → f.head?.any endsSequence = false) :
    lost (c :: f) = lost f := by
  have hliteral : isLiteral (c :: f) = isLiteral f := by
    by_cases hc : c = '$'
    · simp [isLiteral, hc, h hc]
    · simp [isLiteral, hc]
  rw [lost, lost, hliteral]

variable {pre m suf : List Char}

lemma endsSequence_eq_false {c : Char} (hdollar : c ≠ '$') (hamp : c ≠ '&') (hback : c ≠ '`')
    (hquote : c ≠ '\'') (hdigit : ¬ c.isDigit = true) : endsSequence c = false := by
  simp [endsSequence, hdollar, hamp, hback, hquote, hdigit]

/-- **A `$` sequence that is read costs a `$`**, where the texts it may stand for
have none. -/
lemma count_format_add_le (hpre : '$' ∉ pre) (hm : '$' ∉ m) (hsuf : '$' ∉ suf) (f : List Char) :
    (format pre m suf f).count '$' + lost f ≤ f.count '$' := by
  have hzero : ∀ {t : List Char}, '$' ∉ t → t.count '$' = 0 := List.count_eq_zero_of_not_mem
  have hgroup : ∀ (P : Prop) [Decidable P], (if P then m else []).count '$' = 0 := fun P _ => by
    split_ifs
    · exact hzero hm
    · rfl
  have hkept : ∀ {c : Char} {t f : List Char}, (c = '$' → f.head?.any endsSequence = false) →
      t.count '$' + lost f ≤ f.count '$' →
      (c :: t).count '$' + lost (c :: f) ≤ (c :: f).count '$' := fun {c t f} hc h => by
    rw [lost_cons hc, List.count_cons, List.count_cons]
    omega
  have hread : ∀ {c : Char} {t f : List Char}, t.count '$' ≤ (c :: f).count '$' →
      t.count '$' + lost ('$' :: c :: f) ≤ ('$' :: c :: f).count '$' := fun {c t f} h => by
    have := lost_le ('$' :: c :: f)
    rw [List.count_cons_self]
    omega
  fun_induction format pre m suf f with
  | case1 => exact Nat.le_refl _
  | case2 f ih =>
      refine hread ?_
      rw [List.count_cons_self, List.count_cons_self]
      omega
  | case3 f ih =>
      refine hread ?_
      rw [List.count_append, hzero hm, List.count_cons_of_ne (by decide)]
      omega
  | case4 f ih =>
      refine hread ?_
      rw [List.count_append, hzero hpre, List.count_cons_of_ne (by decide)]
      omega
  | case5 f ih =>
      refine hread ?_
      rw [List.count_append, hzero hsuf, List.count_cons_of_ne (by decide)]
      omega
  | case6 c d f _ _ _ _ _ _ ih =>
      refine hread ?_
      rw [List.count_append, hgroup, List.count_cons, List.count_cons]
      omega
  | case7 c d f _ _ _ _ _ _ ih =>
      refine hread ?_
      rw [List.count_append, hgroup, List.count_cons]
      omega
  | case8 c d f h₁ h₂ h₃ h₄ hdigit ih =>
      exact hkept (fun _ => endsSequence_eq_false h₁ h₂ h₃ h₄ hdigit) ih
  | case9 => exact hread (by rw [hzero hm]; exact Nat.zero_le _)
  | case10 => exact hread (Nat.zero_le _)
  | case11 c h₁ h₂ h₃ h₄ hdigit =>
      have hplain := endsSequence_eq_false h₁ h₂ h₃ h₄ hdigit
      exact hkept (fun _ => hplain) (hkept (fun _ => rfl) (Nat.le_refl 0))
  | case12 c f h₁ h₂ h₃ h₄ h₅ h₆ ih =>
      refine hkept (fun hc => ?_) ih
      rcases f with _ | ⟨d, _ | ⟨e, f⟩⟩
      · rfl
      · exact absurd rfl (h₆ d hc)
      · exact absurd rfl (h₅ d e f hc)

end Format

/-! ### One pass -/

section Pass

variable {needle fmt : List Char}

/-- A literal format is put in as it stands. -/
lemma replaceFrom_of_isLiteral (h : isLiteral fmt = true) (k : ℕ) (pre s : List Char) :
    replaceFrom needle fmt k pre s =
      render (fun _ => fmt) (piecesFrom [()] (fun _ => needle) k s) := by
  induction s generalizing k pre with
  | nil => cases k <;> rfl
  | cons c s ih =>
      cases k with
      | succ k => exact ih k pre
      | zero =>
          by_cases hmatch : needle.isPrefixOf (c :: s) = true
          · rw [replaceFrom, if_pos hmatch, piecesFrom_of_match hmatch, render_key, ih,
              format_of_isLiteral h]
          · rw [replaceFrom, if_neg hmatch, piecesFrom_of_not_match hmatch, render_char, ih]

/-- Another format loses a `$` at every occurrence. -/
lemma count_replaceFrom_add_le (hneedle : '$' ∉ needle) {s : List Char} (hs : '$' ∉ s) (k : ℕ)
    {pre : List Char} (hpre : '$' ∉ pre) :
    (replaceFrom needle fmt k pre s).count '$' +
        (piecesFrom [()] (fun _ => needle) k s).count (.key ()) * lost fmt ≤
      (render (fun _ => fmt) (piecesFrom [()] (fun _ => needle) k s)).count '$' := by
  induction s generalizing k pre with
  | nil => cases k <;> simp [replaceFrom, piecesFrom]
  | cons c s ih =>
      obtain ⟨hc, hs⟩ := not_or.mp (mt List.mem_cons.mpr hs)
      cases k with
      | succ k => exact ih hs k hpre
      | zero =>
          by_cases hmatch : needle.isPrefixOf (c :: s) = true
          · have hsuf : '$' ∉ (c :: s).drop needle.length := fun h =>
              (List.mem_cons.mp (List.mem_of_mem_drop h)).elim hc hs
            have hcost := count_format_add_le hpre hneedle hsuf fmt
            have hnil : '$' ∉ ([] : List Char) := List.not_mem_nil
            have hrest := ih hs (needle.length - 1) hnil
            rw [replaceFrom, if_pos hmatch, piecesFrom_of_match hmatch, render_key,
              List.count_append, List.count_append, List.count_cons_self, Nat.succ_mul]
            omega
          · have hpre' : '$' ∉ pre ++ [c] := by simp [hpre, hc]
            have hrest := ih hs 0 hpre'
            rw [replaceFrom, if_neg hmatch, piecesFrom_of_not_match hmatch, render_char,
              List.count_cons_of_ne (Ne.symm hc), List.count_cons_of_ne (Ne.symm hc),
              List.count_cons_of_ne (by simp)]
            exact hrest

/-- **When a pass is literal**: in a text without `$`, exactly when the needle does
not occur or the replacement is literal. -/
theorem replaceAll_eq_substitute_iff (hne : needle ≠ []) (hneedle : '$' ∉ needle) {s : List Char}
    (hs : '$' ∉ s) :
    replaceAll needle fmt s = substitute needle fmt s ↔
      ¬ needle <:+: s ∨ isLiteral fmt = true := by
  constructor
  · intro h
    refine or_iff_not_imp_left.mpr fun hoccurs => ?_
    rw [not_not, ← key_mem_pieces_iff hne] at hoccurs
    by_contra hliteral
    have hcount : (replaceFrom needle fmt 0 [] s).count '$' + _ ≤ _ :=
      count_replaceFrom_add_le hneedle hs 0 List.not_mem_nil
    have hpos := List.count_pos_iff.mpr hoccurs
    rw [replaceAll, substitute, pieces] at h
    rw [h, lost_of_not_isLiteral hliteral, Nat.mul_one] at hcount
    rw [pieces] at hpos
    omega
  · rintro (hoccurs | hliteral)
    · have hkey := fun i : Unit => (key_mem_pieces_iff (s := s) hne).not.mpr hoccurs
      rw [replaceAll_eq_self hoccurs, substitute,
        render_congr fun i hi => absurd hi (hkey i), render_pieces (fun _ _ => hne)]
    · exact replaceFrom_of_isLiteral hliteral 0 [] s

end Pass

/-! ### Reading back -/

/-- The text before the first occurrence of the needle, and the text after it. -/
def cut (needle : List Char) : List Char → Option (List Char × List Char)
  | [] => none
  | c :: s =>
      if needle.isPrefixOf (c :: s) then some ([], (c :: s).drop needle.length)
      else (cut needle s).map fun parts => (c :: parts.1, parts.2)

/-- What a text has between two others, if it begins and ends with them. -/
def between (before after s : List Char) : Option (List Char) :=
  let middle := (s.drop before.length).take (s.length - before.length - after.length)
  if before ++ middle ++ after = s then some middle else none

lemma between_eq_some_iff {before after s x : List Char} :
    between before after s = some x ↔ s = before ++ x ++ after := by
  have hmiddle : ∀ x : List Char, ((before ++ x ++ after).drop before.length).take
      ((before ++ x ++ after).length - before.length - after.length) = x := fun x => by
    rw [List.append_assoc, List.drop_left, List.length_append, List.length_append]
    exact List.take_left' (by omega)
  constructor
  · intro h
    unfold between at h
    extract_lets middle at h
    split_ifs at h with heq
    rw [← Option.some.inj h, heq]
  · rintro rfl
    unfold between
    rw [hmiddle, if_pos rfl]

section Cut

variable {needle fmt s before after : List Char}

lemma isSome_cut_iff (hne : needle ≠ []) : (cut needle s).isSome = true ↔ needle <:+: s := by
  induction s with
  | nil => simp [cut, hne]
  | cons c s ih =>
      rw [cut, List.infix_cons_iff, ← List.isPrefixOf_iff_prefix, ← ih]
      split_ifs with h <;> simp [h]

/-- The only occurrence is replaced in its place. -/
lemma substitute_of_cut (hne : needle ≠ []) (h : cut needle s = some (before, after))
    (honce : ¬ needle <:+: after) : substitute needle fmt s = before ++ fmt ++ after := by
  induction s generalizing before with
  | nil => cases h
  | cons c s ih =>
      rw [cut] at h
      split_ifs at h with hmatch
      · obtain ⟨rfl, hafter⟩ := Prod.mk.inj (Option.some.inj h)
        have hskip : ∀ (k : ℕ) (s : List Char), piecesFrom [()] (fun _ => needle) k s =
            piecesFrom [()] (fun _ => needle) 0 (s.drop k) := by
          intro k
          induction k with
          | zero => exact fun _ => rfl
          | succ k ih =>
              intro s
              cases s with
              | nil => rfl
              | cons c s => exact ih s
        have hlength : needle.length = needle.length - 1 + 1 :=
          (Nat.sub_add_cancel (List.length_pos_iff.mpr hne)).symm
        rw [hlength, List.drop_succ_cons] at hafter
        have hplain : substitute needle fmt after = after := by
          rw [substitute, render_congr (g := fun _ => needle) fun i hi =>
            absurd ((key_mem_pieces_iff hne).mp hi) honce, render_pieces fun _ _ => hne]
        rw [substitute, pieces, piecesFrom_of_match hmatch, hskip, hafter, render_key]
        exact congrArg _ hplain
      · obtain ⟨parts, hcut, heq⟩ := Option.map_eq_some_iff.mp h
        obtain ⟨rfl, rfl⟩ := Prod.mk.inj heq
        have hrest := ih hcut
        rw [substitute, pieces] at hrest ⊢
        rw [piecesFrom_of_not_match hmatch, render_char, hrest]
        rfl

/-- **What was put in is read back.** -/
theorem between_substitute (hne : needle ≠ []) (h : cut needle s = some (before, after))
    (honce : ¬ needle <:+: after) : between before after (substitute needle fmt s) = some fmt :=
  between_eq_some_iff.mpr (substitute_of_cut hne h honce)

end Cut

end Replace
