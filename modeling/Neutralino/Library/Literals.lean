import Neutralino.Library.Quoted

/-!
Texts pasted between single quotes as they are, and what JavaScript reads there.

* `IsVerbatim`: the characters that a literal in single quotes holds as they are.
* `Decodes`: what the code of a literal stands for; it is never longer than its code.
* `Decodes.exists_quote`: a quote in the code comes earlier in what it stands for.
* `javascript_read_self_iff`: **when a pasted text is read back**: the quote after it is
  never swallowed by a text that comes out as itself, so no character may be escaped.
-/

namespace Quoted

/-- A character that a literal in single quotes holds as it is. -/
def IsVerbatim (c : Char) : Prop := c ≠ '\'' ∧ c ≠ '\\' ∧ c ≠ '\n' ∧ c ≠ '\r'

instance (c : Char) : Decidable (IsVerbatim c) := inferInstanceAs (Decidable (_ ∧ _))

/-! ### Escape sequences without quotes -/

lemma quote_not_mem_hexNumber {digits : Text} {n : ℕ} (h : hexNumber? digits = some n) :
    '\'' ∉ digits := by
  have key : ∀ (digits : Text) (m : ℕ),
      digits.foldlM (fun n c => (hexDigit? c).map fun d => 16 * n + d) m = some n →
        '\'' ∉ digits := by
    intro digits
    induction digits with
    | nil => exact fun _ _ => List.not_mem_nil
    | cons c digits ih =>
        intro m h
        rw [List.foldlM_cons] at h
        obtain ⟨k, hk, hrest⟩ := Option.bind_eq_some_iff.mp h
        refine List.not_mem_cons_of_ne_of_not_mem ?_ (ih k hrest)
        rintro rfl
        cases hk
  exact key digits 0 h

lemma surrogatePair_code {high : ℕ} {s piece rest : Text}
    (h : surrogatePair high s = some (piece, rest)) : ∃ code, s = code ++ rest ∧ '\'' ∉ code := by
  rw [surrogatePair.eq_def] at h
  split at h
  · obtain ⟨low, hlow, h⟩ := Option.bind_eq_some_iff.mp h
    split_ifs at h
    obtain ⟨-, rfl⟩ := Prod.mk.inj (Option.some.inj h)
    have hdigits := quote_not_mem_hexNumber hlow
    exact ⟨['\\', 'u', _, _, _, _], rfl, List.not_mem_cons_of_ne_of_not_mem (by decide)
      (List.not_mem_cons_of_ne_of_not_mem (by decide) hdigits)⟩
  · cases h

lemma codeUnit_code {n : ℕ} {s piece rest : Text} (h : codeUnit n s = some (piece, rest)) :
    ∃ code, s = code ++ rest ∧ '\'' ∉ code := by
  rw [codeUnit] at h
  split_ifs at h
  · exact surrogatePair_code h
  · obtain ⟨-, rfl⟩ := Prod.mk.inj (Option.some.inj h)
    exact ⟨[], rfl, List.not_mem_nil⟩

/-- The code of an escape sequence after its backslash, and the piece it stands for. -/
structure IsEscape (code piece : Text) : Prop where
  ne_nil : code ≠ []
  length_le : piece.length ≤ 1
  quote : '\'' ∈ code → code = ['\''] ∧ piece = ['\'']

lemma IsEscape.of_hex {digits s piece rest : Text} {n : ℕ} (hdigits : hexNumber? digits = some n)
    (hunit : codeUnit n s = some (piece, rest)) {first : Text} (hne : first ≠ [])
    (hfirst : '\'' ∉ first) {last : Text} (hlast : '\'' ∉ last) :
    ∃ code, first ++ digits ++ last ++ s = code ++ rest ∧ IsEscape code piece := by
  obtain ⟨more, rfl, hmore⟩ := codeUnit_code hunit
  refine ⟨first ++ digits ++ last ++ more, by simp, ?_, Nat.le_of_eq (codeUnit_spec hunit).1, fun h => ?_⟩
  · simp [hne]
  · simp only [List.mem_append] at h
    rcases h with ((h | h) | h) | h
    · exact absurd h hfirst
    · exact absurd h (quote_not_mem_hexNumber hdigits)
    · exact absurd h hlast
    · exact absurd h hmore

lemma bracedCodePoint_code {s piece rest : Text} (h : bracedCodePoint s = some (piece, rest)) :
    ∃ code, 'u' :: '\x7b' :: s = code ++ rest ∧ IsEscape code piece := by
  rw [bracedCodePoint] at h
  split at h
  · cases h
  · rename_i brace after hafter
    obtain ⟨n, hdigits, h⟩ := Option.bind_eq_some_iff.mp h
    split_ifs at h
    have hbrace : brace = '\x7d' := by
      have hhead := List.head?_dropWhile_not (· ≠ '\x7d') s
      rw [hafter] at hhead
      simpa using hhead
    have hsplit : s.takeWhile (· ≠ '\x7d') ++ brace :: after = s := by
      rw [← hafter]
      exact List.takeWhile_append_dropWhile
    rw [hbrace] at hsplit
    obtain ⟨code, hcode, hescape⟩ := IsEscape.of_hex hdigits h (List.cons_ne_nil 'u' ['\x7b'])
      (by decide) (show '\'' ∉ ['\x7d'] by decide)
    refine ⟨code, ?_, hescape⟩
    calc 'u' :: '\x7b' :: s
        = 'u' :: '\x7b' :: (s.takeWhile (· ≠ '\x7d') ++ '\x7d' :: after) := by rw [hsplit]
      _ = code ++ rest := by
          rw [← hcode]
          simp

lemma javascriptEscape_spec {s piece rest : Text} (h : javascriptEscape s = some (piece, rest)) :
    ∃ code, s = code ++ rest ∧ IsEscape code piece := by
  have hchar : ∀ (c : Char) (p t : Text), some (p, t) = some (piece, rest) → p.length ≤ 1 →
      (c = '\'' → p = ['\'']) → ∃ code, c :: t = code ++ rest ∧ IsEscape code piece := by
    intro c p t heq hlength hquote
    obtain ⟨rfl, rfl⟩ := Prod.mk.inj (Option.some.inj heq)
    refine ⟨[c], rfl, List.cons_ne_nil _ _, hlength, fun hmem => ?_⟩
    obtain rfl := List.mem_singleton.mp hmem
    exact ⟨rfl, hquote rfl⟩
  rw [javascriptEscape.eq_def] at h
  split at h
  · cases h
  · obtain ⟨n, hdigits, hunit⟩ := Option.bind_eq_some_iff.mp h
    exact IsEscape.of_hex hdigits hunit (List.cons_ne_nil 'x' []) (by decide) List.not_mem_nil
  · exact bracedCodePoint_code h
  · obtain ⟨n, hdigits, hunit⟩ := Option.bind_eq_some_iff.mp h
    exact IsEscape.of_hex hdigits hunit (List.cons_ne_nil 'u' []) (by decide) List.not_mem_nil
  · obtain ⟨rfl, rfl⟩ := Prod.mk.inj (Option.some.inj h)
    exact ⟨['\r', '\n'], rfl, List.cons_ne_nil _ _, Nat.zero_le _, by decide⟩
  · rename_i c t _ _ _ _
    split_ifs at h with hline hdigit hzero hletter
    · refine hchar c [] t h (Nat.zero_le _) ?_
      rintro rfl
      revert hline
      decide
    · refine hchar c ['\x00'] t h Nat.le.refl ?_
      rintro rfl
      cases hdigit
    · exact hchar c [singleEscape c] t h Nat.le.refl fun hc => by rw [hc]; rfl

/-! ### What a literal stands for -/

/-- The code of a literal, without its quotes, and what it stands for. -/
inductive Decodes : Text → Text → Prop
  | nil : Decodes [] []
  | verbatim {c : Char} {code u : Text} (hc : IsVerbatim c) (hrest : Decodes code u) :
      Decodes (c :: code) (c :: u)
  | escape {e piece code u : Text} (he : IsEscape e piece) (hrest : Decodes code u) :
      Decodes ('\\' :: (e ++ code)) (piece ++ u)

lemma javascriptStep_close {t rest : Text} (h : javascriptStep t = some (none, rest)) :
    t = '\'' :: rest := by
  cases t with
  | nil => cases h
  | cons c s =>
      rw [javascriptStep] at h
      split_ifs at h with hquote hbackslash hline
      · obtain rfl : s = rest := (Prod.mk.inj (Option.some.inj h)).2
        rw [hquote]
      · obtain ⟨r, -, heq⟩ := Option.map_eq_some_iff.mp h
        cases heq
      · cases h

/-- A piece is a character as it is, or an escape sequence. -/
lemma javascriptStep_piece {t rest piece : Text} (h : javascriptStep t = some (some piece, rest)) :
    (∃ c, t = c :: rest ∧ piece = [c] ∧ IsVerbatim c) ∨
      ∃ e, t = '\\' :: (e ++ rest) ∧ IsEscape e piece := by
  cases t with
  | nil => cases h
  | cons c s =>
      rw [javascriptStep] at h
      split_ifs at h with hquote hbackslash hline
      · cases h
      · obtain ⟨⟨piece', rest'⟩, hr, heq⟩ := Option.map_eq_some_iff.mp h
        obtain ⟨rfl, rfl⟩ : piece' = piece ∧ rest' = rest := by simpa using heq
        obtain ⟨e, rfl, he⟩ := javascriptEscape_spec hr
        exact .inr ⟨e, by rw [hbackslash], he⟩
      · obtain ⟨rfl, rfl⟩ : [c] = piece ∧ s = rest := by simpa using h
        exact .inl ⟨c, rfl, rfl, hquote, hbackslash, not_or.mp hline⟩

lemma javascript_read_decodes {t u rest : Text} (h : javascript.read t = some (u, rest)) :
    ∃ code, t = code ++ '\'' :: rest ∧ Decodes code u := by
  induction t using Quoting.read.induct javascript generalizing u rest with
  | case1 t hstep => simp [Quoting.read_of_error hstep] at h
  | case2 t rest' hstep =>
      rw [Quoting.read_of_close hstep] at h
      obtain ⟨rfl, rfl⟩ := Prod.mk.inj (Option.some.inj h)
      exact ⟨[], javascriptStep_close hstep, .nil⟩
  | case3 t piece rest' hstep ih =>
      rw [Quoting.read_of_piece hstep] at h
      obtain ⟨⟨u', rest''⟩, hread, heq⟩ := Option.map_eq_some_iff.mp h
      obtain ⟨rfl, rfl⟩ := Prod.mk.inj heq
      obtain ⟨code, rfl, hcode⟩ := ih hread
      rcases javascriptStep_piece hstep with ⟨c, rfl, rfl, hc⟩ | ⟨e, rfl, he⟩
      · exact ⟨c :: code, rfl, .verbatim hc hcode⟩
      · exact ⟨'\\' :: (e ++ code), by simp, .escape he hcode⟩

namespace Decodes

variable {code u : Text}

/-- A literal is not shorter than what it stands for. -/
lemma length_le (h : Decodes code u) : u.length ≤ code.length := by
  induction h with
  | nil => exact Nat.le_refl _
  | verbatim hc hrest ih => exact Nat.succ_le_succ ih
  | escape he hrest ih =>
      have hpiece := he.length_le
      simp only [List.length_append, List.length_cons]
      omega

/-- A literal as long as what it stands for has no escape sequence. -/
lemma verbatim_of_length (h : Decodes code u) (hlength : code.length ≤ u.length) :
    ∀ c ∈ code, IsVerbatim c := by
  induction h with
  | nil => exact fun _ hc => nomatch hc
  | verbatim hc hrest ih =>
      exact List.forall_mem_cons.mpr ⟨hc, ih (Nat.le_of_succ_le_succ hlength)⟩
  | escape he hrest ih =>
      have hpiece := he.length_le
      have hcode := List.length_pos_iff.mpr he.ne_nil
      have hle := hrest.length_le
      simp only [List.length_append, List.length_cons] at hlength
      omega

/-- A quote in the code comes earlier in what it stands for. -/
lemma exists_quote {before after : Text} (h : Decodes (before ++ '\'' :: after) u)
    (hbefore : '\'' ∉ before) :
    ∃ u₁ u₂, u = u₁ ++ '\'' :: u₂ ∧ u₁.length < before.length := by
  generalize hcode : before ++ '\'' :: after = code at h
  induction h generalizing before with
  | nil => simp at hcode
  | @verbatim c code u hc hrest ih =>
      cases before with
      | nil => exact absurd (List.cons.inj hcode).1.symm hc.1
      | cons d before =>
          obtain ⟨rfl, htail⟩ := List.cons.inj hcode
          obtain ⟨u₁, u₂, rfl, hlt⟩ := ih (fun hmem => hbefore (List.mem_cons_of_mem _ hmem)) htail
          exact ⟨d :: u₁, u₂, rfl, Nat.succ_lt_succ hlt⟩
  | @escape e piece code u he hrest ih =>
      cases before with
      | nil => cases (List.cons.inj hcode).1
      | cons d before =>
          have htail : before ++ '\'' :: after = e ++ code := (List.cons.inj hcode).2
          rw [List.mem_cons, not_or] at hbefore
          rcases List.append_eq_append_iff.mp htail with ⟨e', rfl, he'⟩ | ⟨before', rfl, rfl⟩
          · cases e' with
            | nil =>
                obtain ⟨u₁, _, _, hlt⟩ := @ih [] List.not_mem_nil he'
                exact absurd hlt (Nat.not_lt_zero _)
            | cons c e' =>
                obtain ⟨rfl, -⟩ := List.cons.inj he'
                obtain ⟨hone, rfl⟩ := he.quote (by simp)
                exact ⟨[], u, rfl, Nat.succ_pos _⟩
          · obtain ⟨u₁, u₂, rfl, hlt⟩ := ih (fun hmem => hbefore.2 (List.mem_append_right e hmem)) rfl
            refine ⟨piece ++ u₁, u₂, by simp, ?_⟩
            have hpiece := he.length_le
            simp only [List.length_append, List.length_cons]
            omega

end Decodes

/-- No code that goes on after a quote stands for the text before that quote. -/
lemma not_decodes_self_append (v after : Text) : ¬ Decodes (v ++ '\'' :: after) v := by
  intro h
  obtain ⟨before, after', hcode, hbefore⟩ :=
    List.eq_append_cons_of_mem (show '\'' ∈ v ++ '\'' :: after by simp)
  have hprefix_before : before <+: v ++ '\'' :: after := ⟨_, hcode.symm⟩
  rw [hcode] at h
  obtain ⟨u₁, u₂, rfl, hlt⟩ := h.exists_quote hbefore
  -- the first quote of the code lies behind one of `v`
  have hquote : u₁ ++ ['\''] <+: u₁ ++ '\'' :: u₂ ++ '\'' :: after :=
    ⟨u₂ ++ '\'' :: after, by simp⟩
  have hfirst : u₁ ++ ['\''] <+: before :=
    List.prefix_of_prefix_length_le hquote hprefix_before (by simpa [Nat.succ_le_iff] using hlt)
  exact hbefore (hfirst.subset (by simp))

lemma javascript_read_verbatim {v : Text} (h : ∀ c ∈ v, IsVerbatim c) (rest : Text) :
    javascript.read (v ++ '\'' :: rest) = some (v, rest) := by
  have hclose : javascript.read ('\'' :: rest) = some ([], rest) := Quoting.read_of_close rfl
  have hstep : ∀ c ∈ v, ∀ s, javascript.step ([c] ++ s) = some (some [c], s) := by
    intro c hc s
    obtain ⟨hquote, hbackslash, hline, hreturn⟩ := h c hc
    show javascriptStep (c :: s) = _
    rw [javascriptStep, if_neg hquote, if_neg hbackslash, if_neg (not_or.mpr ⟨hline, hreturn⟩)]
  have hread := Quoting.read_flatMap hstep ('\'' :: rest)
  rw [hclose] at hread
  simpa using hread

/-- **When a pasted text is read back**: no character of it is a quote, a backslash or
the end of a line. -/
theorem javascript_read_self_iff {v rest : Text} :
    (∃ rest', javascript.read (v ++ '\'' :: rest) = some (v, rest')) ↔ ∀ c ∈ v, IsVerbatim c := by
  constructor
  · rintro ⟨rest', hread⟩
    obtain ⟨code, hcode, hdecodes⟩ := javascript_read_decodes hread
    rcases List.append_eq_append_iff.mp hcode with ⟨more, rfl, hmore⟩ | ⟨more, rfl, -⟩
    · cases more with
      | nil =>
          rw [List.append_nil] at hdecodes
          exact hdecodes.verbatim_of_length (Nat.le_refl _)
      | cons c more =>
          -- the first quote in the code lies in `v` or ends it, and would come earlier in `v`
          obtain ⟨rfl, -⟩ := List.cons.inj hmore
          exact absurd hdecodes (not_decodes_self_append v more)
    · have hle := hdecodes.length_le
      have hnil : more = [] := by
        rw [List.length_append] at hle
        exact List.eq_nil_of_length_eq_zero (by omega)
      subst hnil
      rw [List.append_nil] at hdecodes ⊢
      exact hdecodes.verbatim_of_length (Nat.le_refl _)
  · exact fun h => ⟨rest, javascript_read_verbatim h rest⟩

end Quoted
