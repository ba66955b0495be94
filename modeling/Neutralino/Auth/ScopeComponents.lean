import Neutralino.Auth.ScopePath

/-!
Which paths a scope covers, by their components.

* `normalizeScopePath_of_isAbsolute`: an absolute path is normalised to the text of
  the location it denotes.
* `covers_absText_iff`: which locations the scope test lets through; below the root,
  it is none.
* `LexicallyNormal`: absolute paths that are in normal form already.
* `byComponents_iff`: **when containment is by components**: the root, as a scope,
  covers only itself.
-/

namespace Neutralino.permission

open FilePath Lexical

/-! ### Absolute paths -/

/-- An absolute path is resolved to the text of its location, with a slash at the
end where the rest of the path does not exist and is open-ended. -/
lemma weaklyCanonical_of_isAbsolute (t : FileTree) (cwd : Location) {s : Str}
    (ha : isAbsolute s = true) :
    ∃ b : Bool, weaklyCanonical t cwd s =
      absText (locate cwd s) ++ slashIf (b && !(locate cwd s).isEmpty) := by
  have hs : s ≠ [] := by
    rintro rfl
    cases ha
  simp only [weaklyCanonical, hs, if_false, ha, true_or, if_true]
  split_ifs with hfull
  · exact ⟨false, by simp [locate, slashIf]⟩
  · refine ⟨openEnded s, ?_⟩
    rw [← walk_append, List.take_append_drop]
    rfl

/-- The slash at the end of a location below the root is taken off. -/
lemma normalizePath_absText_slashIf (l : Location) (b : Bool) :
    helpers.normalizePath (absText l ++ slashIf (b && !l.isEmpty)) = absText l := by
  by_cases h : b = true ∧ l ≠ []
  · obtain ⟨n, l', rfl⟩ := List.exists_cons_of_ne_nil h.2
    have hslash : slashIf (b && !(n :: l').isEmpty) = ['/'] := by simp [slashIf, h.1]
    rw [hslash, helpers.normalizePath, if_pos, List.dropLast_concat]
    exact ⟨by simp [absText], by simp⟩
  · have hnone : slashIf (b && !l.isEmpty) = [] := by
      rw [not_and_or, not_not] at h
      rcases h with h | h <;> simp [slashIf, h]
    rw [hnone, List.append_nil, normalizePath_absText]

/-- **An absolute path is normalised** to the text of the location it denotes. -/
theorem normalizeScopePath_of_isAbsolute (host : PlainHost) {s : Str} (ha : isAbsolute s = true)
    (hc : fs.NoPathConstant s) :
    normalizeScopePath host s = .ok (absText (locate host.cwd s)) := by
  obtain ⟨b, hb⟩ := weaklyCanonical_of_isAbsolute host.tree host.cwd ha
  have habs : isAbsolute (weaklyCanonical host.tree host.cwd s) = true := by rw [hb]; rfl
  have hne : weaklyCanonical host.tree host.cwd s ≠ [] := by
    intro h
    rw [h] at habs
    cases habs
  simp only [normalizeScopePath, host.canonical, fs.applyPathConstants_eq_self host hc, hne, if_false]
  rw [absolute, if_pos habs, hb, normalizePath_absText_slashIf]

/-! ### The scope test on locations -/

/-- The text of a location that continues one below the root continues its text
after a slash. -/
lemma absText_append {k t : Location} (hk : k ≠ []) (ht : t ≠ []) :
    absText (k ++ t) = absText k ++ '/' :: joinSegs (t.map .name) := by
  induction k with
  | nil => exact absurd rfl hk
  | cons n k ih =>
      obtain ⟨m, t, rfl⟩ := List.exists_cons_of_ne_nil ht
      cases k with
      | nil => simp [absText, joinSegs, List.intercalate_cons_cons]
      | cons n' k =>
          have hrest := ih (List.cons_ne_nil n' k)
          simp only [absText, joinSegs, List.map_cons, List.cons_append,
            List.intercalate_cons_cons, List.cons.injEq, true_and] at hrest ⊢
          rw [hrest]
          simp

lemma map_name_prefix_iff {k l : Location} :
    k.map Seg.name <+: l.map Seg.name ↔ k <+: l := by
  rw [List.prefix_map_iff]
  constructor
  · rintro ⟨l', hprefix, heq⟩
    rwa [List.map_injective_iff.mpr (fun _ _ => Seg.name.inj) heq]
  · exact fun h => ⟨k, h, rfl⟩

/-- **What the scope test lets through**: the locations from that of the scope down,
unless it is the root, which has only itself. -/
lemma covers_absText_iff (k l : Location) :
    covers (absText k) (absText l) ↔ k <+: l ∧ (k ≠ [] ∨ l = []) := by
  constructor
  · rintro (h | ⟨rest, h⟩)
    · have hl : l = k := by rw [← locate_absText [] l, h, locate_absText]
      exact ⟨hl ▸ List.prefix_rfl, hl ▸ (eq_or_ne l []).symm⟩
    · have hsegments := congrArg segments h
      rw [segments_append_slash, segments_absText, segments_absText] at hsegments
      refine ⟨map_name_prefix_iff.mp ⟨_, hsegments.symm⟩, ?_⟩
      -- behind the root there would be a second slash
      refine or_iff_not_imp_left.mpr fun hk => ?_
      rw [not_not] at hk
      rw [hk] at h
      by_contra hl
      have habs := isAbsolute_joinSegs (l.map .name)
      have hslash : joinSegs (l.map .name) = '/' :: rest := (List.cons.inj h).2
      rw [hslash] at habs
      cases habs
  · rintro ⟨⟨t, rfl⟩, hroot⟩
    by_cases ht : t = []
    · exact .inl (by rw [ht, List.append_nil])
    · have hk : k ≠ [] := hroot.resolve_right fun h => ht (List.append_eq_nil_iff.mp h).2
      exact .inr ⟨_, absText_append hk ht⟩

/-! ### Paths in normal form -/

/-- An absolute path in lexical normal form: its segments are names, and no slash is
doubled.  It may end in a slash. -/
structure LexicallyNormal (s : Str) : Prop where
  isAbsolute : isAbsolute s = true
  isName : ∀ g ∈ segments s, g.isName = true
  single : ¬ ['/', '/'] <:+: s

namespace LexicallyNormal

variable {s : Str}

/-- The segments of a normal path are the names that it leads down. -/
lemma segments_eq (h : LexicallyNormal s) (cwd : Location) :
    segments s = (locate cwd s).map .name := by
  have hnames : ∀ gs : List (Seg Name), (∀ g ∈ gs, g.isName = true) →
      ∃ l : Location, gs = l.map .name := by
    intro gs
    induction gs with
    | nil => exact fun _ => ⟨[], rfl⟩
    | cons g gs ih =>
        intro hgs
        obtain ⟨n, rfl⟩ := Seg.isName_iff.mp (hgs g List.mem_cons_self)
        obtain ⟨l, rfl⟩ := ih fun g hg => hgs g (List.mem_cons_of_mem _ hg)
        exact ⟨n :: l, rfl⟩
  obtain ⟨l, hl⟩ := hnames _ h.isName
  rw [locate, startOf, if_pos h.isAbsolute, hl, walk_names, List.nil_append]

/-- Without a name a normal path is the root. -/
lemma segments_eq_nil_iff (h : LexicallyNormal s) : segments s = [] ↔ s = ['/'] := by
  constructor
  · intro hnil
    obtain ⟨t, rfl⟩ : ∃ t, s = '/' :: t := by
      have habs := h.isAbsolute
      cases s with
      | nil => cases habs
      | cons c t => exact ⟨t, by simpa [FilePath.isAbsolute] using habs⟩
    rw [segments_slash] at hnil
    by_contra hne
    have ht : t ≠ [] := fun ht => hne (by rw [ht])
    refine segments_ne_nil ht (fun hhead => ?_) hnil
    obtain ⟨u, rfl⟩ := List.head?_eq_some_iff.mp hhead
    exact h.single ⟨[], u, rfl⟩
  · rintro rfl
    rfl

end LexicallyNormal

/-! ### Containment -/

/-- **When containment is by components**: for a path and a scope in normal form, the
scope test is the prefix test on their components exactly when the scope is not the
root, or the path is the root too. -/
theorem byComponents_iff (host : PlainHost) {p s : Str} (hp : LexicallyNormal p)
    (hs : LexicallyNormal s) (hpc : fs.NoPathConstant p) (hsc : fs.NoPathConstant s) :
    ∃ scope, normalizeScopePath host s = .ok scope ∧
      ((isPathInScope host p scope = .ok true ↔ segments s <+: segments p) ↔
        s ≠ ['/'] ∨ p = ['/']) := by
  refine ⟨_, normalizeScopePath_of_isAbsolute host hs.isAbsolute hsc, ?_⟩
  have hroot : ∀ {q : Str}, LexicallyNormal q → (q = ['/'] ↔ locate host.cwd q = []) :=
    fun {q} h => by rw [← h.segments_eq_nil_iff, h.segments_eq host.cwd, List.map_eq_nil_iff]
  have htest : isPathInScope host p (absText (locate host.cwd s)) = .ok true ↔
      segments s <+: segments p ∧ (s ≠ ['/'] ∨ p = ['/']) := by
    rw [Ne, hroot hs, hroot hp, hs.segments_eq host.cwd, hp.segments_eq host.cwd,
      map_name_prefix_iff, ← covers_absText_iff, isPathInScope_iff,
      normalizeScopePath_of_isAbsolute host hp.isAbsolute hpc]
    simp
  rw [htest]
  constructor
  · intro h
    by_cases hslash : s = ['/']
    · have hnil : segments s = [] := hs.segments_eq_nil_iff.mpr hslash
      exact (h.mpr (hnil ▸ List.nil_prefix)).2
    · exact .inl hslash
  · exact fun h => and_iff_left h

/-- Below `/a/b`, and not beside it. -/
theorem nested_path_by_components :
    ∃ scope, normalizeScopePath emptyWorkDir "/a/b" = .ok scope ∧
      ((isPathInScope emptyWorkDir "/a/bc" scope = .ok true ↔
          segments "/a/b" <+: segments "/a/bc") ↔
        "/a/b".toList ≠ ['/'] ∨ "/a/bc".toList = ['/']) :=
  byComponents_iff plainWorkDir ⟨by decide, by decide, by decide⟩ ⟨by decide, by decide, by decide⟩
    (by decide) (by decide)

/-- The root as a scope does not cover `/a`. -/
theorem root_covers_no_path_below :
    ¬ ∀ (host : PlainHost) (p s scope : Str), LexicallyNormal p → LexicallyNormal s →
      fs.NoPathConstant p → fs.NoPathConstant s → normalizeScopePath host s = .ok scope →
      (isPathInScope host p scope = .ok true ↔ segments s <+: segments p) := by
  intro h
  have hroot := h plainWorkDir "/a" "/" "/" ⟨by decide, by decide, by decide⟩
    ⟨by decide, by decide, by decide⟩ (by decide) (by decide) (by decide)
  revert hroot
  decide

end Neutralino.permission
