import Neutralino.Auth.Permission

/-!
What `__normalizeScopePath` makes of a path, and what `__isPathInScope` decides
on it.

* `normalizeScopePath_spec`: the segments of the normalised path, on a host
  without symbolic links.  A path that starts at a missing name is normalised
  while still relative, and the working directory is put in front afterwards.
* `locate_normalizeScopePath`: the normalised path denotes the location of the
  path it was made from.
* `normalizeScopePath_sound_iff`: **when the normalisation is sound**, that is
  absolute, made of names only and never granted outside a scope.
* `escape_by_missing_name`: a path that names the parent of the working
  directory through a missing name is found inside the working directory.
-/

namespace Neutralino.permission

open FilePath Lexical

/-! ### Final slashes -/

lemma segments_normalizePath (s : Str) : segments (helpers.normalizePath s) = segments s := by
  rw [helpers.normalizePath]
  split_ifs with h
  · rw [← segments_append_final_slash s.dropLast, List.dropLast_append_getLast?]
    exact h.2
  · rfl

lemma isAbsolute_normalizePath (s : Str) : isAbsolute (helpers.normalizePath s) = isAbsolute s := by
  rw [helpers.normalizePath]
  split_ifs with h
  · obtain ⟨a, b, t, rfl⟩ : ∃ a b t, s = a :: b :: t := by
      match s, h.1 with
      | a :: b :: t, _ => exact ⟨a, b, t, rfl⟩
    rfl
  · rfl

/-- The path text of a location has no final slash to lose. -/
lemma normalizePath_absText (l : Location) : helpers.normalizePath (absText l) = absText l := by
  rw [helpers.normalizePath, if_neg]
  rintro ⟨hlength, hlast⟩
  rcases List.eq_nil_or_concat' l with rfl | ⟨l, n, rfl⟩
  · simp [absText, joinSegs] at hlength
  · obtain ⟨a, ha⟩ := joinSegs_concat (l.map .name) (.name n)
    have hend : absText (l ++ [n]) = '/' :: a ++ n.text := by
      rw [absText, List.map_append, List.map_singleton, ha]
      rfl
    rw [hend, List.getLast?_append_of_ne_nil _ n.text_ne_nil] at hlast
    exact n.slash_not_mem (List.mem_of_getLast? hlast)

/-! ### The normalised path -/

/-- A normalised path is absolute. -/
lemma isAbsolute_of_normalizeScopePath {host : Host} {p r : Str} (h : normalizeScopePath host p = .ok r) :
    isAbsolute r = true := by
  rw [normalizeScopePath] at h
  cases hnorm : host.weaklyCanonical (fs.applyPathConstants host p) with
  | none => simp [hnorm] at h
  | some norm =>
      simp only [hnorm] at h
      split_ifs at h with hne
      obtain rfl := Except.ok.inj h
      rw [isAbsolute_normalizePath, isAbsolute_absolute]

section Normalised

variable {host : Host} {p norm : Str}

/-- What is canonical is normalised to what spells the same. -/
lemma normalizeScopePath_of_canonical {l : Location}
    (hnorm : host.weaklyCanonical (fs.applyPathConstants host p) = some norm)
    (habs : isAbsolute norm = true) (hsegments : segments norm = l.map .name) :
    ∃ r, normalizeScopePath host p = .ok r ∧ isAbsolute r = true ∧ segments r = l.map .name := by
  have hne : norm ≠ [] := by
    rintro rfl
    cases habs
  refine ⟨helpers.normalizePath (absolute host.cwd norm), by simp [normalizeScopePath, hnorm, hne], ?_, ?_⟩
  · rw [isAbsolute_normalizePath, isAbsolute_absolute]
  · rw [segments_normalizePath, absolute, if_pos habs, hsegments]

/-- What is left relative is normalised to what the working directory stands before. -/
lemma normalizeScopePath_of_relText {ss : List (Seg Name)} {b : Bool}
    (hnorm : host.weaklyCanonical (fs.applyPathConstants host p) = some (relText ss ++ slashIf b)) :
    ∃ r, normalizeScopePath host p = .ok r ∧ isAbsolute r = true ∧
      segments r = host.cwd.map .name ++ segments (relText ss) := by
  have hrel : isAbsolute (relText ss ++ slashIf b) = false := by
    rw [isAbsolute_append (relText_ne_nil _), isAbsolute_relText]
  refine ⟨helpers.normalizePath (absolute host.cwd (relText ss ++ slashIf b)),
    by simp [normalizeScopePath, hnorm, relText_ne_nil], ?_, ?_⟩
  · rw [isAbsolute_normalizePath, isAbsolute_absolute]
  · rw [segments_normalizePath, segments_absolute_of_relative _ hrel, segments_append_slashIf]

end Normalised

section Plain

variable {host : PlainHost} {p r : Str}

/-- The normalised path is absolute.  It spells the location of the path,
unless the path starts at a missing name: then it spells the working directory
followed by the relative normal form. -/
theorem normalizeScopePath_spec (hp : fs.applyPathConstants host p ≠ []) :
    ∃ r, normalizeScopePath host p = .ok r ∧ isAbsolute r = true ∧
      (¬ MissingHead host.tree host.cwd (fs.applyPathConstants host p) →
        segments r = (locate host.cwd (fs.applyPathConstants host p)).map .name) ∧
      (MissingHead host.tree host.cwd (fs.applyPathConstants host p) →
        segments r = host.cwd.map .name ++
          segments (relText (segments (fs.applyPathConstants host p)))) := by
  have hcanonical := congrFun host.canonical (fs.applyPathConstants host p)
  by_cases hm : MissingHead host.tree host.cwd (fs.applyPathConstants host p)
  · obtain ⟨b, hb⟩ := weaklyCanonical_of_missingHead host.cwd_isDir hp hm
    obtain ⟨r, hr, habs, hsegments⟩ := normalizeScopePath_of_relText (hcanonical.trans (congrArg some hb))
    exact ⟨r, hr, habs, fun hnot => absurd hm hnot, fun _ => hsegments⟩
  · obtain ⟨hfull, hspelled⟩ := weaklyCanonical_of_anchored host.cwd_isDir hp hm
    obtain ⟨r, hr, habs, hsegments⟩ := normalizeScopePath_of_canonical hcanonical hfull hspelled
    exact ⟨r, hr, habs, fun _ => hsegments, fun hmissing => absurd hmissing hm⟩

/-- The empty path is not normalised. -/
lemma normalizeScopePath_nil (hp : fs.applyPathConstants host p = []) :
    normalizeScopePath host p = .error .filesystemError := by
  simp [normalizeScopePath, host.canonical, hp, weaklyCanonical]

lemma walk_relText (l : Location) (ss : List (Seg Name)) :
    walk l (segments (relText ss)) = walk l ss := by
  rw [segments_relText]
  split_ifs with h
  · rw [walk_eq_rel l ss, h.1, h.2]
    simp [step]
  · rw [walk_append, walk_names, walk_replicate_dotdot, ← walk_eq_rel]

/-- **The normalised path denotes the location of the path.** -/
theorem locate_normalizeScopePath (h : normalizeScopePath host p = .ok r) :
    locate host.cwd r = locate host.cwd (fs.applyPathConstants host p) := by
  have hp : fs.applyPathConstants host p ≠ [] := by
    intro hp
    simp [normalizeScopePath_nil hp] at h
  obtain ⟨r', hr', habs, hanch, hmiss⟩ := normalizeScopePath_spec hp
  obtain rfl : r' = r := by simpa [hr'] using h
  by_cases hm : MissingHead host.tree host.cwd (fs.applyPathConstants host p)
  · have hstart : startOf host.cwd (fs.applyPathConstants host p) = host.cwd := by
      simp [startOf, hm.1]
    rw [locate, hmiss hm, startOf, if_pos habs, walk_append, walk_names, List.nil_append,
      walk_relText, locate, hstart]
  · rw [locate, hanch hm, startOf, if_pos habs, walk_names, List.nil_append]

end Plain

/-! ### The scope test -/

/-- The test of `__isPathInScope` on a normalised path. -/
def covers (scope r : Str) : Prop := r = scope ∨ ∃ rest, r = scope ++ '/' :: rest

lemma isPathInScope_iff {host : Host} {p scope : Str} :
    isPathInScope host p scope = .ok true ↔
      ∃ r, normalizeScopePath host p = .ok r ∧ covers scope r := by
  rw [isPathInScope, bind_eq_ok]
  refine exists_congr fun r => and_congr_right fun _ => ?_
  have key : (scope.length < r.length ∧ r.take scope.length = scope) ∧
      r[scope.length]? = some '/' ↔ ∃ rest, r = scope ++ '/' :: rest := by
    constructor
    · rintro ⟨⟨hlt, htake⟩, hget⟩
      refine ⟨r.drop (scope.length + 1), ?_⟩
      rw [List.getElem?_eq_getElem hlt, Option.some.injEq] at hget
      rw [← hget, ← List.drop_eq_getElem_cons hlt]
      nth_rewrite 1 [← htake]
      exact (List.take_append_drop _ _).symm
    · rintro ⟨rest, rfl⟩
      simp
  simp [pure, Except.pure, covers, ← key]

/-- A normalised path without ascents is only covered from above. -/
lemma locate_prefix_of_covers {scope r : Str} (hs : scope ≠ []) (hc : covers scope r)
    (hup : ∀ s ∈ segments r, s.isUp = false) (cwd : Location) :
    locate cwd scope <+: locate cwd r := by
  rcases hc with rfl | ⟨rest, rfl⟩
  · exact List.prefix_rfl
  · rw [locate_append_slash cwd hs]
    exact prefix_walk (fun s h => hup s (by simp [h])) _

/-- A path that is left relative is covered by the working directory. -/
lemma covers_cwd_of_relText {host : Host} {p : Str} {ss : List (Seg Name)} {b : Bool}
    (hcwd : host.cwd ≠ [])
    (h : host.weaklyCanonical (fs.applyPathConstants host p) = some (relText ss ++ slashIf b)) :
    ∃ r, normalizeScopePath host p = .ok r ∧ covers (absText host.cwd) r := by
  set x := relText ss ++ slashIf b with hx
  have hxne : x ≠ [] := by simp [hx, relText_ne_nil]
  have habs : absolute host.cwd x = absText host.cwd ++ '/' :: x := by
    rw [absolute, if_neg (by rw [hx, isAbsolute_append (relText_ne_nil _), isAbsolute_relText]; simp)]
    simp [slashIf, hcwd]
  refine ⟨helpers.normalizePath (absolute host.cwd x), by simp [normalizeScopePath, h, hxne], ?_⟩
  rw [habs, helpers.normalizePath]
  right
  split_ifs with hlast
  · exact ⟨x.dropLast, by rw [List.dropLast_append_of_ne_nil (by simp), List.dropLast_cons_of_ne_nil hxne]⟩
  · exact ⟨x, rfl⟩

/-! ### Soundness -/

/-- The normalisation of a path is sound: the result is absolute, made of names
only, and denotes the location of the path; and no scope is found to cover a
path whose location lies outside it. -/
structure SoundlyNormalised (host : Host) (p : Str) : Prop where
  normal : ∃ r, normalizeScopePath host p = .ok r ∧ isAbsolute r = true ∧
    (∀ s ∈ segments r, s.isName = true) ∧ locate host.cwd r = locate host.cwd p
  inside : ∀ scope, scope ≠ [] → isPathInScope host p scope = .ok true →
    locate host.cwd scope <+: locate host.cwd p

/-- The relative normal form is made of names exactly when the segments neither
sink below their start nor come out level with it. -/
lemma relText_isName_iff (ss : List (Seg Name)) :
    (∀ s ∈ segments (relText ss), s.isName = true) ↔ ¬ Sinks ss ∧ ¬ Level ss := by
  by_cases hsink : Sinks ss
  · have hk : climb ss ≠ 0 := fun h0 => (climb_eq_zero_iff ss).mp h0 hsink
    simp only [hsink, not_true_eq_false, false_and, iff_false]
    intro h
    rw [segments_relText, if_neg fun h' => hk h'.1] at h
    have := h .dotdot (List.mem_append_left _ (List.mem_replicate.mpr ⟨hk, rfl⟩))
    simp [Seg.isName] at this
  · have hk : climb ss = 0 := (climb_eq_zero_iff ss).mpr hsink
    rw [segments_relText, ← descent_eq_nil_iff hsink]
    by_cases hd : descent ss = []
    · simp [hk, hd, Seg.isName]
    · simp [hk, hd, hsink, Seg.isName]

/-- **The normalisation is sound**, on a host without symbolic links, exactly for
the paths that are absolute, start at an existing place, or never climb above
where they start and end below it. -/
theorem normalizeScopePath_sound_iff {host : PlainHost} {p : Str} (hp : p ≠ [])
    (hc : fs.NoPathConstant p) :
    SoundlyNormalised host p ↔
      (MissingHead host.tree host.cwd p → ¬ Sinks (segments p) ∧ ¬ Level (segments p)) := by
  have hself := fs.applyPathConstants_eq_self host hc
  obtain ⟨r, hr, habs, hanch, hmiss⟩ :=
    normalizeScopePath_spec (show fs.applyPathConstants host p ≠ [] by rwa [hself])
  have hloc := locate_normalizeScopePath hr
  rw [hself] at hanch hmiss hloc
  constructor
  · intro h hm
    obtain ⟨r', hr', -, hnames, -⟩ := h.normal
    obtain rfl : r = r' := by simpa [hr] using hr'
    rw [← relText_isName_iff]
    exact fun s hs => hnames s (by rw [hmiss hm]; exact List.mem_append_right _ hs)
  · intro h
    have hnames : ∀ s ∈ segments r, s.isName = true := by
      by_cases hm : MissingHead host.tree host.cwd p
      · rw [hmiss hm]
        intro s hs
        rcases List.mem_append.mp hs with hs | hs
        · obtain ⟨n, -, rfl⟩ := List.mem_map.mp hs
          rfl
        · exact (relText_isName_iff _).mpr (h hm) s hs
      · rw [hanch hm]
        intro s hs
        obtain ⟨n, -, rfl⟩ := List.mem_map.mp hs
        rfl
    refine ⟨⟨r, hr, habs, hnames, hloc⟩, fun scope hs hin => ?_⟩
    obtain ⟨r', hr', hcov⟩ := isPathInScope_iff.mp hin
    obtain rfl : r = r' := by simpa [hr] using hr'
    rw [← hloc]
    refine locate_prefix_of_covers hs hcov (fun s hs => ?_) _
    obtain ⟨n, rfl⟩ := Seg.isName_iff.mp (hnames s hs)
    rfl

theorem normalizeScopePath_sound_at_existing_parent :
    SoundlyNormalised emptyWorkDir "../w/new.txt" :=
  (@normalizeScopePath_sound_iff plainWorkDir _ (by decide) (by decide)).mpr fun h => by
    obtain ⟨-, n, rest, hs, -⟩ := h
    have hhead : (segments "../w/new.txt".toList).head? = some .dotdot := by decide
    rw [hs] at hhead
    cases hhead

/-- The path `missing/../../x` leaves `/w`, and is found inside it. -/
theorem escape_by_missing_name :
    isPathInScope emptyWorkDir "missing/../../x" "/w" = .ok true ∧
      ¬ SoundlyNormalised emptyWorkDir "missing/../../x" := by
  have hin : isPathInScope emptyWorkDir "missing/../../x" "/w" = .ok true := by decide
  refine ⟨hin, fun h => ?_⟩
  have := h.inside "/w" (by decide) hin
  revert this
  decide

end Neutralino.permission
