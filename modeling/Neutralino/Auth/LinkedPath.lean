import Neutralino.Auth.ScopePath

/-!
What `__normalizeScopePath` makes of a path where there may be symbolic links,
and what the scope test says then of the place that the path is decided on.

* `normalizeScopePath_linked`: the segments of the normalised path.
* `locate_normalizeScopePath_linked`: it denotes the place that is decided on.
* `prefix_of_covers`: a scope that covers it holds that place, which must not
  lie outside the working directory if the path was left relative.
-/

namespace Neutralino.permission

open FilePath Lexical

variable {host : LinkedHost} {p r : Str}

/-- The normalised path is absolute.  It spells the place that is decided on,
unless the path is left relative: then it spells the working directory followed
by the relative normal form. -/
theorem normalizeScopePath_linked (hp : fs.applyPathConstants host p ≠ []) :
    ∃ r, normalizeScopePath host p = .ok r ∧ isAbsolute r = true ∧
      (¬ host.tree.MissingHead host.cwd (fs.applyPathConstants host p) →
        segments r = (host.tree.decided host.cwd (fs.applyPathConstants host p)).map .name) ∧
      (host.tree.MissingHead host.cwd (fs.applyPathConstants host p) →
        segments r = host.cwd.map .name ++
          segments (relText (segments (fs.applyPathConstants host p)))) := by
  have hcanonical := congrFun host.canonical (fs.applyPathConstants host p)
  by_cases hm : host.tree.MissingHead host.cwd (fs.applyPathConstants host p)
  · obtain ⟨⟨b, hb⟩, -⟩ := LinkedTree.weaklyCanonical_of_missingHead host.cwd_isDir hm
    obtain ⟨r, hr, habs, hsegments⟩ := normalizeScopePath_of_relText (hcanonical.trans (congrArg some hb))
    exact ⟨r, hr, habs, fun hnot => absurd hm hnot, fun _ => hsegments⟩
  · obtain ⟨hfull, hspelled⟩ := LinkedTree.weaklyCanonical_of_anchored host.cwd_isDir hp hm
    obtain ⟨r, hr, habs, hsegments⟩ := normalizeScopePath_of_canonical hcanonical hfull hspelled
    exact ⟨r, hr, habs, fun _ => hsegments, fun hmissing => absurd hmissing hm⟩

/-- What is normalised was not empty. -/
lemma applyPathConstants_ne_nil (h : normalizeScopePath host p = .ok r) :
    fs.applyPathConstants host p ≠ [] := by
  intro hp
  simp [normalizeScopePath, host.canonical, hp, LinkedTree.weaklyCanonical] at h

/-- **The normalised path denotes the place that is decided on.** -/
theorem locate_normalizeScopePath_linked (h : normalizeScopePath host p = .ok r) :
    locate host.cwd r = host.tree.decided host.cwd (fs.applyPathConstants host p) := by
  obtain ⟨r', hr', habs, hanchored, hmissing⟩ := normalizeScopePath_linked (applyPathConstants_ne_nil h)
  obtain rfl : r' = r := by simpa [hr'] using h
  by_cases hm : host.tree.MissingHead host.cwd (fs.applyPathConstants host p)
  · rw [(LinkedTree.weaklyCanonical_of_missingHead host.cwd_isDir hm).2, locate, hmissing hm, startOf,
      if_pos habs, walk_append, walk_names, List.nil_append, walk_relText]
  · rw [locate, hanchored hm, startOf, if_pos habs, walk_names, List.nil_append]

/-- **A scope that covers the path holds the place that is decided on**, which, if
the path was left relative, must lie in the working directory. -/
theorem prefix_of_covers {scope : Str} (hr : normalizeScopePath host p = .ok r)
    (hscope : isAbsolute scope = true) (hcovers : covers scope r)
    (hcwd : host.tree.MissingHead host.cwd (fs.applyPathConstants host p) →
      host.cwd <+: host.tree.decided host.cwd (fs.applyPathConstants host p)) :
    locate host.cwd scope <+: host.tree.decided host.cwd (fs.applyPathConstants host p) := by
  have hloc := locate_normalizeScopePath_linked hr
  have hne : scope ≠ [] := by
    rintro rfl
    cases hscope
  obtain ⟨r', hr', habs, hanchored, hmissing⟩ := normalizeScopePath_linked (applyPathConstants_ne_nil hr)
  obtain rfl : r' = r := by simpa [hr'] using hr
  rw [← hloc] at hcwd ⊢
  by_cases hm : host.tree.MissingHead host.cwd (fs.applyPathConstants host p)
  · have hsegments := (hmissing hm).trans (congrArg _ (segments_relText _))
    split_ifs at hsegments with hlevel
    · refine locate_prefix_of_covers hne hcovers (fun s hs => ?_) _
      rw [hsegments] at hs
      rcases List.mem_append.mp hs with hs | hs
      · obtain ⟨n, -, rfl⟩ := List.mem_map.mp hs
        rfl
      · obtain rfl := List.mem_singleton.mp hs
        rfl
    · rcases hcovers with rfl | ⟨rest, rfl⟩
      · exact List.prefix_rfl
      · have hinside := hcwd hm
        rw [locate, startOf, if_pos habs] at hinside
        rw [segments_append_slash] at hsegments hinside
        have hdip := prefix_walk_of_dip hsegments hinside
        rwa [locate, locate, startOf, startOf, if_pos hscope, if_pos habs, segments_append_slash]
  · refine locate_prefix_of_covers hne hcovers (fun s hs => ?_) _
    rw [hanchored hm] at hs
    obtain ⟨n, -, rfl⟩ := List.mem_map.mp hs
    rfl

/-- A path that is left relative is covered by the working directory. -/
lemma covers_cwd_of_missingHead (hcwd : host.cwd ≠ [])
    (hm : host.tree.MissingHead host.cwd (fs.applyPathConstants host p)) :
    ∃ r, normalizeScopePath host p = .ok r ∧ covers (absText host.cwd) r := by
  obtain ⟨⟨b, hb⟩, -⟩ := LinkedTree.weaklyCanonical_of_missingHead host.cwd_isDir hm
  exact covers_cwd_of_relText hcwd (by rw [host.canonical, ← hb])

/-- The scope `.` is the working directory. -/
lemma normalizeScopePath_dot (host : LinkedHost) :
    normalizeScopePath host ['.'] = .ok (absText host.cwd) := by
  have hself : fs.applyPathConstants host ['.'] = ['.'] := fs.applyPathConstants_eq_self host (by decide)
  have hstart : startOf host.cwd ['.'] = host.cwd := rfl
  have hstatus : host.tree.status host.cwd ['.'] = some host.cwd := by
    have hseen : callText ['.'] = ['.'] := by decide
    have hsegments : segments ['.'] = [.dot] := by decide
    simp [LinkedTree.status, hseen, hsegments, hstart, LinkedTree.canonical, LinkedTree.follow, step,
      host.cwd_isDir]
  have hcanonical : host.tree.weaklyCanonical host.cwd ['.'] = absText host.cwd := by
    simp [LinkedTree.weaklyCanonical, hstatus]
  simp only [normalizeScopePath, hself, host.canonical, hcanonical]
  rw [if_neg (by simp [absText]), absolute, if_pos (isAbsolute_absText _),
    normalizePath_absText]

end Neutralino.permission
