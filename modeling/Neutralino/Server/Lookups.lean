import Neutralino.Base.Splitting
import Neutralino.Server.Assets

/-!
Where the static server looks for a request, whatever it finds there.

* `completed`: the path with which `getAsset` goes looking.
* `getAsset_cases`: what a run does after a lookup.
* `Looks`, `RequestLooks`: a property of the places a path can be looked up in,
  and its start page; the request handler in front of it.
* `Placed`: a property of a place that has to be there.
* `keeps_handleHTTP`: **every run of a request** looks in such places only.
* `requestLooks_of_in`: runs on an empty disk look in all of them.
-/

namespace Neutralino

/-! ### Undefined behaviour -/

namespace router

variable {options : Json} {mounts : MountTable} {path newPath : Str} {lookup : Lookup}

lemma startPage_defined (options : Json) : Defined (startPage options) := by
  refine (settings.getOptionForCurrentMode_defined _ _).bind fun jDocumentRoot _ => ?_
  refine defined_ite (settings.getNavigationUrl_defined _) ?_
  exact (Json.getString_defined _).bind fun _ _ => defined_ok _

/-- The fallback is never undefined. -/
lemma spaFallback_defined (options : Json) (path : Str) : Defined (spaFallback options path) := by
  refine (settings.getOptionForCurrentMode_defined _ _).bind fun jSpaServing _ => ?_
  refine defined_ite (defined_ok _) ?_
  refine (Json.getBool_defined _).bind fun serving _ => ?_
  refine defined_ite (defined_ok _) ?_
  refine defined_ite (defined_ok _) ?_
  exact (startPage_defined options).bind fun _ _ => defined_ok _

/-- A fallback leads to the start page. -/
lemma startPage_of_spaFallback (h : spaFallback options path = .ok (some newPath)) :
    startPage options = .ok newPath := by
  obtain ⟨jSpaServing, -, h⟩ := bind_eq_ok.mp h
  by_cases hnull : jSpaServing.isNull = true
  · simp [hnull, pure, Except.pure] at h
  rw [if_neg hnull] at h
  obtain ⟨serving, -, h⟩ := bind_eq_ok.mp h
  by_cases hasked : serving = true ∧ indexPage.test path = true
  · simp only [hasked, Bool.not_true, Bool.false_eq_true, if_false] at h
    obtain ⟨page, hpage, h⟩ := bind_eq_ok.mp h
    have hsome : (if page = path then none else some page) = some newPath := Except.ok.inj h
    by_cases heq : page = path
    · simp [heq] at hsome
    · rw [if_neg heq] at hsome
      exact hpage.trans (congrArg _ (Option.some.inj hsome))
  · by_cases hserving : serving = true
    · simp [hserving, show indexPage.test path = false by simpa [hserving] using hasked, pure,
        Except.pure] at h
    · simp [hserving, pure, Except.pure] at h

/-- The mount loop is not undefined where the document root is read. -/
lemma lookupOf_defined {documentRoot : Str}
    (hroot : neuserver.getDocumentRoot options = .ok documentRoot) (path : Str) :
    Defined (lookupOf options mounts path) := by
  rw [lookupOf, hroot]
  refine defined_ite (defined_ok _) (defined_ite nofun ?_)
  cases mounts.entries.find? fun m => m.1.isPrefixOf (path.drop documentRoot.length) with
  | none => exact defined_ok _
  | some m => exact defined_ok _

/-- The path with which `getAsset` goes looking; none for the empty path. -/
def completed (path : Str) : Option Str :=
  if (helpers.split path '.' none).length < 2 then
    path.getLast?.map fun c => (if c = '/' then path else path ++ ['/']) ++ "index.html".toList
  else some path

/-! ### One lookup after another -/

/-- There are fewer than two pieces if no dot stands before the last character. -/
lemma length_split_lt_two_iff (path : Str) :
    (helpers.split path '.' none).length < 2 ↔ '.' ∉ path.dropLast := by
  rcases List.eq_nil_or_concat' path with rfl | ⟨init, last, rfl⟩
  · exact iff_of_true (by decide) (by decide)
  · rw [helpers.length_split_concat, List.dropLast_concat, ← List.count_eq_zero]
    omega

lemma completed_of_dot {page : Str} (h : '.' ∈ page.dropLast) : completed page = some page :=
  if_neg (mt (length_split_lt_two_iff page).mp (not_not_intro h))

/-- A completed path is not completed again. -/
lemma completed_completed {page : Str} (h : completed path = some page) :
    completed page = some page := by
  unfold completed at h
  split_ifs at h with hsplit
  · obtain ⟨c, -, rfl⟩ := Option.map_eq_some_iff.mp h
    refine completed_of_dot ?_
    rw [List.dropLast_append_of_ne_nil (by decide)]
    exact List.mem_append_right _ (by decide)
  · obtain rfl := Option.some.inj h
    exact if_neg hsplit

section Runs

variable (site : Site) {prependData : Str} {readerOptions : fs.FileReaderOptions} {page : Str}

lemma not_lt_of_completed (h : completed page = some page) :
    ¬ (helpers.split page '.' none).length < 2 := by
  intro hsplit
  obtain ⟨c, -, hc⟩ := Option.map_eq_some_iff.mp ((if_pos hsplit).symm.trans h)
  have hlen := congrArg List.length hc
  split_ifs at hlen
  · simp at hlen
  · simp at hlen

lemma getAsset_of_fault {fault : Fault} (fuel : ℕ) (hpage : completed page = some page)
    (h : lookupOf site.options site.mounts page = .error fault) :
    getAsset site prependData readerOptions (fuel + 1) page = { ended := some (.error fault) } := by
  rw [getAsset, if_neg (not_lt_of_completed hpage), h]

/-- After a lookup the run ends, or it goes on with the fallback. -/
lemma getAsset_cases (fuel : ℕ) (hpage : completed page = some page)
    (h : lookupOf site.options site.mounts page = .ok lookup) :
    ∃ served, getAsset site prependData readerOptions (fuel + 1) page = served.after lookup ∧
      ((∃ newPath, spaFallback site.options page = .ok (some newPath) ∧
          served = getAsset site prependData readerOptions fuel newPath) ∨
        served.lookups = [] ∧ ((∃ fault, site.read readerOptions lookup = .error fault ∧
          served.ended = some (.error fault)) ∨
          served.ended ≠ some (.error .undefinedBehaviour))) := by
  rw [getAsset, if_neg (not_lt_of_completed hpage), h]
  refine ⟨_, rfl, ?_⟩
  cases hread : site.read readerOptions lookup with
  | error fault => exact .inr ⟨rfl, .inl ⟨fault, rfl, rfl⟩⟩
  | ok file =>
      by_cases hstatus : file.status = .NE_ST_OK
      · exact .inr (by simp [hstatus])
      · simp only [hstatus, if_false]
        cases hspa : spaFallback site.options page with
        | error fault =>
            refine .inr ⟨rfl, .inr fun hundef => spaFallback_defined site.options page ?_⟩
            simpa [hspa] using hundef
        | ok newPath =>
            cases newPath with
            | none => exact .inr (by simp)
            | some newPath => exact .inl ⟨newPath, rfl, rfl⟩

/-- Where nothing can be found, the run goes on with the fallback. -/
lemma getAsset_of_spaFallback (fuel : ℕ) (hpage : completed page = some page)
    (h : lookupOf site.options site.mounts page = .ok lookup)
    (hread : site.read readerOptions lookup = .ok { status := .NE_FS_FILRDER })
    (hspa : spaFallback site.options page = .ok (some newPath)) :
    getAsset site prependData readerOptions (fuel + 1) page =
      (getAsset site prependData readerOptions fuel newPath).after lookup := by
  rw [getAsset, if_neg (not_lt_of_completed hpage), h]
  simp [hread, hspa]

/-- A path that needs completion is looked up as its completion, one step later. -/
lemma getAsset_completed (fuel : ℕ) (h : completed path = some page) (hne : page ≠ path) :
    getAsset site prependData readerOptions (fuel + 1) path =
      getAsset site prependData readerOptions fuel page := by
  unfold completed at h
  split_ifs at h with hsplit
  · obtain ⟨c, hc, rfl⟩ := Option.map_eq_some_iff.mp h
    rw [getAsset, if_pos hsplit, hc]
  · exact absurd (Option.some.inj h).symm hne

/-- A run looks first where the completed path leads to. -/
lemma head_lookups_getAsset (fuel : ℕ) (hpage : completed path = some page)
    (h : lookupOf site.options site.mounts page = .ok lookup) :
    (getAsset site prependData readerOptions (fuel + 2) path).lookups.head? = some lookup := by
  have hself := completed_completed hpage
  by_cases hne : page = path
  · obtain ⟨served, heq, -⟩ := getAsset_cases site (fuel + 1) hself h
    rw [← hne, heq]
    rfl
  · obtain ⟨served, heq, -⟩ := getAsset_cases site fuel hself h
    rw [getAsset_completed site (fuel + 1) hpage hne, heq]
    rfl

end Runs

/-! ### The places of a request -/

/-- A property of the place a path is looked up in, which is none for a path that
is empty. -/
def PathLooks (Q : Option Lookup → Prop) (options : Json) (mounts : MountTable) (path : Str) : Prop :=
  (completed path = none → Q none) ∧
    ∀ page lookup, completed path = some page → lookupOf options mounts page = .ok lookup →
      Q (some lookup)

/-- The same of the start page that a path may fall back to. -/
structure Looks (Q : Option Lookup → Prop) (options : Json) (mounts : MountTable) (path : Str) :
    Prop where
  asked : PathLooks Q options mounts path
  fallback : ∀ page lookup newPath, completed path = some page →
    lookupOf options mounts page = .ok lookup → spaFallback options page = .ok (some newPath) →
    PathLooks Q options mounts newPath

/-- The same of a request: its decoded path asks for the script alone, or it is
looked up; an empty document root leads to no place. -/
def RequestLooks (Q : Option Lookup → Prop) (options : Json) (mounts : MountTable) (resource : Str) :
    Prop :=
  match neuserver.getDocumentRoot options with
  | .error fault => fault = .undefinedBehaviour → Q none
  | .ok documentRoot =>
      globalsOnly (servedPath (documentRoot ++ resource)) = true ∨
        Looks Q options mounts (servedPath (documentRoot ++ resource))

/-- A run looks in places of a property only, and is undefined only where there
is no place or reading at one of them is. -/
structure Served.Keeps (served : Served) (site : Site) (Q : Option Lookup → Prop) : Prop where
  places : ∀ lookup ∈ served.lookups, Q (some lookup)
  defined : served.ended = some (.error .undefinedBehaviour) →
    Q none ∨ ∃ lookup readerOptions, site.read readerOptions lookup = .error .undefinedBehaviour

/-- A run looks in places of a property only, and is not undefined. -/
structure Served.In (served : Served) (Q : Lookup → Prop) : Prop where
  places : ∀ lookup ∈ served.lookups, Q lookup
  defined : served.ended ≠ some (.error .undefinedBehaviour)

/-- There is a place, and it has a property. -/
def Placed (Q : Lookup → Prop) (place : Option Lookup) : Prop := ∃ lookup ∈ place, Q lookup

@[simp] lemma placed_none {Q : Lookup → Prop} : ¬ Placed Q none := by simp [Placed]

@[simp] lemma placed_some {Q : Lookup → Prop} {lookup : Lookup} :
    Placed Q (some lookup) ↔ Q lookup := by simp [Placed]

section Requests

variable {Q : Option Lookup → Prop} {site : Site} {globals : Option Str}
  {prependData page resource : Str} {readerOptions : fs.FileReaderOptions} {fuel : ℕ}

lemma Looks.completed (h : Looks Q options mounts path) (hpage : completed path = some page) :
    Looks Q options mounts page := by
  have hself := completed_completed hpage
  refine ⟨⟨fun hnone => ?_, fun q lookup hq hlookup => ?_⟩, fun q lookup newPath hq hlookup hspa => ?_⟩
  · rw [hself] at hnone
    cases hnone
  · obtain rfl : page = q := Option.some.inj (hself.symm.trans hq)
    exact h.asked.2 page lookup hpage hlookup
  · obtain rfl : page = q := Option.some.inj (hself.symm.trans hq)
    exact h.fallback page lookup newPath hpage hlookup hspa

/-- What holds of a path holds of the start page it falls back to. -/
lemma Looks.startPage (h : Looks Q options mounts path) (hpage : router.completed path = some page)
    (hlookup : lookupOf options mounts page = .ok lookup)
    (hspa : spaFallback options page = .ok (some newPath)) : Looks Q options mounts newPath := by
  have hplaces := h.fallback page lookup newPath hpage hlookup hspa
  refine ⟨hplaces, fun q lookup' newPath' _ _ hspa' => ?_⟩
  have hstart := startPage_of_spaFallback hspa
  obtain rfl : newPath = newPath' :=
    Except.ok.inj (hstart.symm.trans (startPage_of_spaFallback hspa'))
  exact hplaces

/-- An empty path is indexed at its last character. -/
lemma getAsset_of_completed_eq_none (fuel : ℕ) (h : completed path = none) :
    getAsset site prependData readerOptions (fuel + 1) path =
      { ended := some (.error .undefinedBehaviour) } := by
  unfold completed at h
  split_ifs at h with hsplit
  have hlast : path.getLast? = none := Option.map_eq_none_iff.mp h
  rw [getAsset, if_pos hsplit, hlast]

/-- Every run of `getAsset` looks in the places of its path. -/
lemma keeps_getAsset {documentRoot : Str}
    (hroot : neuserver.getDocumentRoot site.options = .ok documentRoot) (fuel : ℕ)
    (h : Looks Q site.options site.mounts path) :
    (getAsset site prependData readerOptions fuel path).Keeps site Q := by
  induction fuel generalizing path with
  | zero => exact ⟨by simp [getAsset], nofun⟩
  | succ fuel ih =>
      cases hpage : completed path with
      | none =>
          rw [getAsset_of_completed_eq_none fuel hpage]
          exact ⟨by simp, fun _ => .inl (h.asked.1 hpage)⟩
      | some page =>
          by_cases hne : page = path
          · subst hne
            cases hlookup : lookupOf site.options site.mounts page with
            | error fault =>
                rw [getAsset_of_fault site fuel hpage hlookup]
                refine ⟨by simp, fun hfault => absurd hlookup ?_⟩
                obtain rfl : fault = .undefinedBehaviour := by simpa using hfault
                exact lookupOf_defined hroot page
            | ok lookup =>
                have hplace := h.asked.2 page lookup hpage hlookup
                obtain ⟨served, hserved, hrest⟩ := getAsset_cases site fuel hpage hlookup
                rw [hserved]
                rcases hrest with ⟨newPath, hspa, rfl⟩ | ⟨hnone, hended⟩
                · have hkeeps := ih (h.startPage hpage hlookup hspa)
                  exact ⟨List.forall_mem_cons.mpr ⟨hplace, hkeeps.places⟩, hkeeps.defined⟩
                · refine ⟨by simpa [Served.after, hnone] using hplace, fun hundef => .inr ?_⟩
                  rcases hended with ⟨fault, hread, hfault⟩ | hended
                  · obtain rfl : fault = .undefinedBehaviour := by
                      simpa [Served.after, hfault] using hundef
                    exact ⟨lookup, readerOptions, hread⟩
                  · exact absurd hundef hended
          · rw [getAsset_completed site fuel hpage hne]
            exact ih (h.completed hpage)

lemma serve_of_globalsOnly (h : globalsOnly (servedPath path) = true) :
    (serve site globals readerOptions fuel path).Keeps site Q := by
  simp only [globalsOnly, Bool.and_eq_true, Bool.not_eq_true'] at h
  cases globals with
  | none => exact ⟨by simp [serve, h], by simp [serve, h]⟩
  | some script => exact ⟨by simp [serve, h], by simp [serve, h]⟩

/-- Every run of `serve` looks in the places of its decoded path. -/
lemma keeps_serve {documentRoot : Str}
    (hroot : neuserver.getDocumentRoot site.options = .ok documentRoot)
    (h : Looks Q site.options site.mounts (servedPath path)) :
    (serve site globals readerOptions fuel path).Keeps site Q := by
  simp only [serve]
  split_ifs
  · cases globals with
    | none => exact ⟨by simp, by simp⟩
    | some script => exact keeps_getAsset hroot fuel h
  · cases globals with
    | none => exact ⟨by simp, by simp⟩
    | some script => exact ⟨by simp, by simp⟩
  · exact keeps_getAsset hroot fuel h

/-- A request whose path has one place, and no start page to fall back to. -/
lemma requestLooks_of_lookup {root : Str} (hroot : neuserver.getDocumentRoot options = .ok root)
    (hpage : completed (servedPath (root ++ resource)) = some page)
    (hlookup : lookupOf options mounts page = .ok lookup)
    (hspa : spaFallback options page = .ok none) (h : Q (some lookup)) :
    RequestLooks Q options mounts resource := by
  unfold RequestLooks
  rw [hroot]
  refine .inr ⟨⟨fun hnone => ?_, fun page' lookup' hpage' hlookup' => ?_⟩,
    fun page' _ newPath hpage' _ hspa' => ?_⟩
  · rw [hpage] at hnone
    cases hnone
  · obtain rfl : page = page' := Option.some.inj (hpage.symm.trans hpage')
    obtain rfl : lookup = lookup' := Except.ok.inj (hlookup.symm.trans hlookup')
    exact h
  · obtain rfl : page = page' := Option.some.inj (hpage.symm.trans hpage')
    rw [hspa] at hspa'
    cases hspa'

/-- **Every run of a request** looks in the places of the request. -/
theorem keeps_handleHTTP (h : RequestLooks Q site.options site.mounts resource) :
    (neuserver.handleHTTP site globals readerOptions fuel resource).Keeps site Q := by
  unfold RequestLooks at h
  cases hroot : neuserver.getDocumentRoot site.options with
  | error fault =>
      rw [hroot] at h
      rw [neuserver.handleHTTP_of_error hroot]
      exact ⟨by simp, fun hfault => .inl (h (by simpa using hfault))⟩
  | ok documentRoot =>
      rw [hroot] at h
      rw [neuserver.handleHTTP_of_ok hroot]
      rcases h with h | h
      · exact serve_of_globalsOnly h
      · exact keeps_serve hroot h

end Requests

/-! ### Runs where nothing can be found -/

section EmptyDisk

variable {Q : Lookup → Prop} {appPath resource page : Str} {readerOptions : fs.FileReaderOptions}
  {fuel : ℕ}

/-- Every run of a path, with nothing on the disk, is in places of a property. -/
def AlwaysIn (Q : Lookup → Prop) (options : Json) (mounts : MountTable) (appPath path : Str) : Prop :=
  ∀ fuel, (getAsset (.directory options mounts appPath .empty) [] {} fuel path).In Q

lemma AlwaysIn.completed (h : AlwaysIn Q options mounts appPath path)
    (hpage : completed path = some page) : AlwaysIn Q options mounts appPath page := by
  by_cases hne : page = path
  · exact hne ▸ h
  · exact fun fuel => getAsset_completed _ fuel hpage hne ▸ h (fuel + 1)

lemma AlwaysIn.pathLooks (h : AlwaysIn Q options mounts appPath path) :
    PathLooks (Placed Q) options mounts path := by
  refine ⟨fun hnone => ?_, fun page lookup hpage hlookup => ?_⟩
  · have hdefined := (h 1).defined
    rw [getAsset_of_completed_eq_none 0 hnone] at hdefined
    exact absurd rfl hdefined
  · obtain ⟨served, hserved, -⟩ :=
      getAsset_cases (.directory options mounts appPath .empty) 0 (completed_completed hpage) hlookup
    have hplaces := (h.completed hpage 1).places
    rw [hserved] at hplaces
    exact placed_some.mpr (hplaces lookup (by simp [Served.after]))

lemma AlwaysIn.looks (h : AlwaysIn Q options mounts appPath path) :
    Looks (Placed Q) options mounts path := by
  refine ⟨h.pathLooks, fun page lookup newPath hpage hlookup hspa => ?_⟩
  have hread : (Site.directory options mounts appPath .empty).read {} lookup =
      .ok { status := .NE_FS_FILRDER } := by
    cases lookup <;> rfl
  have hstart : AlwaysIn Q options mounts appPath newPath := by
    intro fuel
    have hin := h.completed hpage (fuel + 1)
    rw [getAsset_of_spaFallback _ fuel (completed_completed hpage) hlookup hread hspa] at hin
    exact ⟨fun l hl => hin.places l (by simp [Served.after, hl]), hin.defined⟩
  exact hstart.pathLooks

lemma serve_of_not_globalsOnly (h : globalsOnly (servedPath path) = false) :
    serve site (some []) readerOptions fuel path =
      getAsset site [] readerOptions fuel (servedPath path) := by
  by_cases hlib : clientLibrary.test (servedPath path) = true
  · simp [serve, hlib]
  · have hglobals : globalsRequest.test (servedPath path) = false := by
      simpa [globalsOnly, hlib] using h
    simp [serve, hlib, hglobals]

/-- **The places of a request** are those that runs on an empty disk look in. -/
theorem requestLooks_of_in
    (h : ∀ fuel, (neuserver.handleHTTP (.directory options mounts appPath .empty) (some []) {} fuel
      resource).In Q) : RequestLooks (Placed Q) options mounts resource := by
  unfold RequestLooks
  cases hroot : neuserver.getDocumentRoot options with
  | error fault =>
      have hdefined := (h 0).defined
      rw [neuserver.handleHTTP_of_error hroot] at hdefined
      exact fun hfault => absurd (by simp [hfault]) hdefined
  | ok documentRoot =>
      by_cases hglobals : globalsOnly (servedPath (documentRoot ++ resource)) = true
      · exact .inl hglobals
      · have halways : AlwaysIn Q options mounts appPath (servedPath (documentRoot ++ resource)) := by
          intro fuel
          have hin := h fuel
          rwa [neuserver.handleHTTP_of_ok hroot,
            serve_of_not_globalsOnly (by simpa using hglobals)] at hin
        exact .inr halways.looks

end EmptyDisk

end router

end Neutralino
