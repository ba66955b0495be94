import Mathlib.Data.List.DropRight
import Neutralino.Server.StartPage

/-!
The completion of a directory path by `index.html`.

* `lastSegment`, `withIndex`: the text after the last slash, and a path followed by
  `/index.html`.
* `EndsWith`: `getAsset` makes finitely many calls and comes to an outcome.
* `CompletesLast`: the last segment decides on the completion.
* `completed_eq`: the dots that the code looks at.
* `completes_iff`: **when the last segment decides**.  The code counts the pieces
  between the dots of the whole path.
-/

namespace Neutralino.router

/-! ### The last segment -/

/-- The last segment of a path: what stands after its last slash. -/
def lastSegment (path : Str) : Str := path.rtakeWhile fun c => c ≠ '/'

/-- A path followed by `index.html`, after one slash. -/
def withIndex (path : Str) : Str :=
  (if path.getLast? = some '/' then path else path ++ ['/']) ++ "index.html".toList

lemma length_lt_withIndex (path : Str) : path.length < (withIndex path).length := by
  unfold withIndex
  split_ifs
  all_goals simp

lemma withIndex_ne (path : Str) : withIndex path ≠ path := fun h =>
  (length_lt_withIndex path).ne' (congrArg List.length h)

/-! ### The dots that are looked at -/

/-- A path is completed if no dot stands before its last character. -/
lemma completed_eq {path : Str} (hne : path ≠ []) :
    completed path = some (if '.' ∈ path.dropLast then path else withIndex path) := by
  rw [completed]
  by_cases hdot : '.' ∈ path.dropLast
  · rw [if_neg (mt (length_split_lt_two_iff path).mp (not_not_intro hdot)), if_pos hdot]
  · rw [if_pos ((length_split_lt_two_iff path).mpr hdot), if_neg hdot, withIndex,
      List.getLast?_eq_some_getLast hne, Option.map_some]
    simp only [Option.some.injEq]

/-! ### Outcomes -/

/-- `getAsset` makes finitely many calls on a path and comes to an outcome. -/
def EndsWith (site : Site) (prependData : Str) (readerOptions : fs.FileReaderOptions) (path : Str)
    (outcome : Except Fault Response) : Prop :=
  ∃ fuel, (getAsset site prependData readerOptions fuel path).ended = some outcome

/-- The last segment of a path decides on its completion: without a dot in it the
outcome is that of the completed path, and with one the path is looked up itself. -/
structure CompletesLast (path : Str) : Prop where
  directory : '.' ∉ lastSegment path → ∀ site prependData readerOptions outcome,
    EndsWith site prependData readerOptions path outcome ↔
      EndsWith site prependData readerOptions (withIndex path) outcome
  file : '.' ∈ lastSegment path → ∀ (site : Site) prependData readerOptions fuel lookup,
    lookupOf site.options site.mounts path = .ok lookup →
      (getAsset site prependData readerOptions (fuel + 2) path).lookups.head? = some lookup

section Outcomes

variable {site : Site} {prependData path page : Str} {readerOptions : fs.FileReaderOptions}
  {outcome : Except Fault Response}

/-- A path ends as its completion does. -/
lemma endsWith_completed (hpage : completed path = some page) :
    EndsWith site prependData readerOptions path outcome ↔
      EndsWith site prependData readerOptions page outcome := by
  by_cases hne : page = path
  · rw [hne]
  constructor
  · rintro ⟨fuel, h⟩
    cases fuel with
    | zero => cases h
    | succ fuel => exact ⟨fuel, getAsset_completed site fuel hpage hne ▸ h⟩
  · rintro ⟨fuel, h⟩
    exact ⟨fuel + 1, (getAsset_completed site fuel hpage hne).symm ▸ h⟩

/-- A site on which every resource is the text of its own name. -/
def namedSite : Site where
  options := .obj []
  mounts := .empty
  disk := .empty
  getFile name _ := .ok { data := name }

lemma lookupOf_namedSite (path : Str) :
    lookupOf namedSite.options namedSite.mounts path = .ok (.resource path) := rfl

/-- There a page is answered with its name. -/
lemma endsWith_namedSite (hpage : completed page = some page) :
    EndsWith namedSite [] {} page outcome ↔ outcome = .ok (respond page [] {} { data := page }) := by
  have hended : ∀ fuel, (getAsset namedSite [] {} (fuel + 1) page).ended =
      some (.ok (respond page [] {} { data := page })) := by
    intro fuel
    rw [ended_page fuel hpage]
    rfl
  constructor
  · rintro ⟨fuel, h⟩
    cases fuel with
    | zero => cases h
    | succ fuel => exact (Option.some.inj ((hended fuel).symm.trans h)).symm
  · rintro rfl
    exact ⟨1, hended 0⟩

/-- Pages with the same outcomes there have the same name. -/
lemma eq_of_endsWith_namedSite {page' : Str} (hpage : completed page = some page)
    (hpage' : completed page' = some page')
    (h : ∀ outcome, EndsWith namedSite [] {} page outcome ↔ EndsWith namedSite [] {} page' outcome) :
    page = page' := by
  have hended := (h _).mp ((endsWith_namedSite hpage).mpr rfl)
  have hdata := congrArg Response.data (Except.ok.inj ((endsWith_namedSite hpage').mp hended))
  simpa [respond] using hdata

end Outcomes

/-! ### The result -/

lemma withIndex_completed (path : Str) : completed (withIndex path) = some (withIndex path) := by
  have hne : withIndex path ≠ [] := by
    simp [withIndex]
  rw [completed_eq hne, if_pos]
  rw [withIndex, List.dropLast_append_of_ne_nil (by decide)]
  exact List.mem_append_right _ (by decide)

/-- **The last segment decides** on the completion of a path exactly when the path is
not empty, and its last segment has a dot if one stands before its last character. -/
theorem completes_iff (path : Str) :
    CompletesLast path ↔ path ≠ [] ∧ ('.' ∈ lastSegment path ↔ '.' ∈ path.dropLast) := by
  have hindex := withIndex_completed path
  by_cases hnil : path = []
  · subst hnil
    refine iff_of_false (fun h => ?_) (by simp)
    have hundefined : EndsWith namedSite [] {} [] (.error .undefinedBehaviour) :=
      ⟨1, rfl⟩
    have hended := (h.directory (by decide) namedSite [] {} _).mp hundefined
    cases (endsWith_namedSite hindex).mp hended
  have hcompleted := completed_eq hnil
  by_cases hdot : '.' ∈ path.dropLast
  · rw [if_pos hdot] at hcompleted
    constructor
    · intro h
      refine ⟨hnil, iff_of_true ?_ hdot⟩
      by_contra hlast
      exact withIndex_ne path (eq_of_endsWith_namedSite hcompleted hindex
        (h.directory hlast namedSite [] {})).symm
    · rintro ⟨-, hlast⟩
      refine ⟨fun hdirectory => absurd (hlast.mpr hdot) hdirectory, ?_⟩
      intro _ site prependData readerOptions fuel lookup hlookup
      exact head_lookups_getAsset site fuel hcompleted hlookup
  · rw [if_neg hdot] at hcompleted
    constructor
    · intro h
      refine ⟨hnil, iff_of_false (fun hlast => ?_) hdot⟩
      have hhead : (getAsset namedSite [] {} 2 path).lookups.head? = some (.resource _) :=
        head_lookups_getAsset namedSite 0 hcompleted (lookupOf_namedSite _)
      rw [h.file hlast namedSite [] {} 0 _ (lookupOf_namedSite path)] at hhead
      exact withIndex_ne path (Lookup.resource.inj (Option.some.inj hhead)).symm
    · rintro ⟨-, hlast⟩
      refine ⟨fun _ site prependData readerOptions outcome => endsWith_completed hcompleted,
        fun hfile => absurd (hlast.mp hfile) hdot⟩

/-- A path below a directory with a dot in its name is looked up as it stands. -/
theorem dotted_directory_not_completed : ¬ CompletesLast "/v1.0/docs" := by
  intro h
  have hpage : completed "/v1.0/docs" = some "/v1.0/docs".toList := by decide
  have hsame := h.directory (by decide) namedSite [] {}
  exact withIndex_ne _ (eq_of_endsWith_namedSite hpage (withIndex_completed _) hsame).symm

end Neutralino.router
