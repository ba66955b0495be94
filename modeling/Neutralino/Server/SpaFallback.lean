import Neutralino.Server.Completion
import Neutralino.Server.ScriptHeaders

/-!
The fallback of single-page serving to the main `index.html`.

* `Serving`: the options that are read, with the document root as it is spelled.
* `requestPath`, `startOf`: the path of a request, below the root as it is meant, and
  the path that is fallen back to.
* `ServesMain`: a directory without an index page is answered with the main one.
* `FallsBack`: the condition.
* `singlePage_iff`: **when single pages are served**.  The fallback takes the root as
  it is spelled, a request takes it without its last slash.
-/

namespace Neutralino.router

/-! ### Roots, requests and the start page -/

/-- The options of single-page serving; a document root that is not set is null. -/
structure Serving (options : Json) (documentRoot : Option Str) (url : Str) : Prop where
  serving : settings.getOptionForCurrentMode options "singlePageServe" = .ok (.bool true)
  documentRoot_eq : settings.getOptionForCurrentMode options "documentRoot" =
    .ok (documentRoot.elim .null .str)
  url_eq : settings.getOptionForCurrentMode options "url" = .ok (.str url)

/-- The directory that a document root means: a final slash makes no difference. -/
def rootOf : Option Str → Str
  | none => []
  | some documentRoot =>
      if documentRoot.getLast? = some '/' then documentRoot.dropLast else documentRoot

/-- The path of a request below a document root, decoded and without its query. -/
def requestPath (documentRoot : Option Str) (resource : Str) : Str :=
  servedPath (rootOf documentRoot ++ resource)

/-- The start page of the options. -/
def startOf (documentRoot : Option Str) (url : Str) : Str :=
  documentRoot.elim url (· ++ "index.html".toList)

/-- A directory is answered with the main index page: on every site with these
options on which the main page is there, and the directory has none of its own. -/
def ServesMain (documentRoot : Option Str) (url resource main : Str) : Prop :=
  ∀ (site : Site) (script : Str) (readerOptions : fs.FileReaderOptions)
    (file own : fs.FileReaderResult), Serving site.options documentRoot url →
    site.fileAt readerOptions main = .ok file → file.status = .NE_ST_OK →
    site.fileAt readerOptions (withIndex (requestPath documentRoot resource)) = .ok own →
    own.status ≠ .NE_ST_OK →
      ∃ fuel, (neuserver.handleHTTP site (some script) readerOptions fuel resource).ended =
        some (.ok (respond main [] readerOptions file))

/-- Single pages are served: a directory is answered with the main page, and so it
is with a slash after the document root. -/
structure SinglePage (documentRoot : Option Str) (url resource main : Str) : Prop where
  serves : ServesMain documentRoot url resource main
  slash : ∀ root, documentRoot = some root → root.getLast? ≠ some '/' →
    ServesMain (some (root ++ ['/'])) url resource main

/-- The condition on one spelling of the root: the index page of the directory is the
main page itself; or the root is not an empty text, the request is none for a
script, and its path leads to the main page, or is completed, to a page that the
fallback knows, and so is the start page, to the main page. -/
def FallsBack (documentRoot : Option Str) (url resource main : Str) : Prop :=
  let path := requestPath documentRoot resource
  withIndex path = main ∨
    documentRoot ≠ some [] ∧ clientLibrary.test path = false ∧ globalsRequest.test path = false ∧
      (completed path = some main ∨
        completed path = some (withIndex path) ∧ indexPage.test (withIndex path) = true ∧
          completed (startOf documentRoot url) = some main)

section Options

variable {options : Json} {documentRoot : Option Str} {url : Str}

/-- The document root of a request is the one that is meant, unless it is empty. -/
lemma Serving.getDocumentRoot (h : Serving options documentRoot url) :
    neuserver.getDocumentRoot options =
      if documentRoot = some [] then .error .undefinedBehaviour else .ok (rootOf documentRoot) := by
  rw [neuserver.getDocumentRoot, h.documentRoot_eq]
  cases documentRoot with
  | none => rfl
  | some root =>
      rcases List.eq_nil_or_concat' root with rfl | ⟨init, last, rfl⟩
      · rfl
      · simp only [Option.elim_some, ok_bind, Json.isNull, Bool.false_eq_true, if_false,
          Json.getString, List.getLast?_concat, List.dropLast_concat, Option.some.injEq,
          List.append_eq_nil_iff, List.cons_ne_self, and_false, rootOf]
        split_ifs
        · rfl
        · rfl

/-- The start page that is fallen back to. -/
lemma Serving.startPage (h : Serving options documentRoot url) :
    startPage options = .ok (startOf documentRoot url) := by
  rw [router.startPage, h.documentRoot_eq, ok_bind]
  cases documentRoot with
  | none =>
      simp only [Option.elim_none, Json.isNull, if_true, settings.getNavigationUrl, h.url_eq, ok_bind]
      rfl
  | some root => rfl

/-- What a page that is not found falls back to. -/
lemma Serving.spaFallback (h : Serving options documentRoot url) (page : Str) :
    spaFallback options page =
      .ok (if indexPage.test page = true ∧ startOf documentRoot url ≠ page then
        some (startOf documentRoot url) else none) := by
  rw [router.spaFallback, h.serving, ok_bind, if_neg (by simp [Json.isNull])]
  by_cases hindex : indexPage.test page = true
  · by_cases hstart : startOf documentRoot url = page
    · simp [hindex, hstart, h.startPage, Json.getBool, pure, Except.pure]
    · simp [hindex, hstart, h.startPage, Json.getBool, pure, Except.pure]
  · simp [hindex, Json.getBool, pure, Except.pure]

end Options

/-! ### Where the condition holds -/

section Sufficient

variable {site : Site} {prependData path page start main url resource : Str}
  {readerOptions : fs.FileReaderOptions} {file own : fs.FileReaderResult} {documentRoot : Option Str}

/-- A path whose page is found is answered with it. -/
lemma endsWith_of_found (hpage : completed path = some page)
    (hfile : site.fileAt readerOptions page = .ok file) (hstatus : file.status = .NE_ST_OK) :
    EndsWith site prependData readerOptions path
      (.ok (respond page prependData readerOptions file)) := by
  refine (endsWith_completed hpage).mpr ⟨1, ?_⟩
  rw [ended_page 0 (completed_completed hpage), hfile]
  simp [hstatus]

/-- A path whose page is missing is answered as the start page. -/
lemma endsWith_of_fallback {outcome : Except Fault Response} (hpage : completed path = some page)
    (hown : site.fileAt readerOptions page = .ok own) (hmissing : own.status ≠ .NE_ST_OK)
    (hspa : spaFallback site.options page = .ok (some start))
    (h : EndsWith site prependData readerOptions start outcome) :
    EndsWith site prependData readerOptions path outcome := by
  obtain ⟨fuel, h⟩ := h
  refine (endsWith_completed hpage).mpr ⟨fuel + 1, ?_⟩
  rw [ended_page fuel (completed_completed hpage), hown]
  simpa [hmissing, hspa] using h

/-- A request that is none for a script is answered as its path. -/
lemma handleHTTP_of_page {script : Str} (h : Serving site.options documentRoot url)
    (hroot : documentRoot ≠ some [])
    (hlibrary : clientLibrary.test (requestPath documentRoot resource) = false)
    (hglobals : globalsRequest.test (requestPath documentRoot resource) = false) (fuel : ℕ) :
    neuserver.handleHTTP site (some script) readerOptions fuel resource =
      getAsset site [] readerOptions fuel (requestPath documentRoot resource) := by
  have hok := h.getDocumentRoot
  rw [if_neg hroot] at hok
  rw [requestPath] at hlibrary hglobals
  rw [neuserver.handleHTTP_of_ok hok, serve, hlibrary, hglobals]
  rfl

/-- Under the condition the main page is served. -/
lemma servesMain_of_fallsBack (h : FallsBack documentRoot url resource main) :
    ServesMain documentRoot url resource main := by
  intro site script readerOptions file own hserving hfile hstatus hown hmissing
  rcases h with hself | ⟨hroot, hlibrary, hglobals, hpage⟩
  · rw [hself, hfile] at hown
    exact absurd (Except.ok.inj hown ▸ hstatus) hmissing
  suffices h : EndsWith site [] readerOptions (requestPath documentRoot resource)
      (.ok (respond main [] readerOptions file)) by
    obtain ⟨fuel, h⟩ := h
    exact ⟨fuel, handleHTTP_of_page hserving hroot hlibrary hglobals fuel ▸ h⟩
  rcases hpage with hpage | ⟨hpage, hindex, hstart⟩
  · exact endsWith_of_found hpage hfile hstatus
  · -- the start page is no page that is missing
    have hne : startOf documentRoot url ≠ withIndex (requestPath documentRoot resource) := by
      intro heq
      rw [heq, withIndex_completed, Option.some.injEq] at hstart
      rw [hstart, hfile] at hown
      exact hmissing (Except.ok.inj hown ▸ hstatus)
    have hspa := hserving.spaFallback (withIndex (requestPath documentRoot resource))
    rw [if_pos ⟨hindex, hne⟩] at hspa
    exact endsWith_of_fallback hpage hown hmissing hspa (endsWith_of_found hstart hfile hstatus)

end Sufficient

/-! ### Where it fails -/

section Necessary

variable {documentRoot : Option Str} {url path main resource : Str}

/-- Options with this document root and this URL. -/
def servingOptions (documentRoot : Option Str) (url : Str) : Json :=
  .obj [("documentRoot", documentRoot.elim .null .str), ("singlePageServe", .bool true),
    ("url", .str url)]

lemma serving_servingOptions (documentRoot : Option Str) (url : Str) :
    Serving (servingOptions documentRoot url) documentRoot url := by
  cases documentRoot with
  | none => exact ⟨rfl, rfl, rfl⟩
  | some root => exact ⟨rfl, rfl, rfl⟩

/-- A site with a main page, and a file at one more path. -/
def mainSite (options : Json) (main path : Str) : Site where
  options := options
  mounts := .empty
  disk := .empty
  getFile name _ :=
    if name = main then .ok { data := "main" }
    else if name = path then .ok { data := "other" }
    else .ok { status := .NE_RS_NOPATHE }

lemma fileAt_mainSite (options : Json) (main path page : Str) :
    (mainSite options main path).fileAt {} page =
      if page = main then .ok { data := "main" }
      else if page = path then .ok { data := "other" }
      else .ok { status := .NE_RS_NOPATHE } := rfl

/-- What leads to a file there, by the start page at last, is one of the two. -/
lemma completed_of_leadsToFile {asked : Str}
    (h : LeadsToFile (mainSite (servingOptions documentRoot url) main path) {} asked) :
    (completed asked = some main ∨ completed asked = some path) ∨
      (∃ page, completed asked = some page ∧ indexPage.test page = true) ∧
        (completed (startOf documentRoot url) = some main ∨
          completed (startOf documentRoot url) = some path) := by
  induction h with
  | @found asked page file hpage hfile hstatus =>
      refine .inl ?_
      rw [fileAt_mainSite] at hfile
      split_ifs at hfile with hmain hpath
      · exact .inl (hmain ▸ hpage)
      · exact .inr (hpath ▸ hpage)
      · cases hfile
        cases hstatus
  | @fallback asked page start file hpage hfile hstatus hspa hstart ih =>
      have hserving := serving_servingOptions documentRoot url
      have hspa' := (hserving.spaFallback page).symm.trans hspa
      split_ifs at hspa' with hindex
      · obtain rfl := Option.some.inj (Except.ok.inj hspa')
        exact .inr ⟨⟨page, hpage, hindex.1⟩, ih.elim id And.right⟩
      · cases hspa'

/-- A run on this site that is answered with the main page. -/
lemma page_of_served {fuel : ℕ} (hne : path ≠ main) (hindex : withIndex path ≠ main)
    (h : (getAsset (mainSite (servingOptions documentRoot url) main path) [] {} fuel path).ended =
      some (.ok (respond main [] {} { data := "main" }))) :
    completed path = some (withIndex path) ∧ indexPage.test (withIndex path) = true ∧
      completed (startOf documentRoot url) = some main := by
  obtain ⟨page, file, hresponse, hlead⟩ := ended_getAsset h
  have hstatus : file.status = .NE_ST_OK := by
    by_contra hmissing
    have := congrArg Response.status hresponse
    simp [respond, hmissing] at this
  have hpath : path ≠ [] := by
    rintro rfl
    cases fuel with
    | zero => cases h
    | succ fuel => cases h
  have hcompleted := completed_eq hpath
  by_cases hdot : '.' ∈ path.dropLast
  · -- the path is looked up itself, and there is another file
    rw [if_pos hdot] at hcompleted
    cases fuel with
    | zero => cases h
    | succ fuel =>
        rw [ended_page fuel hcompleted, fileAt_mainSite, if_neg hne, if_pos rfl] at h
        have hdata := congrArg Response.data (Except.ok.inj (Option.some.inj h))
        exact absurd hdata (by simp [respond])
  · rw [if_neg hdot] at hcompleted
    have hstart : completed (startOf documentRoot url) ≠ some path := by
      intro hstart
      rw [completed_completed hstart, Option.some.injEq] at hcompleted
      exact withIndex_ne path hcompleted.symm
    rcases completed_of_leadsToFile (hlead.mp hstatus) with hfound | ⟨⟨page', hpage, hknown⟩, hfound⟩
    · rw [hcompleted, Option.some.injEq, Option.some.injEq] at hfound
      exact absurd hfound (not_or.mpr ⟨hindex, withIndex_ne path⟩)
    · obtain rfl := Option.some.inj (hcompleted.symm.trans hpage)
      exact ⟨hcompleted, hknown, hfound.resolve_right hstart⟩

lemma head_data_respond (page : Str) (readerOptions : fs.FileReaderOptions)
    (file : fs.FileReaderResult) (c : Char) (script : Str) :
    (respond page (c :: script) readerOptions file).data.head? = some c := rfl

/-- A request that is answered with the main page there is none for a script. -/
lemma not_script_of_served {site : Site} {fuel : ℕ} (hserving : Serving site.options documentRoot url)
    (h : (neuserver.handleHTTP site (some "x") {} fuel resource).ended =
      some (.ok (respond main [] {} { data := "main" }))) :
    documentRoot ≠ some [] ∧ clientLibrary.test (requestPath documentRoot resource) = false ∧
      globalsRequest.test (requestPath documentRoot resource) = false := by
  have hok := hserving.getDocumentRoot
  by_cases hempty : documentRoot = some []
  · rw [if_pos hempty] at hok
    rw [neuserver.handleHTTP_of_error hok] at h
    cases h
  rw [if_neg hempty] at hok
  refine ⟨hempty, ?_⟩
  by_cases hlibrary : clientLibrary.test (requestPath documentRoot resource) = true
  · rw [handleHTTP_of_library hok hlibrary] at h
    obtain ⟨page, file, hresponse, -⟩ := ended_getAsset h
    have hhead := congrArg (fun response => response.data.head?) hresponse
    rw [show ("x" : Str) = ['x'] from rfl, head_data_respond] at hhead
    cases hhead
  by_cases hglobals : globalsRequest.test (requestPath documentRoot resource) = true
  · rw [requestPath] at hlibrary hglobals
    rw [neuserver.handleHTTP_of_ok hok, serve, if_neg hlibrary, if_pos hglobals] at h
    cases congrArg (fun response => response.data.head?) (Except.ok.inj (Option.some.inj h))
  · exact ⟨by simpa using hlibrary, by simpa using hglobals⟩

/-- The main page is served for a directory exactly under the condition. -/
lemma servesMain_iff (hmain : completed main = some main) :
    ServesMain documentRoot url resource main ↔ FallsBack documentRoot url resource main := by
  refine ⟨fun h => ?_, servesMain_of_fallsBack⟩
  by_cases hself : withIndex (requestPath documentRoot resource) = main
  · exact .inl hself
  have hserving := serving_servingOptions documentRoot url
  obtain ⟨fuel, hended⟩ := h
    (mainSite (servingOptions documentRoot url) main (requestPath documentRoot resource)) "x" {}
    { data := "main" } { status := .NE_RS_NOPATHE } hserving
    (by rw [fileAt_mainSite, if_pos rfl]) rfl
    (by rw [fileAt_mainSite, if_neg hself, if_neg (withIndex_ne _)]) (by simp)
  obtain ⟨hroot, hlibrary, hglobals⟩ := not_script_of_served hserving hended
  refine .inr ⟨hroot, hlibrary, hglobals, ?_⟩
  rw [handleHTTP_of_page hserving hroot hlibrary hglobals] at hended
  by_cases hne : requestPath documentRoot resource = main
  · exact .inl (hne ▸ hmain)
  · exact .inr (page_of_served hne hself hended)

end Necessary

/-! ### Both spellings of the root -/

/-- **Single pages are served** exactly where the condition holds of the document
root as it is spelled, and with a slash after it. -/
theorem singlePage_iff {documentRoot : Option Str} {url resource main : Str}
    (hmain : completed (requestPath documentRoot url) = some main) :
    SinglePage documentRoot url resource main ↔
      FallsBack documentRoot url resource main ∧
        ∀ root, documentRoot = some root → root.getLast? ≠ some '/' →
          FallsBack (some (root ++ ['/'])) url resource main := by
  have hself := completed_completed hmain
  constructor
  · intro h
    exact ⟨(servesMain_iff hself).mp h.serves,
      fun root hroot hslash => (servesMain_iff hself).mp (h.slash root hroot hslash)⟩
  · rintro ⟨hserves, hslash⟩
    exact ⟨(servesMain_iff hself).mpr hserves,
      fun root hroot hlast => (servesMain_iff hself).mpr (hslash root hroot hlast)⟩

/-- Below `/app/`, a directory is answered with `/app/index.html`. -/
theorem slashed_root_served :
    SinglePage (some "/app/") "/" "/docs" "/app/index.html" := by
  refine (singlePage_iff (by decide)).mpr ⟨.inr ⟨by decide, ?_⟩, ?_⟩
  · decide
  · rintro root ⟨⟩ hlast
    exact absurd rfl hlast

/-- With `/app` it is not: the fallback looks for `/appindex.html`. -/
theorem plain_root_not_served :
    completed (requestPath (some "/app") "/") = some "/app/index.html".toList ∧
      ¬ SinglePage (some "/app") "/" "/docs" "/app/index.html" := by
  refine ⟨by decide, fun h => ?_⟩
  have hfalls := (servesMain_iff (by decide)).mp h.serves
  revert hfalls
  rw [FallsBack]
  decide

end Neutralino.router
