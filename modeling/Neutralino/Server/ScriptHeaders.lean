import Neutralino.Server.RangeResponse

/-!
The headers of a response to which the script of the globals was prepended.

* `Reply`, `replyOf`: what `handleHTTP` leaves on a connection, before the
  configured headers.
* `Describes`: the headers describe the body.
* `LeadsToFile`: a path, or the start page it falls back to, is found.
* `ended_getAsset`: every response is that of one file.
* `headers_described_iff`: **when the headers describe the body**.  They are set
  before the script is glued on.
-/

namespace Neutralino

open router

/-! ### The reply of a connection -/

namespace neuserver

/-- What is set on a connection. -/
structure Reply where
  status : ℕ
  body : Str := []
  headers : List (Str × Str) := []

/-- The value of a header. -/
def Reply.header (reply : Reply) (name : Str) : Option Str :=
  (reply.headers.find? fun header => header.1 = name).map Prod.snd

/-- `replace_header`. -/
def Reply.replaceHeader (reply : Reply) (name value : Str) : Reply :=
  { reply with headers := insertMember name value reply.headers }

/-- `set_body`: the length of a body that is not empty becomes a header. -/
def Reply.setBody (reply : Reply) (value : Str) : Reply :=
  if value = [] then
    { reply with body := [], headers := reply.headers.filter fun h => h.1 ≠ "Content-Length".toList }
  else { reply.replaceHeader "Content-Length" (decimal value.length) with body := value }

/-- The end of `handleHTTP`, up to the configured headers. -/
def replyOf (response : Response) : Reply :=
  let reply := Reply.setBody { status := response.status } response.data
  let reply := reply.replaceHeader "Content-Type" response.contentType
  response.headers.foldl (fun reply header => reply.replaceHeader header.1 header.2) reply

@[simp] lemma Reply.header_replaceHeader_self (reply : Reply) (name value : Str) :
    (reply.replaceHeader name value).header name = some value := by
  rw [Reply.header, Reply.replaceHeader, find?_insertMember_self]
  rfl

lemma Reply.header_replaceHeader_ne (reply : Reply) {name name' : Str} (value : Str)
    (h : name' ≠ name) : (reply.replaceHeader name value).header name' = reply.header name' := by
  rw [Reply.header, Reply.replaceHeader, find?_insertMember_of_ne h, Reply.header]

/-- The status and the body are those of the response. -/
lemma replyOf_body (response : Response) :
    (replyOf response).status = response.status ∧ (replyOf response).body = response.data := by
  have hfold : ∀ (headers : List (Str × Str)) (reply : Reply),
      (headers.foldl (fun reply header => reply.replaceHeader header.1 header.2) reply).status =
          reply.status ∧
        (headers.foldl (fun reply header => reply.replaceHeader header.1 header.2) reply).body =
          reply.body := by
    intro headers
    induction headers with
    | nil => exact fun _ => ⟨rfl, rfl⟩
    | cons header headers ih => exact fun reply => ih (reply.replaceHeader header.1 header.2)
  obtain ⟨hstatus, hbody⟩ := hfold response.headers
    ((Reply.setBody { status := response.status } response.data).replaceHeader "Content-Type"
      response.contentType)
  rw [replyOf, hstatus, hbody, Reply.replaceHeader, Reply.setBody]
  split_ifs with hdata
  · exact ⟨rfl, hdata.symm⟩
  · exact ⟨rfl, rfl⟩

/-- The length set with a body. -/
lemma header_setBody (status : ℕ) (value : Str) :
    (Reply.setBody { status := status } value).header "Content-Length" =
      if value = [] then none else some (decimal value.length) := by
  rw [Reply.setBody]
  split_ifs
  · rfl
  · exact Reply.header_replaceHeader_self _ _ _

/-- Of the headers that are set one after another the last one counts. -/
lemma header_foldl (name : Str) (headers : List (Str × Str)) (reply : Reply) :
    (headers.foldl (fun reply header => reply.replaceHeader header.1 header.2) reply).header name =
      (headers.reverse.find? fun h => h.1 = name).elim (reply.header name) fun h => some h.2 := by
  induction headers generalizing reply with
  | nil => rfl
  | cons header headers ih =>
      rw [List.foldl_cons, ih, List.reverse_cons, List.find?_append]
      cases headers.reverse.find? fun h => h.1 = name with
      | some h => rfl
      | none =>
          by_cases hname : header.1 = name
          · simp [hname]
          · simp [hname, Reply.header_replaceHeader_ne _ _ (Ne.symm hname)]

/-- The length in the headers of a response comes before that of its body. -/
lemma header_replyOf (response : Response) :
    (replyOf response).header "Content-Length" =
      (response.headers.reverse.find? fun h => h.1 = "Content-Length".toList).elim
        (if response.data = [] then none else some (decimal response.data.length))
        fun h => some h.2 := by
  rw [replyOf, header_foldl, Reply.header_replaceHeader_ne _ _ (by decide), header_setBody]

end neuserver

/-! ### What the headers say -/

/-- The headers of a reply describe its body: a length is that of the body, a
refused range has no body, and a range is the place of the body in the script
followed by the file. -/
structure Describes (script content : Str) (reply : neuserver.Reply) : Prop where
  length : ∀ value ∈ reply.header "Content-Length", value = decimal reply.body.length
  refused : reply.status = 416 → reply.body = []
  interval : reply.status = 206 → ∃ first last total : ℕ,
    reply.header "Content-Range" = some ("bytes ".toList ++ decimal first ++ "-".toList ++
      decimal last ++ "/".toList ++ decimal total) ∧
    reply.body = ((script ++ content).take (last + 1)).drop first

namespace router

/-- A path is found, or the start page that it falls back to leads to a file. -/
inductive LeadsToFile (site : Site) (readerOptions : fs.FileReaderOptions) : Str → Prop
  | found {path page : Str} {file : fs.FileReaderResult} : completed path = some page →
      site.fileAt readerOptions page = .ok file → file.status = .NE_ST_OK →
      LeadsToFile site readerOptions path
  | fallback {path page start : Str} {file : fs.FileReaderResult} : completed path = some page →
      site.fileAt readerOptions page = .ok file → file.status ≠ .NE_ST_OK →
      spaFallback site.options page = .ok (some start) → LeadsToFile site readerOptions start →
      LeadsToFile site readerOptions path

section Responses

variable {site : Site} {prependData path page : Str} {readerOptions : fs.FileReaderOptions}

/-- A path leads to a file where its completion does. -/
lemma leadsToFile_completed (hpage : completed path = some page) :
    LeadsToFile site readerOptions path ↔ LeadsToFile site readerOptions page := by
  have hself := completed_completed hpage
  constructor
  · intro h
    cases h with
    | found hpage' hfile hstatus =>
        obtain rfl := Option.some.inj (hpage.symm.trans hpage')
        exact .found hself hfile hstatus
    | fallback hpage' hfile hstatus hspa hstart =>
        obtain rfl := Option.some.inj (hpage.symm.trans hpage')
        exact .fallback hself hfile hstatus hspa hstart
  · intro h
    cases h with
    | found hpage' hfile hstatus =>
        obtain rfl := Option.some.inj (hself.symm.trans hpage')
        exact .found hpage hfile hstatus
    | fallback hpage' hfile hstatus hspa hstart =>
        obtain rfl := Option.some.inj (hself.symm.trans hpage')
        exact .fallback hpage hfile hstatus hspa hstart

/-- A page that is read leads to a file if it is found, or if its fallback does. -/
lemma leadsToFile_iff {file : fs.FileReaderResult} (hpage : completed page = some page)
    (hfile : site.fileAt readerOptions page = .ok file) :
    LeadsToFile site readerOptions page ↔ file.status = .NE_ST_OK ∨
      ∃ start, spaFallback site.options page = .ok (some start) ∧
        LeadsToFile site readerOptions start := by
  constructor
  · intro h
    cases h with
    | found hpage' hfile' hstatus =>
        obtain rfl := Option.some.inj (hpage.symm.trans hpage')
        obtain rfl := Except.ok.inj (hfile.symm.trans hfile')
        exact .inl hstatus
    | fallback hpage' hfile' hstatus hspa hstart =>
        obtain rfl := Option.some.inj (hpage.symm.trans hpage')
        exact .inr ⟨_, hspa, hstart⟩
  · intro h
    by_cases hstatus : file.status = .NE_ST_OK
    · exact .found hpage hfile hstatus
    · obtain ⟨start, hspa, hstart⟩ := h.resolve_left hstatus
      exact .fallback hpage hfile hstatus hspa hstart

/-- **Every response is that of one file**, which is there if the path leads to one. -/
theorem ended_getAsset {fuel : ℕ} {response : Response}
    (h : (getAsset site prependData readerOptions fuel path).ended = some (.ok response)) :
    ∃ page file, response = respond page prependData readerOptions file ∧
      (file.status = .NE_ST_OK ↔ LeadsToFile site readerOptions path) := by
  induction fuel generalizing path with
  | zero => cases h
  | succ fuel ih =>
      cases hpage : completed path with
      | none =>
          rw [getAsset_of_completed_eq_none fuel hpage] at h
          cases h
      | some page =>
          by_cases hne : page = path
          · subst hne
            rw [ended_page fuel hpage] at h
            cases hfile : site.fileAt readerOptions page with
            | error fault =>
                rw [hfile] at h
                cases h
            | ok file =>
                simp only [hfile] at h
                rw [leadsToFile_iff hpage hfile]
                by_cases hstatus : file.status = .NE_ST_OK
                · rw [if_pos hstatus] at h
                  cases h
                  exact ⟨page, file, rfl, by simp [hstatus]⟩
                · rw [if_neg hstatus] at h
                  cases hspa : spaFallback site.options page with
                  | error fault =>
                      rw [hspa] at h
                      cases h
                  | ok start =>
                      rw [hspa] at h
                      cases start with
                      | none =>
                          cases h
                          exact ⟨page, file, rfl, by simp [hstatus]⟩
                      | some start =>
                          obtain ⟨page', file', hresponse, hlead⟩ := ih h
                          exact ⟨page', file', hresponse, by simp [hstatus, hlead]⟩
          · rw [getAsset_completed site fuel hpage hne] at h
            rw [leadsToFile_completed hpage]
            exact ih h

end Responses

/-! ### The result -/

/-- Without headers of its own a response is described by the length of its body. -/
lemma describes_of_headers_eq_nil {script content : Str} {response : Response}
    (hheaders : response.headers = []) (hrefused : response.status ≠ 416)
    (hwhole : response.status ≠ 206) :
    Describes script content (neuserver.replyOf response) := by
  obtain ⟨hstatus, hbody⟩ := neuserver.replyOf_body response
  have hheader := neuserver.header_replyOf response
  rw [hheaders] at hheader
  refine ⟨fun value hvalue => ?_, fun h => absurd (hstatus ▸ h) hrefused,
    fun h => absurd (hstatus ▸ h) hwhole⟩
  rw [hheader, List.reverse_nil, List.find?_nil, Option.elim_none] at hvalue
  by_cases hdata : response.data = []
  · rw [if_pos hdata] at hvalue
    cases hvalue
  · rw [if_neg hdata] at hvalue
    rw [hbody]
    exact (Option.mem_some_iff.mp hvalue).symm

/-- A length that is set for less than the body does not describe it. -/
lemma not_describes_of_lt {script content : Str} {response : Response} {length : ℕ}
    (hheader : response.headers.reverse.find? (fun h => h.1 = "Content-Length".toList) =
      some ("Content-Length".toList, decimal length))
    (hlt : length < response.data.length) :
    ¬ Describes script content (neuserver.replyOf response) := by
  intro h
  have hvalue := h.length (decimal length)
    (by rw [neuserver.header_replyOf, hheader, Option.elim_some, Option.mem_def])
  rw [(neuserver.replyOf_body response).2] at hvalue
  exact absurd (decimal_injective hvalue) hlt.ne

/-- The headers of the response for a file describe it if no position is asked for,
or the file is missing. -/
lemma describes_respond_iff {page script content : Str} {readerOptions : fs.FileReaderOptions}
    {file : fs.FileReaderResult} (hscript : script ≠ []) :
    Describes script content (neuserver.replyOf (respond page script readerOptions file)) ↔
      readerOptions.pos ≤ -1 ∨ file.status ≠ .NE_ST_OK := by
  have hlength := List.length_pos_iff.mpr hscript
  by_cases hstatus : file.status = .NE_ST_OK
  · by_cases hpos : readerOptions.pos ≤ -1
    · refine iff_of_true (describes_of_headers_eq_nil ?_ ?_ ?_) (.inl hpos)
      all_goals simp [respond, hstatus, hpos]
    · refine iff_of_false ?_ (by simp [hpos, hstatus])
      by_cases hsize : file.size ≤ readerOptions.pos
      · refine @not_describes_of_lt _ _ _ 0 ?_ ?_
        · simp only [respond, hstatus, hpos, hsize]
          rfl
        · simp [respond, hstatus, hpos, hsize, hlength]
      · refine @not_describes_of_lt _ _ _ file.data.length ?_ ?_
        · simp only [respond, hstatus, hpos, hsize]
          rfl
        · simp [respond, hstatus, hpos, hsize, hlength]
  · refine iff_of_true (describes_of_headers_eq_nil ?_ ?_ ?_) (.inr hstatus)
    all_goals simp [respond, hstatus]

section Requests

variable {site : Site} {documentRoot script resource : Str} {readerOptions : fs.FileReaderOptions}
  {fuel : ℕ} {response : Response}

/-- A request for the client library is answered with the script in front. -/
lemma handleHTTP_of_library (hroot : neuserver.getDocumentRoot site.options = .ok documentRoot)
    (hlibrary : clientLibrary.test (servedPath (documentRoot ++ resource)) = true) :
    neuserver.handleHTTP site (some script) readerOptions fuel resource =
      getAsset site script readerOptions fuel (servedPath (documentRoot ++ resource)) := by
  rw [neuserver.handleHTTP_of_ok hroot, serve, if_pos hlibrary]

/-- **The headers describe the body** of a response with the script exactly when no
position is asked for, or the path leads to no file. -/
theorem headers_described_iff (hroot : neuserver.getDocumentRoot site.options = .ok documentRoot)
    (hlibrary : clientLibrary.test (servedPath (documentRoot ++ resource)) = true)
    (hscript : script ≠ [])
    (h : (neuserver.handleHTTP site (some script) readerOptions fuel resource).ended =
      some (.ok response)) (content : Str) :
    Describes script content (neuserver.replyOf response) ↔
      readerOptions.pos ≤ -1 ∨
        ¬ LeadsToFile site readerOptions (servedPath (documentRoot ++ resource)) := by
  rw [handleHTTP_of_library hroot hlibrary] at h
  obtain ⟨page, file, rfl, hlead⟩ := ended_getAsset h
  rw [describes_respond_iff hscript, ← hlead]

end Requests

/-- A site on which every resource is the sample file. -/
def greetingSite : Site := Site.of (.obj []) .empty resources.greetingDisk (.dir "/app")

lemma greetingSite_getDocumentRoot : neuserver.getDocumentRoot greetingSite.options = .ok [] := rfl

/-- The name of the client library. -/
lemma clientLibrary_test : clientLibrary.test (servedPath ([] ++ "/neutralino.js".toList)) = true := by
  decide

/-- The library is answered with the sample file after the script. -/
lemma greetingSite_ended (script : Str) (readerOptions : fs.FileReaderOptions) :
    (neuserver.handleHTTP greetingSite (some script) readerOptions 1 "/neutralino.js").ended =
      some (.ok (respond "/neutralino.js" script readerOptions
        { data := resources.clip "hello world" readerOptions, size := 11 })) := by
  have hpath : servedPath ([] ++ "/neutralino.js".toList) = "/neutralino.js".toList := by decide
  have hpage : completed "/neutralino.js" = some "/neutralino.js".toList := by decide
  have hlookup : lookupOf (.obj []) {} "/neutralino.js" = .ok (.resource "/neutralino.js") := rfl
  have hhas : (Lookup.resource "/neutralino.js").Has resources.greetingDisk (.dir "/app")
      "hello world" := rfl
  have hfile := fileAt_of_has hlookup hhas readerOptions
  rw [handleHTTP_of_library greetingSite_getDocumentRoot clientLibrary_test, hpath,
    ended_page 0 hpage, greetingSite, hfile]
  rfl

/-- The whole library is described by its headers. -/
theorem whole_library_described :
    ∃ response, (neuserver.handleHTTP greetingSite (some "let x;") {} 1 "/neutralino.js").ended =
        some (.ok response) ∧ Describes "let x;" "hello world" (neuserver.replyOf response) :=
  ⟨_, greetingSite_ended _ _, (headers_described_iff greetingSite_getDocumentRoot clientLibrary_test
    (by decide) (greetingSite_ended "let x;" {}) "hello world").mpr (.inl (by decide))⟩

/-- A range of the library is announced with the length of the file's part alone. -/
theorem library_range_not_described :
    ∃ response, (neuserver.handleHTTP greetingSite (some "let x;") { pos := 0 } 1
        "/neutralino.js").ended = some (.ok response) ∧
      ¬ Describes "let x;" "hello world" (neuserver.replyOf response) :=
  ⟨_, greetingSite_ended _ _, fun h =>
    absurd ((describes_respond_iff (by decide)).mp h) (by decide)⟩

end router

end Neutralino
