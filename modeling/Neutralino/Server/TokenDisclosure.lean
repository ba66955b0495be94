import Neutralino.Config.GlobalVars
import Neutralino.Library.Runs
import Neutralino.Server.StartPage

/-!
Which requests and window injections disclose the access token.

* `Action`: a request to the static server, or an injection into a window, with
  what each of them reads.
* `called`: the call of `getGlobalVars` it makes; `serve` makes it before it
  knows what the path leads to.
* `told`, `tellings`: the tokens told in the scripts of an action and of a run.
* `Proper`: what a request may do to the token.
* `WellAsked`: the condition on a request, as long as the token is unsent.
* `disclosure_iff`: **the token is disclosed once, and properly**, along exactly
  the runs of such requests.
-/

namespace Neutralino.authbasic

open neuserver settings router Regex Runs

/-- A request to the static server, or an injection into a window. -/
inductive Action where
  | request (site : Site) (around : Surroundings) (readerOptions : fs.FileReaderOptions)
      (resource : Str)
  | injectGlobals (around : Surroundings) (options : Json)
  | injectClientLibrary (site : Site) (around : Surroundings)

/-- The path that a request is served by. -/
def requestedPath (site : Site) (resource : Str) : Except Fault Str := do
  return servedPath ((← getDocumentRoot site.options) ++ resource)

/-- `serve` calls `getGlobalVars` for a path. -/
def asksForGlobals (path : Str) : Bool := clientLibrary.test path || globalsRequest.test path

/-- `__injectClientLibrary` up to the script: whether the library is found. -/
def findsClientLibrary (site : Site) : Except Fault Bool := do
  let cli ← site.options.index "cli"
  let jClientLibrary ← cli.index "clientLibrary"
  if jClientLibrary.isNull then return false
  let clientLibPath ← jClientLibrary.getString
  let file ← site.getFile clientLibPath {}
  return file.status = .NE_ST_OK

/-- What `getGlobalVars` is called with, where an action calls it. -/
def Action.called : Action → Option (Surroundings × Json)
  | request site around _ resource =>
      match requestedPath site resource with
      | .ok path => if asksForGlobals path then some (around, site.options) else none
      | .error _ => none
  | injectGlobals around options => some (around, options)
  | injectClientLibrary site around =>
      match findsClientLibrary site with
      | .ok true => some (around, site.options)
      | _ => none

/-- The state an action leads to. -/
def after (auth : State) (action : Action) : State :=
  match action.called with
  | none => auth
  | some (around, options) => (getGlobalVars around options auth).2

/-- The token in a script, where one is generated. -/
def toldIn (auth : State) : Except Fault Str → List Str
  | .ok _ => [(getToken auth).1]
  | .error _ => []

/-- The token in the script that an action generates. -/
def told (auth : State) (action : Action) : List Str :=
  match action.called with
  | none => []
  | some (around, options) => toldIn auth (getGlobalVars around options auth).1

/-- The script that an action generates tells the access token. -/
def Discloses (auth : State) (action : Action) : Prop := auth.token ∈ told auth action

/-- One action after another. -/
def Step (auth : State) (action : Action) (auth' : State) : Prop := auth' = after auth action

/-- The tokens in the scripts that a run generates. -/
def tellings : State → List (Action × State) → List Str
  | _, [] => []
  | auth, (action, auth') :: trace => told auth action ++ tellings auth' trace

/-- A request is answered with a response. -/
def Answers (auth : State) (site : Site) (around : Surroundings)
    (readerOptions : fs.FileReaderOptions) (resource : Str) (response : Response) : Prop :=
  ∃ fuel, (handleHTTP site (getGlobalVars around site.options auth).1.toOption readerOptions fuel
    resource).ended = some (.ok response)

/-- The last segment of a path. -/
def lastSegment (path : Str) : Str := (path.reverse.takeWhile (· ≠ '/')).reverse

/-- The last segment names the client library or the script. -/
def NamesGlobals (path : Str) : Prop :=
  lastSegment path = "neutralino.js".toList ∨ lastSegment path = "__neutralino_globals.js".toList

/-- What a request may do to the token: where it discloses it, it is answered
with status 200 and asks for the library or the script by name; where it fails,
it neither carries the token nor uses it up. -/
structure ProperRequest (auth : State) (site : Site) (around : Surroundings)
    (readerOptions : fs.FileReaderOptions) (resource : Str) : Prop where
  disclosed : Discloses auth (.request site around readerOptions resource) →
    (∃ response, Answers auth site around readerOptions resource response ∧ response.status = 200) ∧
      ∃ path, requestedPath site resource = .ok path ∧ NamesGlobals path
  failed : ∀ response, Answers auth site around readerOptions resource response →
    response.status = 404 ∨ response.status = 416 →
      ¬ Discloses auth (.request site around readerOptions resource) ∧
        after auth (.request site around readerOptions resource) = auth

/-- What an action may do to the token. -/
def Proper (auth : State) : Action → Prop
  | .request site around readerOptions resource =>
      ProperRequest auth site around readerOptions resource
  | _ => True

/-- The condition on a request: while the token is unsent, a path for which a
script is generated names the library or the script, and the library is found
and no part of it is asked for. -/
def WellAsked (auth : State) : Action → Prop
  | .request site around readerOptions resource =>
      auth.tokenSent = false → ∀ path, requestedPath site resource = .ok path →
        asksForGlobals path = true →
          (∃ script, (getGlobalVars around site.options auth).1 = .ok script) →
            NamesGlobals path ∧ (clientLibrary.test path = true → readerOptions.pos ≤ -1 ∧
              ∃ file, site.fileAt readerOptions path = .ok file ∧ file.status = .NE_ST_OK)
  | _ => True

/-! ### The token -/

section Token

variable {auth : State} {action : Action} {around : Surroundings} {options : Json}

lemma getToken_of_sent (hmode : auth.tokenSecurity = .oneTime) (hsent : auth.tokenSent = true) :
    getToken auth = ([], auth) := by
  rw [getToken, if_pos ⟨hsent, hmode⟩]

lemma getToken_of_unsent (hsent : auth.tokenSent = false) :
    getToken auth = (auth.token, { auth with tokenSent := true }) := by
  rw [getToken, if_neg (by simp [hsent])]

/-- `getGlobalVars` leaves the token alone, or calls `getToken`. -/
lemma getGlobalVars_snd (around : Surroundings) (options : Json) (auth : State) :
    (getGlobalVars around options auth).2 = auth ∨
      (getGlobalVars around options auth).2 = (getToken auth).2 := by
  rw [getGlobalVars]
  cases globalVarsBefore around options with
  | error fault => exact .inl rfl
  | ok before => exact .inr rfl

lemma after_of_called (h : action.called = some (around, options)) :
    after auth action = (getGlobalVars around options auth).2 := by
  rw [after, h]

lemma told_of_called (h : action.called = some (around, options)) :
    told auth action = toldIn auth (getGlobalVars around options auth).1 := by
  rw [told, h]

lemma after_of_not_called (h : action.called = none) : after auth action = auth := by
  rw [after, h]

lemma told_of_not_called (h : action.called = none) : told auth action = [] := by
  rw [told, h]

/-- A token that was sent is not told again. -/
lemma after_of_sent (hmode : auth.tokenSecurity = .oneTime) (hsent : auth.tokenSent = true)
    (action : Action) : after auth action = auth ∧ auth.token ∉ told auth action := by
  have htoken := getToken_of_sent hmode hsent
  rcases hcalled : action.called with _ | ⟨around, options⟩
  · rw [after_of_not_called hcalled, told_of_not_called hcalled]
    exact ⟨rfl, nofun⟩
  · rw [after_of_called hcalled, told_of_called hcalled]
    refine ⟨?_, ?_⟩
    · rcases getGlobalVars_snd around options auth with h | h
      · exact h
      · rw [h, htoken]
    · cases (getGlobalVars around options auth).1 with
      | error fault => exact nofun
      | ok script => simp [toldIn, htoken, auth.token_ne_nil]

/-- A token that was not sent is in every script, and is sent then. -/
lemma told_of_unsent (hsent : auth.tokenSent = false) {script : Str}
    (hcalled : action.called = some (around, options))
    (hscript : (getGlobalVars around options auth).1 = .ok script) :
    told auth action = [auth.token] ∧ after auth action = { auth with tokenSent := true } := by
  have htoken := getToken_of_unsent hsent
  rw [after_of_called hcalled, told_of_called hcalled, hscript, (getGlobalVars_eq_ok hscript).2,
    toldIn, htoken]
  exact ⟨rfl, rfl⟩

/-- What is disclosed was not sent, and a script was generated. -/
lemma discloses_iff (hmode : auth.tokenSecurity = .oneTime) :
    Discloses auth action ↔ auth.tokenSent = false ∧ ∃ around options script,
      action.called = some (around, options) ∧
        (getGlobalVars around options auth).1 = .ok script := by
  constructor
  · intro h
    have hsent : auth.tokenSent = false := by
      by_contra hsent
      exact (after_of_sent hmode (by simpa using hsent) action).2 h
    refine ⟨hsent, ?_⟩
    rcases hcalled : action.called with _ | ⟨around, options⟩
    · rw [Discloses, told_of_not_called hcalled] at h
      cases h
    · cases hscript : (getGlobalVars around options auth).1 with
      | error fault =>
          rw [Discloses, told_of_called hcalled, hscript] at h
          cases h
      | ok script => exact ⟨around, options, script, rfl, hscript⟩
  · rintro ⟨hsent, around, options, script, hcalled, hscript⟩
    rw [Discloses, (told_of_unsent hsent hcalled hscript).1]
    exact List.mem_singleton_self _

/-- The token and its mode stay. -/
lemma after_token (auth : State) (action : Action) :
    (after auth action).token = auth.token ∧
      (after auth action).tokenSecurity = auth.tokenSecurity := by
  rcases hcalled : action.called with _ | ⟨around, options⟩
  · rw [after_of_not_called hcalled]
    exact ⟨rfl, rfl⟩
  · rw [after_of_called hcalled]
    rcases getGlobalVars_snd around options auth with h | h
    · rw [h]
      exact ⟨rfl, rfl⟩
    · rw [h, getToken]
      split_ifs
      · exact ⟨rfl, rfl⟩
      · exact ⟨rfl, rfl⟩

/-- An action tells nothing, or the token, which is sent then. -/
lemma told_cases (hsent : auth.tokenSent = false) (action : Action) :
    told auth action = [] ∨
      told auth action = [auth.token] ∧ (after auth action).tokenSent = true := by
  rcases hcalled : action.called with _ | ⟨around, options⟩
  · exact .inl (told_of_not_called hcalled)
  · cases hscript : (getGlobalVars around options auth).1 with
    | error fault =>
        rw [told_of_called hcalled, hscript]
        exact .inl rfl
    | ok script =>
        obtain ⟨htold, hafter⟩ := told_of_unsent hsent hcalled hscript
        exact .inr ⟨htold, by rw [hafter]⟩

/-- A run tells the token once at most, and never when it was sent. -/
lemma count_tellings {trace : List (Action × State)} (h : Run Step auth trace)
    (hmode : auth.tokenSecurity = .oneTime) :
    (tellings auth trace).count auth.token ≤ if auth.tokenSent = true then 0 else 1 := by
  induction h with
  | nil auth => simp [tellings]
  | @cons auth auth' action trace hstep hrun ih =>
      obtain rfl : auth' = after auth action := hstep
      obtain ⟨htoken, hmode'⟩ := after_token auth action
      have hrest := ih (hmode'.trans hmode)
      rw [htoken] at hrest
      rw [tellings, List.count_append]
      by_cases hsent : auth.tokenSent = true
      · obtain ⟨hafter, htold⟩ := after_of_sent hmode hsent action
        rw [List.count_eq_zero_of_not_mem htold, Nat.zero_add]
        rw [hafter] at hrest ⊢
        exact hrest
      · rw [if_neg hsent]
        rcases told_cases (by simpa using hsent) action with htold | ⟨htold, hafter⟩
        · rw [htold, List.count_nil, Nat.zero_add]
          refine hrest.trans ?_
          split_ifs
          · exact Nat.zero_le 1
          · exact le_refl 1
        · rw [if_pos hafter] at hrest
          rw [htold, List.count_singleton_self]
          omega

end Token

/-! ### Requests -/

section Requests

variable {auth : State} {site : Site} {around : Surroundings}
  {readerOptions : fs.FileReaderOptions} {resource path script : Str} {response : Response}

lemma lastSegment_suffix (path : Str) : lastSegment path <:+ path := by
  have hprefix := (List.takeWhile_prefix (l := path.reverse) (· ≠ '/'))
  rw [← List.reverse_suffix, List.reverse_reverse] at hprefix
  exact hprefix

/-- A path that names the library or the script ends in `.js`. -/
lemma exists_dotJs (h : NamesGlobals path) : ∃ stem, path = stem ++ '.' :: 'j' :: ['s'] := by
  obtain ⟨before, hbefore⟩ := lastSegment_suffix path
  rcases h with h | h
  · exact ⟨before ++ "neutralino".toList, by rw [← hbefore, h, List.append_assoc]; rfl⟩
  · exact ⟨before ++ "__neutralino_globals".toList, by rw [← hbefore, h, List.append_assoc]; rfl⟩

/-- Such a path is looked up as it is, and has no fallback. -/
lemma completed_and_fallback (h : NamesGlobals path) :
    completed path = some path ∧
      ∀ options newPath, spaFallback options path ≠ .ok (some newPath) := by
  obtain ⟨stem, rfl⟩ := exists_dotJs h
  have hindex : indexPage.test (stem ++ '.' :: 'j' :: ['s']) = false := by
    by_contra htest
    have hmatches := (Re.test_iff _ _).mp (by simpa using htest)
    obtain ⟨u, v, -, hv, heq⟩ := Re.matches_cat.mp hmatches
    obtain ⟨v₁, v₂, -, hv₂, rfl⟩ := Re.matches_cat.mp hv
    obtain ⟨v₃, v₄, -, hv₄, rfl⟩ := Re.matches_cat.mp hv₂
    rw [Re.matches_lit.mp hv₄] at heq
    have hlast := congrArg List.getLast? heq
    simp at hlast
  refine ⟨completed_of_dot ?_, ?_⟩
  · rw [List.dropLast_append_of_ne_nil (by decide)]
    exact List.mem_append_right _ (by decide)
  intro options newPath hspa
  have hnone := spaFallback_of_spaFallback hspa (stem ++ '.' :: 'j' :: ['s'])
  rw [if_pos (.inr hindex), hspa] at hnone
  cases hnone

lemma requestedPath_eq_ok :
    requestedPath site resource = .ok path ↔
      ∃ root, getDocumentRoot site.options = .ok root ∧ servedPath (root ++ resource) = path := by
  rw [requestedPath, bind_eq_ok]
  exact exists_congr fun root => and_congr_right fun _ => ⟨Except.ok.inj, congrArg _⟩

/-- The call that a request makes. -/
lemma called_request {around' : Surroundings} {options : Json} :
    (Action.request site around readerOptions resource).called = some (around', options) ↔
      (∃ path, requestedPath site resource = .ok path ∧ asksForGlobals path = true) ∧
        around = around' ∧ site.options = options := by
  rw [Action.called]
  cases requestedPath site resource with
  | error fault => simp
  | ok path =>
      by_cases hasks : asksForGlobals path = true
      · simp [hasks]
      · simp [hasks]

/-- How a request for the library is answered. -/
lemma answers_library (hpath : requestedPath site resource = .ok path)
    (hlib : clientLibrary.test path = true)
    (hscript : (getGlobalVars around site.options auth).1 = .ok script) :
    Answers auth site around readerOptions resource response ↔
      ∃ fuel, (getAsset site script readerOptions fuel path).ended = some (.ok response) := by
  obtain ⟨root, hroot, rfl⟩ := requestedPath_eq_ok.mp hpath
  refine exists_congr fun fuel => ?_
  rw [handleHTTP_of_ok hroot, hscript]
  simp only [serve, if_pos hlib]
  rfl

/-- How a request for the script alone is answered. -/
lemma answers_globals (hpath : requestedPath site resource = .ok path)
    (hlib : clientLibrary.test path = false) (hglobals : globalsRequest.test path = true)
    (hscript : (getGlobalVars around site.options auth).1 = .ok script) :
    Answers auth site around readerOptions resource response ↔
      response = { contentType := "application/javascript", data := script } := by
  obtain ⟨root, hroot, rfl⟩ := requestedPath_eq_ok.mp hpath
  rw [Answers]
  simp only [handleHTTP_of_ok hroot, hscript, serve, hlib, hglobals]
  simp [Except.toOption, eq_comm]

/-- Without the script there is no answer. -/
lemma not_answers_of_error {fault : Fault} (hpath : requestedPath site resource = .ok path)
    (hasks : asksForGlobals path = true)
    (hscript : (getGlobalVars around site.options auth).1 = .error fault) :
    ¬ Answers auth site around readerOptions resource response := by
  obtain ⟨root, hroot, rfl⟩ := requestedPath_eq_ok.mp hpath
  rintro ⟨fuel, hended⟩
  rw [handleHTTP_of_ok hroot, hscript] at hended
  rw [asksForGlobals, Bool.or_eq_true] at hasks
  by_cases hlib : clientLibrary.test (servedPath (root ++ resource)) = true
  · simp only [serve, if_pos hlib] at hended
    cases hended
  · simp only [serve, if_neg hlib, if_pos (hasks.resolve_left hlib)] at hended
    cases hended

/-- The status of a response. -/
lemma status_respond_eq_ok_iff {prependData : Str} {file : fs.FileReaderResult} :
    (respond path prependData readerOptions file).status = 200 ↔
      file.status = .NE_ST_OK ∧ readerOptions.pos ≤ -1 := by
  by_cases hstatus : file.status = .NE_ST_OK
  · by_cases hpos : readerOptions.pos ≤ -1
    · simp [respond, hstatus, hpos]
    · by_cases hsize : file.size ≤ readerOptions.pos
      · simp [respond, hstatus, hpos, hsize]
      · simp [respond, hstatus, hpos, hsize]
  · simp [respond, hstatus]

/-- A named library is answered from one lookup. -/
lemma getAsset_ended_iff (h : NamesGlobals path) :
    (∃ fuel, (getAsset site script readerOptions fuel path).ended = some (.ok response)) ↔
      ∃ file, site.fileAt readerOptions path = .ok file ∧
        (file.status = .NE_ST_OK ∨ spaFallback site.options path = .ok none) ∧
          respond path script readerOptions file = response := by
  obtain ⟨hpage, hfallback⟩ := completed_and_fallback h
  have hone : ∀ fuel, (getAsset site script readerOptions (fuel + 1) path).ended =
      some (.ok response) ↔ ∃ file, site.fileAt readerOptions path = .ok file ∧
        (file.status = .NE_ST_OK ∨ spaFallback site.options path = .ok none) ∧
          respond path script readerOptions file = response := by
    intro fuel
    rw [ended_page fuel hpage]
    cases site.fileAt readerOptions path with
    | error fault => simp
    | ok file =>
        by_cases hstatus : file.status = .NE_ST_OK
        · simp [hstatus]
        · cases hspa : spaFallback site.options path with
          | error fault => simp [hstatus]
          | ok newPath =>
              cases newPath with
              | none => simp [hstatus]
              | some newPath => exact absurd hspa (hfallback _ _)
  constructor
  · rintro ⟨fuel, hended⟩
    cases fuel with
    | zero => cases hended
    | succ fuel => exact (hone fuel).mp hended
  · exact fun hfile => ⟨1, (hone 0).mpr hfile⟩

/-- What is answered with a script that a request tells. -/
lemma status_eq_ok_iff (hpath : requestedPath site resource = .ok path)
    (hasks : asksForGlobals path = true) (hnames : NamesGlobals path)
    (hscript : (getGlobalVars around site.options auth).1 = .ok script) :
    (∃ response, Answers auth site around readerOptions resource response ∧ response.status = 200) ↔
      (clientLibrary.test path = true → readerOptions.pos ≤ -1 ∧
        ∃ file, site.fileAt readerOptions path = .ok file ∧ file.status = .NE_ST_OK) := by
  by_cases hlib : clientLibrary.test path = true
  · simp only [answers_library hpath hlib hscript, getAsset_ended_iff hnames, hlib, true_implies]
    constructor
    · rintro ⟨response, ⟨file, hfile, -, rfl⟩, hstatus⟩
      obtain ⟨hfound, hpos⟩ := status_respond_eq_ok_iff.mp hstatus
      exact ⟨hpos, file, hfile, hfound⟩
    · rintro ⟨hpos, file, hfile, hfound⟩
      exact ⟨_, ⟨file, hfile, .inl hfound, rfl⟩, status_respond_eq_ok_iff.mpr ⟨hfound, hpos⟩⟩
  · have hglobals : globalsRequest.test path = true := by
      rw [asksForGlobals, Bool.or_eq_true] at hasks
      exact hasks.resolve_left hlib
    simp only [answers_globals hpath (by simpa using hlib) hglobals hscript]
    simp [hlib]

/-- What is answered, where the condition holds, is no failure. -/
lemma status_eq_ok_of_answers (hpath : requestedPath site resource = .ok path)
    (hasks : asksForGlobals path = true) (hnames : NamesGlobals path)
    (hscript : (getGlobalVars around site.options auth).1 = .ok script)
    (hfound : clientLibrary.test path = true → readerOptions.pos ≤ -1 ∧
      ∃ file, site.fileAt readerOptions path = .ok file ∧ file.status = .NE_ST_OK)
    (hanswers : Answers auth site around readerOptions resource response) :
    response.status = 200 := by
  by_cases hlib : clientLibrary.test path = true
  · rw [answers_library hpath hlib hscript, getAsset_ended_iff hnames] at hanswers
    obtain ⟨file, hfile, -, rfl⟩ := hanswers
    obtain ⟨hpos, file', hfile', hstatus⟩ := hfound hlib
    obtain rfl := Except.ok.inj (hfile.symm.trans hfile')
    exact status_respond_eq_ok_iff.mpr ⟨hstatus, hpos⟩
  · have hglobals : globalsRequest.test path = true := by
      rw [asksForGlobals, Bool.or_eq_true] at hasks
      exact hasks.resolve_left hlib
    rw [answers_globals hpath (by simpa using hlib) hglobals hscript] at hanswers
    rw [hanswers]

/-- A request that is answered and tells nothing leaves the token as it was. -/
lemma after_of_not_discloses (hmode : auth.tokenSecurity = .oneTime)
    (hanswers : Answers auth site around readerOptions resource response)
    (h : ¬ Discloses auth (.request site around readerOptions resource)) :
    after auth (.request site around readerOptions resource) = auth := by
  by_cases hsent : auth.tokenSent = true
  · exact (after_of_sent hmode hsent _).1
  · rcases hcalled : (Action.request site around readerOptions resource).called with
      _ | ⟨around', options⟩
    · exact after_of_not_called hcalled
    · obtain ⟨⟨path, hpath, hasks⟩, rfl, rfl⟩ := called_request.mp hcalled
      cases hscript : (getGlobalVars around site.options auth).1 with
      | error fault => exact absurd hanswers (not_answers_of_error hpath hasks hscript)
      | ok script =>
          exact absurd ((discloses_iff hmode).mpr
            ⟨by simpa using hsent, around, site.options, script, hcalled, hscript⟩) h

/-- **An action is proper** exactly if it is well asked. -/
theorem proper_iff (hmode : auth.tokenSecurity = .oneTime) (action : Action) :
    Proper auth action ↔ WellAsked auth action := by
  cases action with
  | injectGlobals around options => exact Iff.rfl
  | injectClientLibrary site around => exact Iff.rfl
  | request site around readerOptions resource =>
      constructor
      · rintro ⟨hdisclosed, -⟩ hsent path hpath hasks ⟨script, hscript⟩
        have hcalled : (Action.request site around readerOptions resource).called =
            some (around, site.options) := called_request.mpr ⟨⟨path, hpath, hasks⟩, rfl, rfl⟩
        have hdiscloses := (discloses_iff hmode).mpr
          ⟨hsent, around, site.options, script, hcalled, hscript⟩
        obtain ⟨hok, path', hpath', hnames⟩ := hdisclosed hdiscloses
        obtain rfl := Except.ok.inj (hpath.symm.trans hpath')
        exact ⟨hnames, (status_eq_ok_iff hpath hasks hnames hscript).mp hok⟩
      · intro hasked
        -- what a disclosing request leads to, under the condition
        have hcase : Discloses auth (.request site around readerOptions resource) →
            ∃ path script, requestedPath site resource = .ok path ∧ asksForGlobals path = true ∧
              (getGlobalVars around site.options auth).1 = .ok script ∧ NamesGlobals path ∧
                (clientLibrary.test path = true → readerOptions.pos ≤ -1 ∧
                  ∃ file, site.fileAt readerOptions path = .ok file ∧ file.status = .NE_ST_OK) := by
          intro hdiscloses
          obtain ⟨hsent, around', options, script, hcalled, hscript⟩ :=
            (discloses_iff hmode).mp hdiscloses
          obtain ⟨⟨path, hpath, hasks⟩, rfl, rfl⟩ := called_request.mp hcalled
          obtain ⟨hnames, hfound⟩ := hasked hsent path hpath hasks ⟨script, hscript⟩
          exact ⟨path, script, hpath, hasks, hscript, hnames, hfound⟩
        refine ⟨fun hdiscloses => ?_, fun response hanswers hfails => ?_⟩
        · obtain ⟨path, script, hpath, hasks, hscript, hnames, hfound⟩ := hcase hdiscloses
          exact ⟨(status_eq_ok_iff hpath hasks hnames hscript).mpr hfound, path, hpath, hnames⟩
        · have hnot : ¬ Discloses auth (.request site around readerOptions resource) := by
            intro hdiscloses
            obtain ⟨path, script, hpath, hasks, hscript, hnames, hfound⟩ := hcase hdiscloses
            have hok := status_eq_ok_of_answers hpath hasks hnames hscript hfound hanswers
            omega
          exact ⟨hnot, after_of_not_discloses hmode hanswers hnot⟩

end Requests

/-- The token is disclosed once at most, and by proper actions only. -/
def DisclosedOnce (auth : State) (trace : List (Action × State)) : Prop :=
  (tellings auth trace).count auth.token ≤ 1 ∧ Along Proper auth trace

/-- **The token is disclosed once, and properly**, along a run exactly if each
request made while it is unsent asks for a library that is found, or for the
script, by name. -/
theorem disclosure_iff {auth : State} (hmode : auth.tokenSecurity = .oneTime)
    {trace : List (Action × State)} (h : Run Step auth trace) :
    DisclosedOnce auth trace ↔ Along WellAsked auth trace := by
  have honce : (tellings auth trace).count auth.token ≤ 1 := by
    refine (count_tellings h hmode).trans ?_
    split_ifs
    · exact Nat.zero_le 1
    · exact le_refl 1
  have hstep : ∀ auth action auth', auth.tokenSecurity = .oneTime → Step auth action auth' →
      auth'.tokenSecurity = .oneTime := by
    rintro auth action _ hmode rfl
    exact (after_token auth action).2.trans hmode
  rw [DisclosedOnce, and_iff_right honce]
  exact Run.along_iff hstep (fun auth action _ hmode _ => proper_iff hmode action) h hmode

/-! ### Requests for a missing library -/

/-- A configuration with a port. -/
def portOnly : Json := .obj [("port", .num 5000)]

/-- An application in `/app`. -/
def plainSurroundings : Surroundings where
  osName := "Linux"
  arch := "x64"
  version := "1.0.0"
  commit := ""
  currentDirectory := .ok "/app"
  globalArgs := ["/app/app"]
  appPath := "/app"
  appDataPath := "/app"
  processId := 1
  resourceMode := "directory"
  extensionsInitialized := false
  customMethods := []
  savedStateLoaded := false
  configFile := "/neutralino.config.json"
  localeName := ""
  compilationData := ""

/-- A token that was not sent. -/
def freshToken : State where
  token := "token"
  token_ne_nil := by decide

/-- A request to an application without files. -/
def emptySiteRequest (resource : Str) : Action :=
  .request (.directory portOnly .empty "/app" .empty) plainSurroundings {} resource

/-- The script alone is a proper request. -/
theorem globalsScript_disclosedOnce :
    DisclosedOnce freshToken [(emptySiteRequest "/__neutralino_globals.js",
      after freshToken (emptySiteRequest "/__neutralino_globals.js"))] := by
  refine (@disclosure_iff freshToken rfl _ (.cons rfl (.nil _))).mpr ⟨?_, trivial⟩
  intro _ path hpath _ _
  obtain rfl : "/__neutralino_globals.js".toList = path := Except.ok.inj hpath
  exact ⟨.inr (by decide), fun hlib => absurd hlib (by decide)⟩

/-- A request for a library that is missing is answered with status 404, and
carries the token. -/
theorem missingLibrary_discloses :
    ¬ ∀ (auth : State) (trace : List (Action × State)), auth.tokenSecurity = .oneTime →
      auth.tokenSent = false → Run Step auth trace → DisclosedOnce auth trace := by
  intro h
  have honce := h freshToken [(emptySiteRequest "/neutralino.js", _)] rfl rfl (.cons rfl (.nil _))
  have hasked := (proper_iff rfl (emptySiteRequest "/neutralino.js")).mp honce.2.1
  obtain ⟨-, hfound⟩ := hasked rfl "/neutralino.js".toList rfl (by decide) ⟨_, rfl⟩
  obtain ⟨-, file, hfile, hstatus⟩ := hfound (by decide)
  obtain rfl := Except.ok.inj hfile
  cases hstatus

end Neutralino.authbasic
