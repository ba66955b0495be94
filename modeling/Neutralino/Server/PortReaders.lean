import Neutralino.Config.BuiltinVars
import Neutralino.Server.TypedStart

/-!
When the start of the program raises a type error, for a configuration whose options have
their types.

* `globals_cases`, `createWindow_eq`: the global variables need the port, and the window
  asks for them where it injects them.
* `startApp_raises_iff`: when a mode reads a port that is missing.
* `no_type_error_iff`: **when the start raises no type error**.  Three readers take the port
  for granted, and only the server provides it.
-/

namespace Neutralino.main

open settings Paths

section Steps

variable {s : Launch} {options : Json} {mode : AppMode}

/-! ### The global variables -/

lemma exists_getAppId (h : Typed options) : ∃ appId, getAppId options = .ok appId := by
  rw [getAppId]
  rcases rootOption_cases h (by simp [rootOptions] : ("applicationId", Scalar.string) ∈ rootOptions)
    with happId | ⟨text, happId⟩
  · rw [happId]
    exact ⟨_, rfl⟩
  · rw [happId]
    exact ⟨_, rfl⟩

lemma exists_globalVarsHead (h : Typed options) (around : Surroundings) :
    ∃ head, globalVarsHead around options = .ok head := by
  obtain ⟨appId, happId⟩ := exists_getAppId h
  have hversion : ∃ version, appVersionVariable options = .ok version := by
    rw [appVersionVariable]
    rcases rootOption_cases h (by simp [rootOptions] : ("version", Scalar.string) ∈ rootOptions)
      with hversion | ⟨text, hversion⟩
    · rw [hversion]
      exact ⟨_, rfl⟩
    · rw [hversion]
      exact ⟨_, rfl⟩
  obtain ⟨version, hversion⟩ := hversion
  rw [globalVarsHead, happId, ok_bind, hversion]
  exact ⟨_, rfl⟩

/-- **The script of the global variables** takes the port for granted. -/
theorem globals_cases (h : Typed options) (hmode : getMode options = .ok mode) (s : Launch)
    (auth : authbasic.State) :
    portMissing options mode = true ∧ s.globals options auth = .error .typeError ∨
      portMissing options mode = false ∧ ((∃ auth', s.globals options auth = .ok auth') ∨
        s.globals options auth = .error .filesystemError) := by
  obtain ⟨head, hhead⟩ := exists_globalVarsHead h s.around
  rw [Launch.globals, getGlobalVars, globalVarsBefore, hhead, ok_bind, h.option_eq hmode, ok_bind]
  rcases port_cases h mode with ⟨hport, hmissing⟩ | ⟨n, hport, hmissing⟩
  · rw [hport]
    exact .inl ⟨hmissing, rfl⟩
  · rw [hport, Json.getInt, ok_bind, hmode, ok_bind]
    refine .inr ⟨hmissing, ?_⟩
    cases hcwd : s.around.currentDirectory with
    | ok cwd =>
        refine .inl ⟨(authbasic.getToken auth).2, ?_⟩
        simp only [pure, Except.pure, globalVarsAfter, hcwd, ok_bind, h.option_eq hmode, Except.map]
    | error fault =>
        obtain rfl := s.currentDirectory_fault fault hcwd
        refine .inr ?_
        simp only [pure, Except.pure, globalVarsAfter, hcwd, error_bind, Except.map]

/-! ### The window -/

/-- No type error is raised. -/
def Tame {α : Type} (x : Except Fault α) : Prop := x ≠ .error .typeError

lemma tame_ok {α : Type} (a : α) : Tame (.ok a : Except Fault α) := nofun

lemma Tame.bind {α β : Type} {x : Except Fault α} {f : α → Except Fault β} (hx : Tame x)
    (hf : ∀ a, Tame (f a)) : Tame (x >>= f) := by
  cases x with
  | error fault => exact fun h => hx (by simpa using h)
  | ok a => exact hf a

lemma tame_ite {α : Type} {c : Prop} [Decidable c] {x y : Except Fault α} (hx : Tame x)
    (hy : Tame y) : Tame (if c then x else y) := by
  split_ifs
  · exact hx
  · exact hy

lemma globals_tame (h : Typed options) (hmode : getMode options = .ok mode)
    (hport : portMissing options mode = false) (s : Launch) (auth : authbasic.State) :
    Tame (s.globals options auth) := by
  rcases globals_cases h hmode s auth with ⟨hmissing, -⟩ | ⟨-, ⟨auth', hok⟩ | hfault⟩
  · rw [hport] at hmissing
    cases hmissing
  · rw [hok]
    exact tame_ok _
  · rw [hfault]
    exact nofun

lemma globals_of_missing (h : Typed options) (hmode : getMode options = .ok mode)
    (hport : portMissing options mode = true) (s : Launch) (auth : authbasic.State) :
    s.globals options auth = .error .typeError := by
  rcases globals_cases h hmode s auth with ⟨-, hfault⟩ | ⟨hthere, -⟩
  · exact hfault
  · rw [hport] at hthere
    cases hthere

/-- The client library is configured and found in the resources. -/
def hasClientLibrary (s : Launch) (options : Json) : Bool :=
  match getAt ["cli".toList, "clientLibrary".toList] options with
  | .str path => s.finds path
  | _ => false

/-- The client library comes behind the global variables. -/
lemma injectClientLibrary_eq (h : Typed options) (s : Launch) (auth : authbasic.State) :
    window.injectClientLibrary s options auth =
      if hasClientLibrary s options then s.globals options auth else .ok auth := by
  obtain ⟨hroot, hcli, -⟩ := h.cli
  have hfits : Scalar.string.fits (getAt ["cli".toList, "clientLibrary".toList] options) = true :=
    h.option _ mem_places_clientLibrary
  have hread : (options.index "cli" >>= fun cli => cli.index "clientLibrary") =
      .ok (getAt ["cli".toList, "clientLibrary".toList] options) := by
    rw [Json.index_of_isNode hroot, ok_bind]
    exact Json.index_of_isNode hcli _
  have hbind : window.injectClientLibrary s options auth =
      (options.index "cli" >>= fun cli => cli.index "clientLibrary") >>= fun jClientLibrary =>
        if jClientLibrary.isNull then .ok auth
        else jClientLibrary.getString >>= fun path =>
          if s.finds path then s.globals options auth else .ok auth := by
    rw [bind_assoc]
    rfl
  rw [hbind, hread, ok_bind, hasClientLibrary]
  rcases null_or_str hfits with hnull | ⟨path, hstr⟩
  · rw [hnull]
    rfl
  · rw [hstr]
    rfl

lemma injectScript_eq (h : Typed options) (hmode : getMode options = .ok mode) :
    window.injectScript options = .ok () := by
  have hfits : Scalar.string.fits (effective options mode "injectScript") = true :=
    h.effective (by simp [modeOptions] : ("injectScript", OptionType.scalar .string) ∈ modeOptions) mode
  rw [window.injectScript, h.option_eq hmode, ok_bind]
  rcases null_or_str hfits with hnull | ⟨text, hstr⟩
  · rw [hnull]
    rfl
  · rw [hstr]
    rfl

lemma readFields_eq {fields : List (String × Scalar)} {input : Json} (h : FieldsFit fields input) :
    fields.forM (window.readField input) = .ok () := by
  induction fields with
  | nil => rfl
  | cons field fields ih =>
      obtain ⟨hfield, hfields⟩ := List.forall_mem_cons.mp h
      have hread : window.readField input field = .ok () :=
        (fieldOr_member _ _ _ _).trans (readOr_get hfield)
      rw [List.forM, hread, ok_bind]
      exact ih hfields

/-- The flags that make a window ask for the global variables. -/
def injects (s : Launch) (options windowOptions : Json) : Bool :=
  isSet (windowOptions.member "injectGlobals") ||
    (isSet (windowOptions.member "injectClientLibrary") && hasClientLibrary s options)

/-- A window asks for the global variables up to two times. -/
lemma createWindow_eq (h : Typed options) (hmode : getMode options = .ok mode) (s : Launch)
    {windowOptions : Json} (hfields : FieldsFit windowFields windowOptions) (auth : authbasic.State) :
    window.createWindow s options windowOptions auth =
      if s.createsWindow then
        (if isSet (windowOptions.member "injectGlobals") then s.globals options auth else .ok auth) >>=
          fun auth =>
            if isSet (windowOptions.member "injectClientLibrary") && hasClientLibrary s options then
              s.globals options auth >>= fun _ => .ok ()
            else .ok ()
      else .ok () := by
  have hglobals := fieldOr_flag hfields
    (by simp [windowFields] : ("injectGlobals", Scalar.boolean) ∈ windowFields)
  have hlibrary := fieldOr_flag hfields
    (by simp [windowFields] : ("injectClientLibrary", Scalar.boolean) ∈ windowFields)
  have hscript : Scalar.string.fits (windowOptions.member "injectScript") = true :=
    hfields ("injectScript", .string) (by simp [windowFields])
  obtain ⟨script, hread, -⟩ := exists_readOr_getString hscript []
  have hlast : (fieldOr windowOptions "injectScript" Json.getString [] >>= fun script =>
      if script ≠ [] then window.injectScript options else pure ()) = .ok () := by
    rw [fieldOr_member, hread, ok_bind, injectScript_eq h hmode]
    exact ite_self _
  have hinjected : ∀ auth, (if isSet (windowOptions.member "injectClientLibrary") = true then
        window.injectClientLibrary s options auth >>= fun _ => .ok () else .ok () : Except Fault Unit) =
      if isSet (windowOptions.member "injectClientLibrary") && hasClientLibrary s options then
        s.globals options auth >>= fun _ => .ok () else .ok () := by
    intro auth
    rw [injectClientLibrary_eq h]
    cases isSet (windowOptions.member "injectClientLibrary") with
    | false => rfl
    | true => cases hasClientLibrary s options <;> rfl
  simp only [window.createWindow, hglobals, hlibrary, ok_bind, hlast, hinjected]
  cases s.createsWindow with
  | false => rfl
  | true => cases isSet (windowOptions.member "injectGlobals") <;> rfl

/-- **A window**: where the port is missing, it raises a type error if it asks for the global
variables, and else none. -/
lemma createWindow_cases (h : Typed options) (hmode : getMode options = .ok mode) (s : Launch)
    {windowOptions : Json} (hfields : FieldsFit windowFields windowOptions) (auth : authbasic.State) :
    portMissing options mode = false ∧ Tame (window.createWindow s options windowOptions auth) ∨
      portMissing options mode = true ∧ window.createWindow s options windowOptions auth =
        failing (s.createsWindow && injects s options windowOptions) := by
  rw [createWindow_eq h hmode s hfields]
  cases hport : portMissing options mode with
  | false =>
      have htame := globals_tame h hmode hport s
      refine .inl ⟨rfl, tame_ite ?_ (tame_ok _)⟩
      refine Tame.bind (tame_ite (htame auth) (tame_ok _)) fun auth => ?_
      exact tame_ite (Tame.bind (htame auth) fun _ => tame_ok _) (tame_ok _)
  | true =>
      refine .inr ⟨rfl, ?_⟩
      simp only [globals_of_missing h hmode hport, error_bind, injects]
      cases s.createsWindow with
      | false => rfl
      | true =>
          cases isSet (windowOptions.member "injectGlobals") with
          | false =>
              cases isSet (windowOptions.member "injectClientLibrary") && hasClientLibrary s options <;>
                rfl
          | true => rfl

/-! ### The modes -/

/-- The options of a mode with the navigation URL. -/
def withUrl (options : Json) (mode : AppMode) (url : Str) : Json :=
  Json.set (getAt ["modes".toList, appModeToStr mode] options) "url" (.str url)

lemma sectionFor_eq (h : Typed options) (mode : AppMode) (url : Str) :
    main.sectionFor options mode url = .ok (withUrl options mode url) := by
  obtain ⟨hroot, hmodes, hsection, -⟩ := h.sections mode
  have hindex : (options.index "modes" >>= fun modes => modes.index (appModeToStr mode)) =
      .ok (getAt ["modes".toList, appModeToStr mode] options) := by
    rw [Json.index_of_isNode hroot, ok_bind]
    exact Json.index_of_isNode hmodes _
  have hurl : (getAt ["modes".toList, appModeToStr mode] options).index "url" =
      .ok ((getAt ["modes".toList, appModeToStr mode] options).member "url") :=
    Json.index_of_isNode hsection _
  have hbind : main.sectionFor options mode url =
      (options.index "modes" >>= fun modes => modes.index (appModeToStr mode)) >>= fun options =>
        options.index "url" >>= fun _ => pure (options.set "url" (.str url)) := by
    rw [bind_assoc]
    rfl
  rw [hbind, hindex, ok_bind, hurl]
  rfl

/-- The navigation URL is put in, and the other members are as they were. -/
lemma member_withUrl (options : Json) (mode : AppMode) (url : Str) (key : Str) :
    (withUrl options mode url).member key =
      if key = "url".toList then .str url else getAt (modePath mode key) options := by
  split_ifs with hkey
  · rw [hkey]
    exact MemberTree.member_setMember_self (J := Json) "url".toList (.str url) _
  · exact MemberTree.member_setMember_of_ne (J := Json) (.str url) _ hkey

/-- The options of a mode fit its fields, with the URL among them. -/
lemma fieldsFit_withUrl {fields : List (String × Scalar)} (mode : AppMode) (url : Str)
    (hplaces : ∀ field ∈ fields, field.2.fits (getAt (modePath mode field.1.toList) options) = true)
    (hurl : ∀ field ∈ fields, field.1 = "url" → field.2.fits (.str []) = true) :
    FieldsFit fields (withUrl options mode url) := by
  intro field hfield
  rw [member_withUrl]
  split_ifs with hkey
  · have hstr := hurl field hfield (String.toList_inj.mp hkey)
    obtain ⟨key, t⟩ := field
    cases t <;> first | rfl | cases hstr
  · exact hplaces field hfield

lemma fieldsFit_window (h : Typed options) (url : Str) :
    FieldsFit windowFields (withUrl options .window url) :=
  fieldsFit_withUrl .window url
    (fun field hfield => h.option _ (@mem_places_window field.1 field.2 hfield))
    (by decide)

lemma fieldsFit_chrome (h : Typed options) (url : Str) :
    FieldsFit chromeFields (withUrl options .chrome url) :=
  fieldsFit_withUrl .chrome url
    (fun field hfield => h.option _ (@mem_places_chrome field.1 field.2 hfield))
    (by decide)

/-- The members of an object that fit are a record. -/
lemma isRecord_withUrl {fields : List (String × Scalar)} {mode : AppMode} {url : Str}
    (h : FieldsFit fields (withUrl options mode url)) :
    isRecord fields (withUrl options mode url) = true := by
  have hobj : ∃ members, withUrl options mode url = .obj members := by
    rw [withUrl]
    cases getAt ["modes".toList, appModeToStr mode] options with
    | obj members => exact ⟨_, rfl⟩
    | _ => exact ⟨_, rfl⟩
  obtain ⟨members, hobj⟩ := hobj
  rw [hobj] at h ⊢
  exact List.all_eq_true.mpr h

lemma exists_customBin {input : Json} (h : isRecord chromeFields input = true) (s : Launch) :
    ∃ bin, chrome.customBin s.around.osName input = .ok bin := by
  obtain ⟨keyForOs, hkey, hmem⟩ := exists_keyForOs s "browserBinary"
    (by simp [chromeFields] : ∀ osName ∈ _, (_, Scalar.string) ∈ chromeFields)
  rw [chrome.customBin, ← hkey, hasField_eq, ok_bind, hasField_eq]
  cases hforOs : input.has keyForOs.toList with
  | true =>
      obtain ⟨bin, hbin⟩ := indexConst_of_has h hmem hforOs
      rw [if_pos rfl, hbin]
      exact ⟨_, rfl⟩
  | false =>
      rw [if_neg Bool.false_ne_true, ok_bind]
      cases hcommon : input.has "browserBinary" with
      | true =>
          obtain ⟨bin, hbin⟩ := indexConst_of_has h
            (by simp [chromeFields] : ("browserBinary", Scalar.string) ∈ chromeFields) hcommon
          rw [if_pos rfl, hbin]
          exact ⟨_, rfl⟩
      | false => exact ⟨_, rfl⟩

/-- An integer field that is there is read. -/
lemma exists_getInt_of_has {input : Json} (h : isRecord chromeFields input = true) {key : String}
    (hkey : (key, Scalar.integer) ∈ chromeFields) (hhas : input.has key.toList = true) :
    ∃ n, input.indexConst key.toList = .ok (.num n) := by
  obtain ⟨value, hindex, hvalue⟩ := exists_value_of_has h hkey hhas
  cases value with
  | num n => exact ⟨n, hindex⟩
  | _ => cases hvalue

/-- `chrome::init` reads no option that must be there. -/
lemma chrome_init_eq (h : Typed options) (s : Launch) (url : Str) :
    chrome.init s (withUrl options .chrome url) = .ok () := by
  have hfields := fieldsFit_chrome h url
  have hrecord := isRecord_withUrl hfields
  obtain ⟨bin, hbin⟩ := exists_customBin hrecord s
  have hurl : (withUrl options .chrome url).indexConst "url" = .ok (.str url) :=
    indexConst_of_member ((member_withUrl options .chrome url "url").trans (if_pos rfl))
  have hargs : ∃ args, fieldOr (withUrl options .chrome url) "args" Json.getString [] = .ok args := by
    have hfits := hfields ("args", .string) (by simp [chromeFields])
    obtain ⟨args, hargs, -⟩ := exists_readOr_getString hfits []
    exact ⟨args, (fieldOr_member _ _ _ _).trans hargs⟩
  obtain ⟨args, hargs⟩ := hargs
  rw [chrome.init, hbin, ok_bind, hurl, ok_bind, hargs]
  cases s.findsChrome with
  | false => rfl
  | true =>
      simp only [helpers.hasRequiredFields, hasField_eq, ok_bind]
      cases hwidth : (withUrl options .chrome url).has "width" with
      | false => rfl
      | true =>
          cases hheight : (withUrl options .chrome url).has "height" with
          | false => rfl
          | true =>
              obtain ⟨width, hreadWidth⟩ := exists_getInt_of_has hrecord
                (by simp [chromeFields] : ("width", Scalar.integer) ∈ chromeFields) hwidth
              obtain ⟨height, hreadHeight⟩ := exists_getInt_of_has hrecord
                (by simp [chromeFields] : ("height", Scalar.integer) ∈ chromeFields) hheight
              rw [hreadWidth, hreadHeight]
              rfl

/-- The window mode, with a window that asks for the global variables. -/
def windowReadsPort (s : Launch) (options : Json) (mode : AppMode) : Bool :=
  decide (mode = .window) && (s.createsWindow &&
    (isSet (getAt (modePath .window "injectGlobals") options) ||
      (isSet (getAt (modePath .window "injectClientLibrary") options) && hasClientLibrary s options)))

/-- **`__startApp`** raises a type error where the window asks for a port that is missing. -/
theorem startApp_raises_iff {served : main.Served} (h : Typed served.options)
    (hmode : getMode served.options = .ok mode) (s : Launch) (auth : authbasic.State) :
    main.startApp s auth served = .error .typeError ↔
      (portMissing served.options mode && windowReadsPort s served.options mode) = true := by
  rw [main.startApp, hmode, ok_bind, windowReadsPort]
  have hother : ∀ {mode : AppMode} {b : Bool}, mode ≠ .window →
      ¬ (portMissing served.options mode && (decide (mode = .window) && b)) = true := fun hne => by
    simp [hne]
  cases mode with
  | browser => exact iff_of_false nofun (hother (by decide))
  | cloud =>
      obtain ⟨appId, happId⟩ := exists_getAppId h
      rw [happId]
      cases served.isInitialized with
      | true => exact iff_of_false nofun (hother (by decide))
      | false => exact iff_of_false nofun (hother (by decide))
  | chrome =>
      simp only [sectionFor_eq h, ok_bind, chrome_init_eq h]
      exact iff_of_false nofun (hother (by decide))
  | window =>
      have hfields := fieldsFit_window h served.navigationUrl
      have hinjects : injects s served.options (withUrl served.options .window served.navigationUrl) =
          (isSet (getAt (modePath .window "injectGlobals") served.options) ||
            (isSet (getAt (modePath .window "injectClientLibrary") served.options) &&
              hasClientLibrary s served.options)) := by
        rw [injects, member_withUrl, if_neg (by decide), member_withUrl, if_neg (by decide)]
      simp only [sectionFor_eq h, ok_bind, window.init, readFields_eq hfields]
      rcases createWindow_cases h hmode s hfields auth with ⟨hport, htame⟩ | ⟨hport, heq⟩
      · rw [hport]
        exact iff_of_false htame nofun
      · rw [heq, hport, hinjects, failing_eq_error_iff]
        exact Iff.rfl

/-! ### The whole start -/

/-- A step of the start reads the port: the auth information is exported, an extension is told
how to connect, or the window asks for the global variables. -/
def readsPort (s : Launch) (options : Json) (mode : AppMode) : Bool :=
  extraReadsPort s options mode || windowReadsPort s options mode

/-- What follows the server raises a type error where it reads a port that is missing. -/
lemma proceed_raises_iff {served : main.Served} (h : Typed served.options)
    (hmode : getMode served.options = .ok mode) (s : Launch) (auth : authbasic.State) :
    main.proceed s auth served = .error .typeError ↔
      (portMissing served.options mode && readsPort s served.options mode) = true := by
  obtain ⟨configuration, hlogger⟩ := exists_configureLogger h hmode
  rw [main.proceed, hlogger, ok_bind, initExtra_eq h hmode, readsPort, Bool.and_or_distrib_left,
    Bool.or_eq_true, ← startApp_raises_iff h hmode s auth]
  cases portMissing served.options mode && extraReadsPort s served.options mode with
  | true => exact iff_of_true rfl (.inl rfl)
  | false => exact (or_iff_right Bool.false_ne_true).symm

/-- The port is known: it is configured, or the server is enabled, which writes one. -/
def PortKnown (options : Json) (mode : AppMode) : Prop :=
  portMissing options mode = false ∨ isSet (effective options mode "enableServer") = true

/-- The start raises a type error exactly if a step reads a port that is not known. -/
lemma start_raises_iff (s : Launch) (h : Typed options) (hmode : getMode options = .ok mode) :
    main.start s options = .error .typeError ↔
      ScopesResolve s options mode ∧ readsPort s options mode = true ∧ ¬ PortKnown options mode := by
  rw [main.start]
  rcases initFramework_cases h hmode s with ⟨⟨auth, hauth⟩, hresolve⟩ | ⟨hfault, hnot⟩
  · rw [hauth, ok_bind]
    rcases startServer_cases h hmode s with ⟨hserver, url, hserved⟩ | ⟨hserver, hexits⟩
    · have hproceed : main.proceed s auth ⟨options, url, false⟩ = .error .typeError ↔ _ :=
        proceed_raises_iff h hmode s auth
      have hknown : ¬ PortKnown options mode ↔ portMissing options mode = true := by
        rw [PortKnown, hserver, or_iff_left Bool.false_ne_true, Bool.not_eq_false]
      rw [hserved, ok_bind, hknown]
      show main.proceed s auth ⟨options, url, false⟩ = .error .typeError ↔ _
      rw [hproceed, Bool.and_eq_true, and_comm, and_iff_right hresolve]
    · have hnone : ¬ main.start s options = .error .typeError := by
        rw [main.start, hauth, ok_bind]
        rcases hexits with hnone | ⟨served, hserved, htyped, hmode', hport⟩
        · rw [hnone]
          exact nofun
        · rw [hserved, ok_bind]
          show ¬ main.proceed s auth served = .error .typeError
          rw [proceed_raises_iff htyped hmode', show portMissing served.options mode = false from hport]
          exact Bool.false_ne_true
      rw [main.start, hauth, ok_bind] at hnone
      exact iff_of_false hnone fun hboth => hboth.2.2 (.inr hserver)
  · rw [hfault, error_bind]
    exact iff_of_false nofun fun hboth => hnot hboth.1

end Steps

/-! ### A start without a port -/

/-- A program on a platform that grants everything. -/
def sampleLaunch : Launch where
  toTokens := extensions.sampleContext.toTokens
  host := extensions.sampleContext.host
  around := sampleSurroundings "/app"
  systemDataPath := "/home/user/.local/share/js.neutralino.framework"
  osName_mem := List.mem_cons_self
  currentDirectory_fault := nofun
  listens := some ⟨5000, by decide⟩
  createsTmp := true
  createsWindow := true
  findsChrome := true
  finds _ := true

/-- A configuration that asks for everything that reads the port, and configures none. -/
def portlessConfig (enableServer : Bool) : Json :=
  .obj [("enableExtensions", .bool true), ("enableServer", .bool enableServer),
    ("exportAuthInfo", .bool true),
    ("extensions", .arr [.obj [("command", .str "node main.js"), ("id", .str "js.neutralino.sample")]]),
    ("modes", .obj [("window", .obj [("injectGlobals", .bool true)])])]

lemma portlessConfig_typed (enableServer : Bool) : Typed (portlessConfig enableServer) where
  sections mode := by cases mode <;> exact ⟨trivial, trivial, trivial, trivial⟩
  cli := ⟨trivial, trivial, trivial⟩
  option := by cases enableServer <;> decide +kernel

end Neutralino.main
