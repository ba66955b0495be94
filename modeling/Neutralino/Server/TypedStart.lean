import Neutralino.Server.Startup

/-!
The steps of the start for a configuration whose options have their types: what each
returns, and which of them need the port.

* `permission_init_cases`, `startServer_cases`: what the framework and the server come to.
* `failing`, `portMissing`: a step that reads the port, and nothing else that can be missing.
* `initSteps_ended`: **what the start of the extensions comes to**.
* `initExtra_eq`: and what the two features come to that are told the port.
-/

namespace Neutralino.main

open settings Paths

/-! ### Steps that return -/

section Steps

variable {s : Launch} {options : Json} {mode : AppMode}

lemma exists_authbasic_init (h : Typed options) (hmode : getMode options = .ok mode)
    (tokens : extensions.Tokens) : ∃ auth, authbasic.init tokens options = .ok auth := by
  have hfits : Scalar.string.fits (effective options mode "tokenSecurity") = true :=
    h.effective (by simp [modeOptions] : ("tokenSecurity", OptionType.scalar .string) ∈ modeOptions) mode
  rw [authbasic.init, h.option_eq hmode, ok_bind]
  rcases null_or_str hfits with hnull | ⟨text, hstr⟩
  · rw [hnull]
    exact ⟨_, rfl⟩
  · rw [hstr]
    exact ⟨_, rfl⟩

lemma exists_storage_init (h : Typed options) (hmode : getMode options = .ok mode)
    (systemDataPath appPath : Str) :
    ∃ storagePath, storage.init systemDataPath appPath options = .ok storagePath := by
  have hfits : Scalar.string.fits (effective options mode "storageLocation") = true :=
    h.effective (by simp [modeOptions] : ("storageLocation", OptionType.scalar .string) ∈ modeOptions)
      mode
  obtain ⟨location, hlocation, -⟩ := exists_readOr_getString hfits "app"
  rw [storage.init, h.optionOr_eq hmode, hlocation]
  exact ⟨_, rfl⟩

lemma exists_systemEnvs (h : Typed options) (hmode : getMode options = .ok mode) :
    ∃ envs, main.systemEnvs options = .ok envs := by
  have hfits := h.effective (by simp [modeOptions] : ("systemEnvs", OptionType.stringMap) ∈ modeOptions)
    mode
  rw [main.systemEnvs, h.option_eq hmode, ok_bind]
  rcases null_or_stringMap hfits with hnull | ⟨members, hobj, hall⟩
  · rw [hnull]
    exact ⟨_, rfl⟩
  · rw [hobj]
    exact exists_mapM_getString hall fun key text => ⟨_, rfl⟩

/-! ### The permissions -/

/-- A list of texts, where it is there, is read. -/
lemma exists_listOption (h : Typed options) (hmode : getMode options = .ok mode) {key : String}
    (ho : (key, OptionType.strings) ∈ modeOptions) :
    ∃ entries, permission.listOption options key.toList = .ok entries := by
  have hfits := h.effective ho mode
  rw [permission.listOption, permission.optionFor, h.option_eq hmode, ok_bind]
  cases hj : effective options mode key.toList with
  | null => exact ⟨none, rfl⟩
  | arr xs =>
      rw [hj] at hfits
      obtain ⟨texts, htexts⟩ := os.inputs.exists_getStrings_iff.mpr hfits
      exact ⟨some texts, by rw [Json.getStrings, htexts]; rfl⟩
  | _ =>
      rw [hj] at hfits
      cases hfits

/-- Every path of the scopes can be made canonical. -/
def ScopesResolve (s : Launch) (options : Json) (mode : AppMode) : Prop :=
  ∀ entry ∈ (effective options mode "filesystemScopes").items,
    ∃ scope, permission.normalizeScopePath s.host entry.1 = .ok scope

/-- One entry after another is read, up to the first path that cannot be made canonical. -/
lemma mapM_readScope_cases (host : Host) {members : List (Str × Json)}
    (h : members.all (fun m => m.2.isStr) = true) :
    (∃ entries, members.mapM (permission.readScope host) = .ok entries ∧
        ∀ m ∈ members, ∃ scope, permission.normalizeScopePath host m.1 = .ok scope) ∨
      members.mapM (permission.readScope host) = .error .filesystemError ∧
        ¬ ∀ m ∈ members, ∃ scope, permission.normalizeScopePath host m.1 = .ok scope := by
  induction members with
  | nil => exact .inl ⟨[], rfl, List.forall_mem_nil _⟩
  | cons m members ih =>
      rw [List.all_cons, Bool.and_eq_true] at h
      obtain ⟨path, j⟩ := m
      obtain ⟨text, rfl⟩ : ∃ text, j = .str text := by
        cases j with
        | str text => exact ⟨text, rfl⟩
        | _ => exact absurd h.1 Bool.false_ne_true
      rw [List.forall_mem_cons, List.mapM_cons, permission.readScope]
      rcases permission.normalizeScopePath_cases host path with ⟨scope, hscope⟩ | hfault
      · rcases ih h.2 with ⟨entries, hentries, hall⟩ | ⟨herror, hnot⟩
        · refine .inl ⟨(scope, text) :: entries, ?_, ⟨scope, hscope⟩, hall⟩
          simp only [Json.getString, hscope, ok_bind, hentries, pure, Except.pure]
        · refine .inr ⟨?_, fun hboth => hnot hboth.2⟩
          simp only [Json.getString, hscope, ok_bind, herror, error_bind, pure, Except.pure]
      · refine .inr ⟨?_, fun hboth => ?_⟩
        · simp only [Json.getString, hfault, ok_bind, error_bind]
        · obtain ⟨scope, hscope⟩ := hboth.1
          rw [hfault] at hscope
          cases hscope

/-- **The permissions are registered**, unless a path of the scopes cannot be made canonical. -/
theorem permission_init_cases (h : Typed options) (hmode : getMode options = .ok mode)
    (s : Launch) :
    (∃ perm, permission.init s.host options = .ok perm) ∧ ScopesResolve s options mode ∨
      permission.init s.host options = .error .filesystemError ∧ ¬ ScopesResolve s options mode := by
  obtain ⟨allow, hallow⟩ := exists_listOption h hmode
    (by simp [modeOptions] : ("nativeAllowList", OptionType.strings) ∈ modeOptions)
  obtain ⟨block, hblock⟩ := exists_listOption h hmode
    (by simp [modeOptions] : ("nativeBlockList", OptionType.strings) ∈ modeOptions)
  obtain ⟨commands, hcommands⟩ := exists_listOption h hmode
    (by simp [modeOptions] : ("commandAllowList", OptionType.strings) ∈ modeOptions)
  have hfits := h.effective
    (by simp [modeOptions] : ("filesystemScopes", OptionType.stringMap) ∈ modeOptions) mode
  rw [permission.init_eq, hallow, ok_bind, hblock, ok_bind, hcommands, ok_bind,
    permission.scopeOption, permission.optionFor, h.option_eq hmode, ok_bind, ScopesResolve]
  rcases null_or_stringMap hfits with hnull | ⟨members, hobj, hall⟩
  · rw [hnull]
    exact .inl ⟨⟨_, rfl⟩, List.forall_mem_nil _⟩
  · rw [hobj]
    simp only [Json.isNull, Bool.false_eq_true, if_false, Json.items]
    rcases mapM_readScope_cases s.host hall with ⟨entries, hentries, hresolve⟩ | ⟨herror, hnot⟩
    · rw [hentries]
      exact .inl ⟨⟨_, rfl⟩, hresolve⟩
    · rw [herror]
      exact .inr ⟨rfl, hnot⟩

/-- `__initFramework` returns, unless a path of the scopes cannot be made canonical. -/
lemma initFramework_cases (h : Typed options) (hmode : getMode options = .ok mode) (s : Launch) :
    (∃ auth, main.initFramework s options = .ok auth) ∧ ScopesResolve s options mode ∨
      main.initFramework s options = .error .filesystemError ∧ ¬ ScopesResolve s options mode := by
  obtain ⟨auth, hauth⟩ := exists_authbasic_init h hmode s.toTokens
  obtain ⟨storagePath, hstorage⟩ := exists_storage_init h hmode s.systemDataPath s.around.appPath
  obtain ⟨envs, henvs⟩ := exists_systemEnvs h hmode
  rw [main.initFramework, hauth, ok_bind]
  rcases permission_init_cases h hmode s with ⟨⟨perm, hperm⟩, hresolve⟩ | ⟨hfault, hnot⟩
  · rw [hperm, ok_bind, hstorage, ok_bind, henvs, ok_bind]
    exact .inl ⟨⟨_, rfl⟩, hresolve⟩
  · rw [hfault, error_bind]
    exact .inr ⟨rfl, hnot⟩

/-! ### The server and the logger -/

lemma exists_getNavigationUrl (h : Typed options) (hmode : getMode options = .ok mode) :
    ∃ url, getNavigationUrl options = .ok url := by
  rw [getNavigationUrl, h.option_eq hmode, ok_bind]
  rcases null_or_str (url_fits h mode) with hnull | ⟨url, hstr⟩
  · rw [hnull]
    exact ⟨_, rfl⟩
  · rw [hstr]
    exact ⟨_, rfl⟩

/-- **What `__startServerAsync` leaves**: the configuration as it is, without a server; and
with one a configuration of the right types that has a port, unless the program exits. -/
theorem startServer_cases (h : Typed options) (hmode : getMode options = .ok mode) (s : Launch) :
    isSet (effective options mode "enableServer") = false ∧
        (∃ url, main.startServer s options = .ok (some ⟨options, url, false⟩)) ∨
      isSet (effective options mode "enableServer") = true ∧
        (main.startServer s options = .ok none ∨
          ∃ served, main.startServer s options = .ok (some served) ∧ Typed served.options ∧
            getMode served.options = .ok mode ∧
            (effective served.options mode "port").isNull = false) := by
  obtain ⟨url, hurl⟩ := exists_getNavigationUrl h hmode
  have hserver := optionOr_flag h hmode
    (by simp [modeOptions] : ("enableServer", OptionType.scalar .boolean) ∈ modeOptions)
  rw [main.startServer, hurl, ok_bind, hserver, ok_bind]
  cases isSet (effective options mode "enableServer") with
  | false => exact .inl ⟨rfl, url, rfl⟩
  | true =>
      refine .inr ⟨rfl, ?_⟩
      cases s.listens with
      | some port =>
          obtain ⟨started, hinit, htyped, hmode', hport⟩ := init_typed h hmode port.2
          refine .inr ⟨⟨started.options, started.navigationUrl, true⟩, ?_, htyped, hmode', hport⟩
          show (neuserver.init port.1 options >>= _) = _
          rw [hinit]
          rfl
      | none =>
          obtain ⟨port, hport, -⟩ := configuredPort_typed h hmode
          refine .inl ?_
          show (neuserver.configuredPort options >>= _) = _
          rw [hport, ok_bind, hmode, ok_bind]
          rfl

lemma exists_loggingField {α : Type} (h : Typed options) (hmode : getMode options = .ok mode)
    {field : String} {t : Scalar} (hfield : (field, t) ∈ loggingFields)
    {read : Json → Except Fault α} {default : α}
    (hread : ∀ j, t.fits j = true → ∃ a, readOr read default j = .ok a) :
    ∃ a, loggingField options field.toList read default = .ok a := by
  have hfits := h.effective
    (by simp [modeOptions] : ("logging", OptionType.record loggingFields) ∈ modeOptions) mode
  rw [loggingField, h.option_eq hmode, ok_bind]
  cases hj : effective options mode "logging" with
  | null => exact ⟨default, rfl⟩
  | obj members =>
      have hrecord : isRecord loggingFields (.obj members) = true := by
        rw [hj] at hfits
        exact hfits
      exact hread _ (fits_of_isRecord hrecord hfield)
  | _ =>
      rw [hj] at hfits
      cases hfits

lemma exists_configureLogger (h : Typed options) (hmode : getMode options = .ok mode) :
    ∃ configuration, configureLogger options = .ok configuration := by
  have hbool : ∀ j, Scalar.boolean.fits j = true → ∃ b, readOr Json.getBool true j = .ok b :=
    fun j hj => exists_readOr_getBool hj true
  have hstring : ∀ j, Scalar.string.fits j = true →
      ∃ text, readOr Json.getString defaultLogFormat j = .ok text := fun j hj => by
    obtain ⟨text, htext, -⟩ := exists_readOr_getString hj defaultLogFormat
    exact ⟨text, htext⟩
  obtain ⟨enabled, henabled⟩ := exists_loggingField h hmode
    (by simp [loggingFields] : ("enabled", Scalar.boolean) ∈ loggingFields) hbool
  obtain ⟨toFile, htoFile⟩ := exists_loggingField h hmode
    (by simp [loggingFields] : ("writeToLogFile", Scalar.boolean) ∈ loggingFields) hbool
  obtain ⟨format, hformat⟩ := exists_loggingField h hmode
    (by simp [loggingFields] : ("format", Scalar.string) ∈ loggingFields) hstring
  rw [configureLogger, enableLogging, henabled, ok_bind, enableLogFile, htoFile, ok_bind, logFormat,
    hformat]
  exact ⟨_, rfl⟩

/-! ### The readers of the port -/

/-- No port is configured, and none was written by the server. -/
def portMissing (options : Json) (mode : AppMode) : Bool := (effective options mode "port").isNull

/-- A type error where a condition holds. -/
def failing (b : Bool) : Except Fault Unit := if b then .error .typeError else .ok ()

lemma failing_bind (b c : Bool) : (failing b >>= fun _ => failing c) = failing (b || c) := by
  cases b <;> rfl

lemma failing_eq_error_iff {b : Bool} : failing b = .error .typeError ↔ b = true := by
  cases b <;> simp [failing]

lemma port_cases (h : Typed options) (mode : AppMode) :
    effective options mode "port" = .null ∧ portMissing options mode = true ∨
      ∃ n, effective options mode "port" = .num n ∧ portMissing options mode = false := by
  rcases null_or_num (port_fits h mode) with hport | ⟨n, hport⟩
  · exact .inl ⟨hport, by rw [portMissing, hport]; rfl⟩
  · exact .inr ⟨n, hport, by rw [portMissing, hport]; rfl⟩

/-- **The auth information**: the payload takes the port for granted. -/
lemma exportAuthInfo_eq (h : Typed options) (hmode : getMode options = .ok mode)
    (createsTmp : Bool) (tokens : extensions.Tokens) :
    authbasic.exportAuthInfo createsTmp tokens options =
      failing (createsTmp && portMissing options mode) := by
  cases createsTmp with
  | false => rfl
  | true =>
      show (authbasic.makeAuthInfoPayload tokens options >>= _) = _
      rw [authbasic.makeAuthInfoPayload, h.option_eq hmode, ok_bind]
      rcases port_cases h mode with ⟨hport, hmissing⟩ | ⟨n, hport, hmissing⟩
      · rw [hport, hmissing]
        rfl
      · rw [hport, hmissing]
        rfl

/-! ### The extensions -/

/-- An extension has an id and a command, so that a process is started for it. -/
def startsProcess (osName : Str) (extension : Json) : Bool :=
  extension.has "id" && (extension.has "command" || extension.has ("command".toList ++ osName))

/-- The key for the platform is among fields that hold the keys for all platforms. -/
lemma exists_keyForOs (s : Launch) (key : String) {fields : List (String × Scalar)}
    (h : ∀ osName ∈ ["Linux", "Windows", "Darwin", "FreeBSD"], (key ++ osName, .string) ∈ fields) :
    ∃ keyForOs, keyForOs.toList = key.toList ++ s.around.osName ∧
      (keyForOs, Scalar.string) ∈ fields := by
  obtain ⟨osName, hmem, hosName⟩ := List.mem_map.mp s.osName_mem
  exact ⟨key ++ osName, by rw [String.toList_append, hosName], h osName hmem⟩

lemma ended_andThen (first second : extensions.Steps) :
    (first.andThen second).ended = first.ended >>= fun _ => second.ended := by
  rw [extensions.Steps.andThen]
  cases hended : first.ended with
  | ok _ => rfl
  | error fault => exact hended

/-- The command of an extension that has one is read. -/
lemma exists_commandOf {extension : Json} (hextension : isRecord extensionFields extension = true)
    (h : (extension.has "command" || extension.has ("command".toList ++ s.around.osName)) = true) :
    ∃ command, extensions.commandOf extension ("command".toList ++ s.around.osName) = .ok command := by
  obtain ⟨keyForOs, hkey, hmem⟩ := exists_keyForOs s "command"
    (by simp [extensionFields] : ∀ osName ∈ _, (_, Scalar.string) ∈ extensionFields)
  rw [← hkey] at h ⊢
  rw [extensions.commandOf, hasField_eq, ok_bind]
  cases hforOs : extension.has keyForOs.toList with
  | true =>
      obtain ⟨command, hcommand⟩ := indexConst_of_has hextension hmem hforOs
      rw [hcommand]
      exact ⟨command, rfl⟩
  | false =>
      rw [hforOs, Bool.or_false] at h
      obtain ⟨command, hcommand⟩ := indexConst_of_has hextension
        (by simp [extensionFields] : ("command", Scalar.string) ∈ extensionFields) h
      rw [if_neg Bool.false_ne_true, hcommand]
      exact ⟨command, rfl⟩

/-- **The process of an extension**: what it is told takes the port for granted. -/
lemma startProcess_ended (h : Typed options) (hmode : getMode options = .ok mode)
    {extension : Json} (hextension : isRecord extensionFields extension = true) (extensionId : Str) :
    (extensions.startProcess (s.context options) extension extensionId).ended =
      failing (portMissing options mode &&
        (extension.has "command" || extension.has ("command".toList ++ s.around.osName))) := by
  rw [extensions.startProcess, hasField_eq, hasField_eq]
  show (extensions.Steps.reading (.ok (extension.has "command" ||
    extension.has ("command".toList ++ s.around.osName))) _).ended = _
  cases hcommand : extension.has "command" || extension.has ("command".toList ++ s.around.osName) with
  | false =>
      rw [Bool.and_false]
      rfl
  | true =>
      obtain ⟨command, hread⟩ := exists_commandOf hextension hcommand
      have hoption : getOptionForCurrentMode (s.context options).options "port" =
          .ok (effective options mode "port") := h.option_eq hmode "port"
      show (extensions.Steps.reading
        (extensions.commandOf extension ("command".toList ++ s.around.osName)) _).ended = _
      rw [hread]
      show (extensions.Steps.reading
        (extensions.buildExtensionProcessInput (s.context options) extensionId) _).ended = _
      rw [extensions.buildExtensionProcessInput, hoption, ok_bind, Bool.and_true]
      rcases port_cases h mode with ⟨hport, hmissing⟩ | ⟨n, hport, hmissing⟩
      · rw [hport, hmissing]
        rfl
      · rw [hport, hmissing]
        rfl

/-- An extension is started, unless the port that it is told is missing. -/
lemma startExtension_ended (h : Typed options) (hmode : getMode options = .ok mode)
    {extension : Json} (hextension : isRecord extensionFields extension = true) :
    (extensions.startExtension (s.context options) extension).ended =
      failing (portMissing options mode && startsProcess s.around.osName extension) := by
  rw [extensions.startExtension, hasField_eq, startsProcess]
  cases hid : extension.has "id" with
  | false =>
      rw [Bool.false_and, Bool.and_false]
      rfl
  | true =>
      obtain ⟨extensionId, hextensionId⟩ := indexConst_of_has hextension
        (by simp [extensionFields] : ("id", Scalar.string) ∈ extensionFields) hid
      have hread : (extension.indexConst "id" >>= Json.getString) = .ok extensionId := by
        rw [hextensionId]
        rfl
      rw [Bool.true_and, ← startProcess_ended h hmode hextension extensionId]
      show (extensions.Steps.reading (extension.indexConst "id" >>= Json.getString) _).ended = _
      rw [hread]
      show (extensions.Steps.andThen _ _).ended = _
      rw [ended_andThen]
      cases (extensions.startProcess (s.context options) extension extensionId).ended with
      | ok _ => rfl
      | error fault => rfl

/-- The extensions that are configured. -/
def configured : Json → List Json
  | .arr xs => xs
  | _ => []

/-- **The extensions**: they are started up to the first that has a process, where the port is
missing. -/
theorem initSteps_ended (h : Typed options) (hmode : getMode options = .ok mode) (s : Launch) :
    (extensions.initSteps (s.context options)).ended = failing (portMissing options mode &&
      (configured (effective options mode "extensions")).any (startsProcess s.around.osName)) := by
  have hfits := h.effective
    (by simp [modeOptions] : ("extensions", OptionType.records extensionFields) ∈ modeOptions) mode
  have hoption : getOptionForCurrentMode (s.context options).options "extensions" =
      .ok (effective options mode "extensions") := h.option_eq hmode "extensions"
  rw [extensions.initSteps, hoption]
  cases hj : effective options mode "extensions" with
  | null =>
      rw [configured, List.any_nil, Bool.and_false]
      · rfl
      · exact fun xs heq => by cases heq
  | arr xs =>
      have hall : ∀ x ∈ xs, isRecord extensionFields x = true := by
        rw [hj] at hfits
        exact List.all_eq_true.mp hfits
      show (xs.foldr (fun extension rest =>
        (extensions.startExtension (s.context options) extension).andThen rest) {}).ended = _
      rw [configured]
      clear hj hfits hoption
      induction xs with
      | nil =>
          rw [List.any_nil, Bool.and_false]
          rfl
      | cons x xs ih =>
          obtain ⟨hx, hxs⟩ := List.forall_mem_cons.mp hall
          rw [List.foldr_cons, ended_andThen, startExtension_ended h hmode hx, ih hxs, failing_bind,
            ← Bool.and_or_distrib_left, List.any_cons]
  | _ =>
      rw [hj] at hfits
      cases hfits

/-- The reasons for which `__initExtra` reads the port. -/
def extraReadsPort (s : Launch) (options : Json) (mode : AppMode) : Bool :=
  (isSet (effective options mode "exportAuthInfo") && s.createsTmp) ||
    (isSet (effective options mode "enableExtensions") &&
      (configured (effective options mode "extensions")).any (startsProcess s.around.osName))

/-- `__initExtra` raises a type error where it reads a port that is missing. -/
lemma initExtra_eq (h : Typed options) (hmode : getMode options = .ok mode) (s : Launch) :
    main.initExtra s options = failing (portMissing options mode && extraReadsPort s options mode) := by
  have hextensions := optionOr_flag h hmode
    (by simp [modeOptions] : ("enableExtensions", OptionType.scalar .boolean) ∈ modeOptions)
  have hexport := optionOr_flag h hmode
    (by simp [modeOptions] : ("exportAuthInfo", OptionType.scalar .boolean) ∈ modeOptions)
  rw [main.initExtra, hextensions, ok_bind, hexport, ok_bind, extraReadsPort,
    exportAuthInfo_eq h hmode, initSteps_ended h hmode]
  have hlast : ∀ c b, (if c = true then failing b else pure ()) = failing (c && b) := fun c b => by
    cases c <;> rfl
  have hfirst : ∀ c a b, (if c = true then failing a >>= fun _ => failing b else failing b) =
      failing ((c && a) || b) := fun c a b => by
    cases c with
    | false => rfl
    | true => exact failing_bind a b
  simp only [hlast, hfirst]
  refine congrArg failing ?_
  cases portMissing options mode <;> simp

end Steps

end Neutralino.main
