import Neutralino.Config.AppId
import Neutralino.Config.GlobalVars
import Neutralino.Library.Declarations
import Mathlib.Data.List.Nodup

/-!
The built-in global variables of `settings::getGlobalVars`.

* `Told`: what the script takes from the configuration and the system.
* `declarations`: the declarations of the script, in their order (`getGlobalVars_eq`).
* `builtins`: the variables of the directories, the version, the configuration file
  and the locale, with their values.
* `BuiltIn`, `CustomsApart`: what is known of the other declarations.
* `builtins_bound_iff`: **when the built-in variables have their values**: these are
  pasted between quotes, so they must be verbatim.
-/

namespace Neutralino.settings

open JsonText (Initialiser Binds binds_iff)
open Quoted (IsVerbatim)

/-! ### The declarations -/

/-- What the script takes from the configuration and the system. -/
structure Told where
  appId : Str
  version : Option Str
  port : ℤ
  mode : AppMode
  cwd : Str
  customs : List (Str × Json)

/-- The values are those that `getGlobalVars` reads. -/
structure Told.Of (told : Told) (around : Surroundings) (options : Json) : Prop where
  appId : getAppId options = .ok told.appId
  version : options.index "version" = .ok (told.version.elim .null .str)
  port : (getOptionForCurrentMode options "port" >>= Json.getInt) = .ok told.port
  mode : getMode options = .ok told.mode
  cwd : around.currentDirectory = .ok told.cwd
  customs : ∃ j, getOptionForCurrentMode options "globalVariables" = .ok j ∧ told.customs = j.items

/-- The variables of the directories, the version, the configuration file and the
locale, with their values. -/
def builtins (around : Surroundings) (told : Told) : List (Str × Str) :=
  (told.version.toList.map fun version => ("NL_APPVERSION".toList, version)) ++
    [("NL_CWD".toList, told.cwd), ("NL_PATH".toList, around.appPath),
      ("NL_DATAPATH".toList, around.appDataPath), ("NL_CONFIGFILE".toList, around.configFile),
      ("NL_LOCALE".toList, around.localeName)]

/-- The declarations up to the version. -/
def declarationsHead (around : Surroundings) (told : Told) : List (Str × Initialiser ℤ) :=
  [("NL_OS".toList, .quoted around.osName), ("NL_ARCH".toList, .quoted around.arch),
    ("NL_VERSION".toList, .quoted around.version), ("NL_COMMIT".toList, .quoted around.commit),
    ("NL_APPID".toList, .quoted told.appId)]

/-- The declaration of the version, where there is one. -/
def versionDeclaration (told : Told) : List (Str × Initialiser ℤ) :=
  told.version.toList.map fun version => ("NL_APPVERSION".toList, .quoted version)

/-- The declarations after the version. -/
def declarationsRest (around : Surroundings) (told : Told) (token : Str) :
    List (Str × Initialiser ℤ) :=
  [("NL_PORT".toList, .json (.num told.port)), ("NL_MODE".toList, .quoted (appModeToStr told.mode)),
    ("NL_TOKEN".toList, .quoted token), ("NL_CWD".toList, .quoted told.cwd),
    ("NL_ARGS".toList, .json (strings around.globalArgs)),
    ("NL_PATH".toList, .quoted around.appPath), ("NL_DATAPATH".toList, .quoted around.appDataPath),
    ("NL_PID".toList, .json (.num around.processId)),
    ("NL_RESMODE".toList, .quoted around.resourceMode),
    ("NL_EXTENABLED".toList, .json (.bool around.extensionsInitialized)),
    ("NL_CMETHODS".toList, .json (strings around.customMethods)),
    ("NL_WSAVSTLOADED".toList, .json (.bool around.savedStateLoaded)),
    ("NL_CONFIGFILE".toList, .quoted around.configFile),
    ("NL_LOCALE".toList, .quoted around.localeName),
    ("NL_COMPDATA".toList, .quoted around.compilationData)]

/-- The declarations of the custom variables. -/
def customDeclarations (told : Told) : List (Str × Initialiser ℤ) :=
  told.customs.map fun m => ("NL_".toList ++ m.1, .parsed m.2.value)

/-- The declarations of the script, in their order. -/
def declarations (around : Surroundings) (told : Told) (token : Str) :
    List (Str × Initialiser ℤ) :=
  declarationsHead around told ++ versionDeclaration told ++ declarationsRest around told token ++
    customDeclarations told

lemma quotedVariable_eq (name : String) (value : Str) :
    quotedVariable name value = JsonText.declaration (name.toList, (.quoted value : Initialiser ℤ)) := by
  show "var ".toList ++ name.toList ++ JsonText.literalStart ++ value ++ ['\'', ';'] =
    "var ".toList ++ name.toList ++ (JsonText.literalStart ++ value ++ ['\'', ';'])
  simp only [List.append_assoc]

lemma plainVariable_eq (name : String) (value : JsonText.Value ℤ) :
    plainVariable name (JsonText.dump value) = JsonText.declaration (name.toList, .json value) := by
  show "var ".toList ++ name.toList ++ ['='] ++ JsonText.dump value ++ [';'] =
    "var ".toList ++ name.toList ++ ('=' :: (JsonText.dump value ++ [';']))
  simp only [List.append_assoc, List.cons_append, List.nil_append]

lemma globalVariable_eq (key : Str) (value : JsonText.Value ℤ) :
    globalVariable key value = JsonText.declaration ("NL_".toList ++ key, .parsed value) := by
  show "var ".toList ++ "NL_".toList ++ key ++ JsonText.parseStart ++ JsonText.dump value ++
      ['\'', ')', ';'] = "var ".toList ++ ("NL_".toList ++ key) ++
        (JsonText.parseStart ++ JsonText.dump value ++ ['\'', ')', ';'])
  simp only [List.append_assoc]

section Script

variable {around : Surroundings} {options : Json} {told : Told} (htold : told.Of around options)

include htold

lemma appVersionVariable_eq :
    appVersionVariable options = .ok (JsonText.script (versionDeclaration told)) := by
  rw [appVersionVariable, htold.version, ok_bind, versionDeclaration]
  cases told.version with
  | none => rfl
  | some version =>
      show Except.ok (quotedVariable "NL_APPVERSION" version) = _
      rw [quotedVariable_eq]
      exact congrArg Except.ok (List.append_nil _).symm

lemma globalVarsHead_eq : globalVarsHead around options =
    .ok (JsonText.script (declarationsHead around told ++ versionDeclaration told)) := by
  rw [globalVarsHead, htold.appId, ok_bind, appVersionVariable_eq htold, ok_bind]
  simp only [quotedVariable_eq, JsonText.script, declarationsHead, List.flatMap_append,
    List.flatMap_cons, List.flatMap_nil, List.append_assoc, List.nil_append]
  rfl

/-- **The script is that of the declarations.** -/
lemma getGlobalVars_eq (auth : authbasic.State) : (getGlobalVars around options auth).1 =
    .ok (JsonText.script (declarations around told (authbasic.getToken auth).1)) := by
  obtain ⟨j, hj, hcustoms⟩ := htold.customs
  have hport : plainVariable "NL_PORT" (decimal told.port) =
      JsonText.declaration ("NL_PORT".toList, .json (.num told.port)) :=
    plainVariable_eq "NL_PORT" (.num told.port)
  have hpid : plainVariable "NL_PID" (decimal around.processId) =
      JsonText.declaration ("NL_PID".toList, .json (.num around.processId)) :=
    plainVariable_eq "NL_PID" (.num around.processId)
  have hbool : ∀ (name : String) (b : Bool), plainVariable name (JsonText.boolText b) =
      JsonText.declaration (name.toList, (.json (.bool b) : Initialiser ℤ)) :=
    fun name b => plainVariable_eq name (.bool b)
  have hstrings : ∀ (name : String) (xs : List Str),
      plainVariable name (helpers.jsonToString (strings xs)) =
        JsonText.declaration (name.toList, (.json (strings xs) : Initialiser ℤ)) :=
    fun name xs => plainVariable_eq name (strings xs)
  have hbefore : globalVarsBefore around options = .ok
      (JsonText.script (declarationsHead around told ++ versionDeclaration told) ++
        plainVariable "NL_PORT" (decimal told.port) ++
          quotedVariable "NL_MODE" (appModeToStr told.mode)) := by
    rw [globalVarsBefore, globalVarsHead_eq htold, ok_bind]
    obtain ⟨jPort, hjPort, hgetPort⟩ := bind_eq_ok.mp htold.port
    rw [hjPort, ok_bind, hgetPort, ok_bind, htold.mode, ok_bind]
    rfl
  have hcustom : (j.items.flatMap fun m => globalVariable m.1 m.2.value) =
      JsonText.script (customDeclarations told) := by
    rw [customDeclarations, hcustoms, JsonText.script, List.flatMap_map]
    exact List.flatMap_congr fun m _ => globalVariable_eq _ _
  rw [getGlobalVars, hbefore]
  simp only [globalVarsAfter, htold.cwd, hj, ok_bind, hcustom, quotedVariable_eq, hport, hpid,
    hbool, hstrings]
  refine congrArg Except.ok ?_
  simp only [declarations, declarationsRest, JsonText.script, List.flatMap_append,
    List.flatMap_cons, List.flatMap_nil, List.append_assoc, List.nil_append]

end Script

/-! ### The other declarations -/

/-- The names of the built-in variables. -/
def builtinNames : List Str :=
  ["NL_APPVERSION", "NL_CWD", "NL_PATH", "NL_DATAPATH", "NL_CONFIGFILE", "NL_LOCALE"].map
    String.toList

/-- The names of the script, in their order. -/
def declaredNames (told : Told) : List Str :=
  ["NL_OS", "NL_ARCH", "NL_VERSION", "NL_COMMIT", "NL_APPID"].map String.toList ++
    (if told.version.isSome then ["NL_APPVERSION".toList] else []) ++
    ["NL_PORT", "NL_MODE", "NL_TOKEN", "NL_CWD", "NL_ARGS", "NL_PATH", "NL_DATAPATH", "NL_PID",
      "NL_RESMODE", "NL_EXTENABLED", "NL_CMETHODS", "NL_WSAVSTLOADED", "NL_CONFIGFILE",
      "NL_LOCALE", "NL_COMPDATA"].map String.toList ++
    told.customs.map fun m => "NL_".toList ++ m.1

/-- The names of the platform and of the resource mode, the constants of the build,
and the characters of the token. -/
structure BuiltIn (around : Surroundings) (auth : authbasic.State) : Prop where
  osName : around.osName ∈ ["Linux", "Windows", "Darwin", "FreeBSD"].map String.toList
  arch : around.arch ∈ ["x64", "arm", "itanium", "ia32", "unknown"].map String.toList
  version : ∀ c ∈ around.version, IsVerbatim c
  commit : ∀ c ∈ around.commit, IsVerbatim c
  resourceMode : around.resourceMode ∈ ["directory", "bundle", "embedded"].map String.toList
  compilationData : ∀ c ∈ around.compilationData, IsVerbatim c
  token : ∀ c ∈ auth.token, isWord c = true ∨ c = '-' ∨ c = '.'

/-- Each custom variable is declared by one statement, under a name that is not one
of the built-in variables. -/
def Told.CustomsApart (told : Told) : Prop :=
  ∀ m ∈ told.customs, (∀ c ∈ m.1, JsonText.isNameChar c = true) ∧
    (∀ s, .str s ∈ JsonText.tokens m.2.value → '\'' ∉ s) ∧ "NL_".toList ++ m.1 ∉ builtinNames

lemma verbatim_of_isWord {c : Char} (h : isWord c = true) : IsVerbatim c := by
  refine ⟨?_, ?_, ?_, ?_⟩ <;> rintro rfl <;> cases h

/-- The texts of a closed list are verbatim where each of them is. -/
lemma verbatim_of_mem {texts : List Str} {text : Str} (h : text ∈ texts)
    (hall : texts.all (fun s => s.all fun c => decide (IsVerbatim c)) = true) :
    ∀ c ∈ text, IsVerbatim c := by
  intro c hc
  have htext := List.all_eq_true.mp hall text h
  exact of_decide_eq_true (List.all_eq_true.mp htext c hc)

lemma getAppId_verbatim {options : Json} {appId : Str} (h : getAppId options = .ok appId) :
    ∀ c ∈ appId, IsVerbatim c := by
  obtain ⟨applicationId, -, h⟩ := bind_eq_ok.mp h
  split_ifs at h with hnull
  · obtain rfl := Except.ok.inj h
    exact verbatim_of_mem (List.mem_singleton_self _) (by decide)
  · obtain ⟨text, -, h⟩ := bind_eq_ok.mp h
    obtain rfl := Except.ok.inj h
    intro c hc
    rcases (sanitised_sanitise text).chars c hc with hword | rfl
    · exact verbatim_of_isWord hword
    · decide

lemma mem_token_of_mem_getToken {auth : authbasic.State} {c : Char}
    (h : c ∈ (authbasic.getToken auth).1) : c ∈ auth.token := by
  rw [authbasic.getToken] at h
  split_ifs at h
  · cases h
  · exact h

/-- The declaration of a built-in variable. -/
def IsBuiltin (around : Surroundings) (told : Told) (d : Str × Initialiser ℤ) : Prop :=
  ∃ value, d.2 = .quoted value ∧ (d.1, value) ∈ builtins around told

/-- A sound declaration of another variable. -/
def IsApart (d : Str × Initialiser ℤ) : Prop := d.1 ∉ builtinNames ∧ d.2.Sound

lemma isApart {name : Str} {i : Initialiser ℤ} (hname : name ∉ builtinNames) (h : i.Sound) :
    IsApart (name, i) := ⟨hname, h⟩

section Declarations

variable {around : Surroundings} {options : Json} {auth : authbasic.State} {told : Told}
  (hbuiltIn : BuiltIn around auth)

include hbuiltIn

lemma isApart_of_mem_head (htold : told.Of around options) {d : Str × Initialiser ℤ}
    (hd : d ∈ declarationsHead around told) :
    IsApart d := by
  simp only [declarationsHead, List.mem_cons, List.not_mem_nil, or_false] at hd
  rcases hd with rfl | rfl | rfl | rfl | rfl
  · exact isApart (by decide) (verbatim_of_mem hbuiltIn.osName (by decide))
  · exact isApart (by decide) (verbatim_of_mem hbuiltIn.arch (by decide))
  · exact isApart (by decide) hbuiltIn.version
  · exact isApart (by decide) hbuiltIn.commit
  · exact isApart (by decide) (getAppId_verbatim htold.appId)

lemma cases_of_mem_rest {d : Str × Initialiser ℤ}
    (hd : d ∈ declarationsRest around told (authbasic.getToken auth).1) :
    IsBuiltin around told d ∨ IsApart d := by
  have hjson : ∀ value : JsonText.Value ℤ, (Initialiser.json value).Sound :=
    fun _ n _ => readBack_int n
  have hmode : ∀ c ∈ appModeToStr told.mode, IsVerbatim c := by
    refine verbatim_of_mem
      (show appModeToStr told.mode ∈ [.window, .browser, .cloud, .chrome].map appModeToStr from
        List.mem_map_of_mem ?_) (by decide)
    cases told.mode <;> decide
  have htoken : ∀ c ∈ (authbasic.getToken auth).1, IsVerbatim c := by
    intro c hc
    rcases hbuiltIn.token c (mem_token_of_mem_getToken hc) with hword | rfl | rfl
    · exact verbatim_of_isWord hword
    · decide
    · decide
  simp only [declarationsRest, List.mem_cons, List.not_mem_nil, or_false] at hd
  rcases hd with rfl | rfl | rfl | rfl | rfl | rfl | rfl | rfl | rfl | rfl | rfl | rfl | rfl | rfl |
    rfl
  · exact .inr (isApart (by decide) (hjson _))
  · exact .inr (isApart (by decide) hmode)
  · exact .inr (isApart (by decide) htoken)
  · exact .inl ⟨_, rfl, by simp [builtins]⟩
  · exact .inr (isApart (by decide) (hjson _))
  · exact .inl ⟨_, rfl, by simp [builtins]⟩
  · exact .inl ⟨_, rfl, by simp [builtins]⟩
  · exact .inr (isApart (by decide) (hjson _))
  · exact .inr (isApart (by decide) (verbatim_of_mem hbuiltIn.resourceMode (by decide)))
  · exact .inr (isApart (by decide) (hjson _))
  · exact .inr (isApart (by decide) (hjson _))
  · exact .inr (isApart (by decide) (hjson _))
  · exact .inl ⟨_, rfl, by simp [builtins]⟩
  · exact .inl ⟨_, rfl, by simp [builtins]⟩
  · exact .inr (isApart (by decide) hbuiltIn.compilationData)

/-- Every declaration is that of a built-in variable, or a sound one of another. -/
lemma cases_of_mem_declarations (htold : told.Of around options) (hcustoms : told.CustomsApart)
    {d : Str × Initialiser ℤ}
    (hd : d ∈ declarations around told (authbasic.getToken auth).1) :
    IsBuiltin around told d ∨ IsApart d := by
  simp only [declarations, List.mem_append] at hd
  rcases hd with ((hd | hd) | hd) | hd
  · exact .inr (isApart_of_mem_head hbuiltIn htold hd)
  · obtain ⟨version, hversion, rfl⟩ := List.mem_map.mp hd
    exact .inl ⟨version, rfl, List.mem_append_left _ (List.mem_map_of_mem hversion)⟩
  · exact cases_of_mem_rest hbuiltIn hd
  · obtain ⟨m, hm, rfl⟩ := List.mem_map.mp hd
    obtain ⟨-, hquote, hname⟩ := hcustoms m hm
    exact .inr (isApart hname hquote)

end Declarations

/-- A built-in variable has one value. -/
lemma builtins_unique {around : Surroundings} {told : Told} {name value value' : Str}
    (h : (name, value) ∈ builtins around told) (h' : (name, value') ∈ builtins around told) :
    value = value' := by
  have hnodup : ((builtins around told).map Prod.fst).Nodup := by
    rw [builtins]
    cases told.version with
    | none => exact (by decide : builtinNames.tail.Nodup)
    | some version => exact (by decide : builtinNames.Nodup)
  have hpair := List.inj_on_of_nodup_map hnodup h h' rfl
  exact (Prod.mk.inj hpair).2

lemma mem_builtinNames {around : Surroundings} {told : Told} {name value : Str}
    (h : (name, value) ∈ builtins around told) : name ∈ builtinNames := by
  rcases List.mem_append.mp h with h | h
  · obtain ⟨version, -, heq⟩ := List.mem_map.mp h
    rw [← (Prod.mk.inj heq).1]
    decide
  · have hname := List.mem_map_of_mem (f := Prod.fst) h
    exact List.mem_cons_of_mem _ hname

/-- Every built-in variable is declared. -/
lemma mem_declarations {around : Surroundings} {told : Told} {b : Str × Str}
    (h : b ∈ builtins around told) (token : Str) :
    (b.1, .quoted b.2) ∈ declarations around told token := by
  refine List.mem_append_left _ ?_
  rcases List.mem_append.mp h with h | h
  · obtain ⟨version, hversion, rfl⟩ := List.mem_map.mp h
    exact List.mem_append_left _ (List.mem_append_right _ (List.mem_map_of_mem hversion))
  · refine List.mem_append_right _ ?_
    simp only [List.mem_cons, List.not_mem_nil, or_false] at h
    rcases h with rfl | rfl | rfl | rfl | rfl <;> simp [declarationsRest]

lemma declarations_fst (around : Surroundings) (told : Told) (token : Str) :
    (declarations around told token).map Prod.fst = declaredNames told := by
  rw [declarations, List.map_append, List.map_append, List.map_append, customDeclarations,
    List.map_map, versionDeclaration, List.map_map, declaredNames]
  cases told.version <;> rfl

lemma isName_of_mem {told : Told} (hcustoms : told.CustomsApart) {name : Str}
    (h : name ∈ declaredNames told) : JsonText.isName name = true := by
  have hclosed : ∀ {names : List Str}, name ∈ names →
      names.all (fun name => JsonText.isName name) = true → JsonText.isName name = true :=
    fun hmem hall => List.all_eq_true.mp hall _ hmem
  simp only [declaredNames, List.mem_append] at h
  rcases h with ((h | h) | h) | h
  · exact hclosed h (by decide)
  · split_ifs at h
    · exact hclosed h (by decide)
    · cases h
  · exact hclosed h (by decide)
  · obtain ⟨m, hm, rfl⟩ := List.mem_map.mp h
    have hchars := (hcustoms m hm).1
    show (! 'N'.isDigit && ("NL_".toList ++ m.1).all JsonText.isNameChar) = true
    rw [List.all_append, List.all_eq_true.mpr hchars]
    decide

/-- The script of the declarations binds the built-in variables where their values are
verbatim. -/
lemma binds_declarations_iff {around : Surroundings} {options : Json} {auth : authbasic.State}
    {told : Told} (htold : told.Of around options) (hbuiltIn : BuiltIn around auth)
    (hcustoms : told.CustomsApart) :
    Binds ℤ (JsonText.script (declarations around told (authbasic.getToken auth).1))
        (declaredNames told) (fun name value => (name, value) ∈ builtins around told) ↔
      ∀ b ∈ builtins around told, ∀ c ∈ b.2, IsVerbatim c := by
  have hcases : ∀ d ∈ declarations around told (authbasic.getToken auth).1,
      IsBuiltin around told d ∨ IsApart d :=
    fun d hd => cases_of_mem_declarations hbuiltIn htold hcustoms hd
  rw [← declarations_fst around told (authbasic.getToken auth).1, binds_iff]
  · constructor
    · exact fun h b hb => h _ (mem_declarations hb _) b.2 hb
    · exact fun h d _ value hvalue => h _ hvalue
  · intro d hd
    refine isName_of_mem hcustoms ?_
    rw [← declarations_fst around told (authbasic.getToken auth).1]
    exact List.mem_map_of_mem hd
  · intro d hd value hvalue
    rcases hcases d hd with ⟨value', hquoted, hvalue'⟩ | ⟨hname, -⟩
    · rw [hquoted, builtins_unique hvalue hvalue']
    · exact absurd (mem_builtinNames hvalue) hname
  · intro d hd hnone
    rcases hcases d hd with ⟨value, -, hvalue⟩ | ⟨-, hsound⟩
    · exact absurd hvalue (hnone value)
    · exact hsound

/-- **When the built-in variables have their values**: the script declares the
variables it should, each of the directories, the version, the configuration file and
the locale with its value, exactly when these hold no quote, no backslash and no end of
a line. -/
theorem builtins_bound_iff {around : Surroundings} {options : Json} {auth : authbasic.State}
    {told : Told} {script : Str} (hscript : (getGlobalVars around options auth).1 = .ok script)
    (htold : told.Of around options) (hbuiltIn : BuiltIn around auth) (hcustoms : told.CustomsApart) :
    Binds ℤ script (declaredNames told) (fun name value => (name, value) ∈ builtins around told) ↔
      ∀ b ∈ builtins around told, ∀ c ∈ b.2, IsVerbatim c := by
  obtain rfl : JsonText.script (declarations around told (authbasic.getToken auth).1) = script :=
    Except.ok.inj ((getGlobalVars_eq htold auth).symm.trans hscript)
  exact binds_declarations_iff htold hbuiltIn hcustoms

/-! ### An application -/

/-- An application at a path, started on Linux. -/
def sampleSurroundings (appPath : Str) : Surroundings where
  osName := "Linux"
  arch := "x64"
  version := "6.3.0"
  commit := "latest"
  currentDirectory := .ok "/home/me"
  globalArgs := [appPath ++ "/app".toList]
  appPath := appPath
  appDataPath := appPath
  processId := 42
  resourceMode := "bundle"
  extensionsInitialized := false
  customMethods := []
  savedStateLoaded := false
  configFile := "/neutralino.config.json"
  localeName := "en_US"
  compilationData := []

/-- Its configuration. -/
def sampleOptions : Json := .obj [("port", .num 8080), ("version", .str "1.2.0")]

/-- What its script takes from them. -/
def sampleTold : Told where
  appId := "js.neutralino.framework"
  version := some "1.2.0"
  port := 8080
  mode := .window
  cwd := "/home/me"
  customs := []

/-- Its token. -/
def sampleAuth : authbasic.State where
  token := "a.b"
  token_ne_nil := by decide

lemma sampleTold_of (appPath : Str) : sampleTold.Of (sampleSurroundings appPath) sampleOptions where
  appId := rfl
  version := rfl
  port := rfl
  mode := rfl
  cwd := rfl
  customs := ⟨.null, rfl, rfl⟩

lemma sampleBuiltIn (appPath : Str) : BuiltIn (sampleSurroundings appPath) sampleAuth where
  osName := (by decide : "Linux".toList ∈ ["Linux", "Windows", "Darwin", "FreeBSD"].map String.toList)
  arch := (by decide : "x64".toList ∈ ["x64", "arm", "itanium", "ia32", "unknown"].map String.toList)
  version := verbatim_of_mem (List.mem_singleton_self "6.3.0".toList) (by decide)
  commit := verbatim_of_mem (List.mem_singleton_self "latest".toList) (by decide)
  resourceMode :=
    (by decide : "bundle".toList ∈ ["directory", "bundle", "embedded"].map String.toList)
  compilationData := nofun
  token := forall_mem_of_all (by decide)

/-- An application in an ordinary directory has its variables. -/
theorem sample_builtins_bound :
    Binds ℤ (JsonText.script (declarations (sampleSurroundings "/opt/app") sampleTold "a.b"))
      (declaredNames sampleTold)
      (fun name value => (name, value) ∈ builtins (sampleSurroundings "/opt/app") sampleTold) := by
  have hverbatim : (builtins (sampleSurroundings "/opt/app") sampleTold).all
      (fun b => b.2.all fun c => decide (IsVerbatim c)) = true := by decide
  refine (builtins_bound_iff (getGlobalVars_eq (sampleTold_of _) sampleAuth) (sampleTold_of _)
    (sampleBuiltIn _) nofun).mpr fun b hb => ?_
  exact forall_mem_of_all (List.all_eq_true.mp hverbatim b hb)

/-- A quote in the path of the application ends its literal. -/
theorem quoted_path_not_bound :
    ¬ ∀ (around : Surroundings) (options : Json) (auth : authbasic.State) (told : Told) (script : Str),
      (getGlobalVars around options auth).1 = .ok script → told.Of around options →
        BuiltIn around auth → told.CustomsApart →
          Binds ℤ script (declaredNames told)
            (fun name value => (name, value) ∈ builtins around told) := by
  intro h
  have hbinds := h _ _ _ _ _ (getGlobalVars_eq (sampleTold_of "/home/me/it's") sampleAuth)
    (sampleTold_of _) (sampleBuiltIn _) nofun
  have hverbatim := (binds_declarations_iff (sampleTold_of _) (sampleBuiltIn _) nofun).mp hbinds
  have hpath : ("NL_PATH".toList, "/home/me/it's".toList) ∈
      builtins (sampleSurroundings "/home/me/it's") sampleTold := by decide
  exact (hverbatim _ hpath '\'' (by decide)).1 rfl

end Neutralino.settings
