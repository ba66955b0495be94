import Neutralino.Base.Errors
import Neutralino.Base.Numbers
import Neutralino.Base.Pointer
import Neutralino.Base.Settings

/-!
The command line: `setGlobalArgs` and the configuration overrides it collects.

* `parseArg`: a flag and its value; `parseArg_flag`: a flag is written without one.
* `cliMappings`, `cliMappingAliases`: the option of each flag, and the options
  that a flag also overrides in the section of every mode.
* `State`: the variables of `settings.cpp`.
* `applyConfigOverride`, `setGlobalArgs`: the overrides, in the order of the
  arguments.
* `setGlobalArgs_configOverrides`: **what is collected**, argument by argument.
-/

namespace Neutralino

/-- `dirname`, which keeps two slashes at the beginning if there are exactly two. -/
def fs.getDirectoryName (filename : Str) : Str :=
  let root : Str := if filename.takeWhile (· = '/') = "//".toList then "//" else "/"
  let path := (filename.reverse.dropWhile (· = '/')).reverse
  if path = [] then if filename = [] then "." else root
  else if '/' ∉ path then "."
  else
    let dir := ((path.reverse.dropWhile (· ≠ '/')).dropWhile (· = '/')).reverse
    if dir = [] then root else dir

/-- `helpers::getModes`. -/
def helpers.getModes : List String := ["window", "browser", "cloud", "chrome"]

namespace settings

open resources (ResourceMode)

/-! ### Arguments -/

/-- `CliArg`. -/
structure CliArg where
  key : Str
  value : Str
  deriving DecidableEq

/-- `_parseArg`: a value is what follows an equals sign, unless it is empty. -/
def parseArg (argStr : Str) : CliArg :=
  match helpers.splitTwo argStr '=' with
  | [key, value] => if 0 < value.length then ⟨key, value⟩ else ⟨argStr, []⟩
  | _ => ⟨argStr, []⟩

/-- A bare flag. -/
lemma parseArg_flag {flag : Str} (hflag : '=' ∉ flag) : parseArg flag = ⟨flag, []⟩ := by
  by_cases hne : flag = []
  · rw [hne]
    rfl
  · rw [parseArg, helpers.splitTwo_of_not_mem hne hflag]

/-! ### Overrides -/

/-- What the text of a value is converted to. -/
inductive ConvertTo where
  | string
  | int
  | bool
  deriving DecidableEq

/-- `ConfigOverride`; its key is a JSON pointer. -/
structure ConfigOverride where
  key : List Str
  value : Str
  convertTo : ConvertTo

/-- An entry of `cliMappings`: a flag, the pointer of its option, and its type. -/
structure Mapping where
  flag : String
  key : List String
  convertTo : ConvertTo
  deriving DecidableEq

def cliMappings : List Mapping := [
  -- top level
  ⟨"--mode", ["defaultMode"], .string⟩,
  ⟨"--url", ["url"], .string⟩,
  ⟨"--document-root", ["documentRoot"], .string⟩,
  ⟨"--port", ["port"], .int⟩,
  ⟨"--logging-enabled", ["logging", "enabled"], .bool⟩,
  ⟨"--logging-write-to-log-file", ["logging", "writeToLogFile"], .bool⟩,
  ⟨"--enable-server", ["enableServer"], .bool⟩,
  ⟨"--enable-native-api", ["enableNativeAPI"], .bool⟩,
  ⟨"--single-page-serve", ["singlePageServe"], .bool⟩,
  ⟨"--enable-extensions", ["enableExtensions"], .bool⟩,
  ⟨"--export-auth-info", ["exportAuthInfo"], .bool⟩,
  ⟨"--data-location", ["dataLocation"], .string⟩,
  ⟨"--storage-location", ["storageLocation"], .string⟩,
  -- window mode
  ⟨"--window-title", ["modes", "window", "title"], .string⟩,
  ⟨"--window-width", ["modes", "window", "width"], .int⟩,
  ⟨"--window-height", ["modes", "window", "height"], .int⟩,
  ⟨"--window-min-width", ["modes", "window", "minWidth"], .int⟩,
  ⟨"--window-min-height", ["modes", "window", "minHeight"], .int⟩,
  ⟨"--window-max-width", ["modes", "window", "maxWidth"], .int⟩,
  ⟨"--window-max-height", ["modes", "window", "maxHeight"], .int⟩,
  ⟨"--window-x", ["modes", "window", "x"], .int⟩,
  ⟨"--window-y", ["modes", "window", "y"], .int⟩,
  ⟨"--window-full-screen", ["modes", "window", "fullScreen"], .bool⟩,
  ⟨"--window-always-on-top", ["modes", "window", "alwaysOnTop"], .bool⟩,
  ⟨"--window-enable-inspector", ["modes", "window", "enableInspector"], .bool⟩,
  ⟨"--window-open-inspector-on-startup", ["modes", "window", "openInspectorOnStartup"], .bool⟩,
  ⟨"--window-borderless", ["modes", "window", "borderless"], .bool⟩,
  ⟨"--window-maximize", ["modes", "window", "maximize"], .bool⟩,
  ⟨"--window-hidden", ["modes", "window", "hidden"], .bool⟩,
  ⟨"--window-resizable", ["modes", "window", "resizable"], .bool⟩,
  ⟨"--window-maximizable", ["modes", "window", "maximizable"], .bool⟩,
  ⟨"--window-center", ["modes", "window", "center"], .bool⟩,
  ⟨"--window-transparent", ["modes", "window", "transparent"], .bool⟩,
  ⟨"--window-skip-taskbar", ["modes", "window", "skipTaskbar"], .bool⟩,
  ⟨"--window-exit-process-on-close", ["modes", "window", "exitProcessOnClose"], .bool⟩,
  ⟨"--window-use-saved-state", ["modes", "window", "useSavedState"], .bool⟩,
  ⟨"--window-icon", ["modes", "window", "icon"], .string⟩,
  ⟨"--window-extend-user-agent-with", ["modes", "window", "extendUserAgentWith"], .string⟩,
  ⟨"--window-inject-globals", ["modes", "window", "injectGlobals"], .bool⟩,
  ⟨"--window-inject-client-library", ["modes", "window", "injectClientLibrary"], .bool⟩,
  ⟨"--window-inject-script", ["modes", "window", "injectScript"], .string⟩,
  -- chrome mode
  ⟨"--chrome-width", ["modes", "chrome", "width"], .int⟩,
  ⟨"--chrome-height", ["modes", "chrome", "height"], .int⟩,
  ⟨"--chrome-args", ["modes", "chrome", "args"], .string⟩,
  ⟨"--chrome-browser-binary", ["modes", "chrome", "browserBinary"], .string⟩]

def cliMappingAliases : List (List String) := [
  ["port"], ["url"], ["documentRoot"], ["logging", "enabled"], ["logging", "writeToLogFile"],
  ["enableServer"], ["enableNativeAPI"], ["singlePageServe"], ["enableExtensions"],
  ["exportAuthInfo"]]

/-- The pointers that a flag overrides: its option, and where it has aliases,
this option in the section of every mode. -/
def Mapping.targets (mapping : Mapping) : List (List String) :=
  mapping.key ::
    if mapping.key ∈ cliMappingAliases then
      helpers.getModes.map fun mode => "modes" :: mode :: mapping.key
    else []

/-- The variables of `settings.cpp`, the resource mode, the extensions that were
loaded and the messages that were logged. -/
structure State where
  options : Json := .null
  globalArgs : List Str := []
  appPath : Str := []
  systemDataPath : Str := []
  appDataPath : Str := []
  configFile : Str := "/neutralino.config.json"
  localeName : Str := []
  configOverrides : List ConfigOverride := []
  resMode : ResourceMode := .embedded
  loadedExtensions : List Str := []
  log : List Str := []

/-- The value of a flag; a bare flag of a Boolean option stands for `true`. -/
def Mapping.valueOf (mapping : Mapping) (arg : CliArg) : Str :=
  if mapping.convertTo = .bool ∧ arg.value = [] then "true" else arg.value

/-- The override of a pointer by a flag. -/
def Mapping.override (mapping : Mapping) (arg : CliArg) (key : List String) : ConfigOverride :=
  ⟨key.map String.toList, mapping.valueOf arg, mapping.convertTo⟩

/-- The overrides of an argument; an unknown mode overrides nothing. -/
def overridesOf (arg : CliArg) : List ConfigOverride :=
  match cliMappings.find? fun mapping => mapping.flag.toList = arg.key with
  | none => []
  | some mapping =>
      if mapping.flag = "--mode" ∧ arg.value ∉ helpers.getModes.map String.toList then []
      else mapping.targets.map (mapping.override arg)

/-- `applyConfigOverride`. -/
def applyConfigOverride (arg : CliArg) (s : State) : State :=
  { s with
    configOverrides := s.configOverrides ++ overridesOf arg
    log :=
      if arg.key = "--mode".toList ∧ arg.value ∉ helpers.getModes.map String.toList then
        s.log ++ [errors.makeErrorMsg .NE_CF_UNSUPMD arg.value]
      else s.log }

/-- `--res-mode`. -/
def State.setResMode (value : Str) (s : State) : State :=
  if value = "directory".toList then { s with resMode := .dir }
  else if value = "bundle".toList then { s with resMode := .bundle }
  else if value = "embedded".toList then { s with resMode := .embedded }
  else s

/-- The default path: the directory of the program. -/
def State.setDefaultPath (currentDirectory arg : Str) (s : State) : State :=
  let dirname := fs.getDirectoryName arg
  { s with appPath := if dirname = [] then currentDirectory else dirname }

/-- One turn of the loop of `setGlobalArgs`, with `argIndex`. -/
def setGlobalArg (currentDirectory : Str) (acc : State × ℕ) (arg : Str) : State × ℕ :=
  let (s, argIndex) := acc
  let cliArg := parseArg arg
  let s := if argIndex = 0 then s.setDefaultPath currentDirectory arg else s
  if cliArg.key = "--load-dir-res".toList then ({ s with resMode := .dir }, argIndex)
  else if cliArg.key = "--res-mode".toList then (s.setResMode cliArg.value, argIndex)
  else if cliArg.key = "--path".toList then ({ s with appPath := cliArg.value }, argIndex)
  else if cliArg.key = "--config-file".toList then ({ s with configFile := cliArg.value }, argIndex)
  else if cliArg.key = "--neu-dev-extension".toList ∧ s.resMode = .dir then
    ({ s with loadedExtensions := s.loadedExtensions ++ ["js.neutralino.devtools".toList] }, argIndex)
  else (applyConfigOverride cliArg s, argIndex + 1)

/-- `setGlobalArgs`. -/
def setGlobalArgs (currentDirectory : Str) (args : List Str) (s : State) : State :=
  (args.foldl (setGlobalArg currentDirectory) ({ s with globalArgs := args }, 0)).1

/-! ### What is collected -/

/-- The flags that `setGlobalArgs` handles itself override nothing. -/
lemma overridesOf_eq_nil {arg : CliArg} {flag : String} (harg : arg.key = flag.toList)
    (hflag : ∀ mapping ∈ cliMappings, mapping.flag ≠ flag) : overridesOf arg = [] := by
  have hnone : (cliMappings.find? fun mapping => mapping.flag.toList = arg.key) = none := by
    refine List.find?_eq_none.mpr fun mapping hmapping => ?_
    simpa [harg, String.toList_inj] using hflag mapping hmapping
  rw [overridesOf, hnone]

@[simp] lemma setResMode_configOverrides (value : Str) (s : State) :
    (s.setResMode value).configOverrides = s.configOverrides := by
  unfold State.setResMode
  split_ifs <;> rfl

/-- One argument adds its overrides. -/
lemma setGlobalArg_configOverrides (currentDirectory : Str) (acc : State × ℕ) (arg : Str) :
    (setGlobalArg currentDirectory acc arg).1.configOverrides =
      acc.1.configOverrides ++ overridesOf (parseArg arg) := by
  obtain ⟨s, argIndex⟩ := acc
  obtain ⟨t, ht, hoverrides⟩ : ∃ t : State,
      (if argIndex = 0 then s.setDefaultPath currentDirectory arg else s) = t ∧
        t.configOverrides = s.configOverrides := by
    refine ⟨_, rfl, ?_⟩
    split_ifs <;> rfl
  simp only [setGlobalArg, ht]
  split_ifs with hload hres hpath hconfig hdev
  · rw [overridesOf_eq_nil hload (by decide +kernel), List.append_nil, hoverrides]
  · rw [overridesOf_eq_nil hres (by decide +kernel), List.append_nil, setResMode_configOverrides,
      hoverrides]
  · rw [overridesOf_eq_nil hpath (by decide +kernel), List.append_nil, hoverrides]
  · rw [overridesOf_eq_nil hconfig (by decide +kernel), List.append_nil, hoverrides]
  · rw [overridesOf_eq_nil hdev.1 (by decide +kernel), List.append_nil, hoverrides]
  · rw [applyConfigOverride, hoverrides]

/-- **What is collected**: the overrides of the arguments, in their order. -/
theorem setGlobalArgs_configOverrides (currentDirectory : Str) (args : List Str) (s : State) :
    (setGlobalArgs currentDirectory args s).configOverrides =
      s.configOverrides ++ args.flatMap fun arg => overridesOf (parseArg arg) := by
  have hloop : ∀ acc : State × ℕ,
      (args.foldl (setGlobalArg currentDirectory) acc).1.configOverrides =
        acc.1.configOverrides ++ args.flatMap fun arg => overridesOf (parseArg arg) := by
    induction args with
    | nil => simp
    | cons arg args ih =>
        intro acc
        rw [List.foldl_cons, ih, setGlobalArg_configOverrides, List.flatMap_cons,
          List.append_assoc]
  exact hloop _

end settings

end Neutralino
