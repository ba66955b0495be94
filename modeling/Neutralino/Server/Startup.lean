import Neutralino.Auth.Registration
import Neutralino.Server.Assets
import Neutralino.Server.TypedPort

/-!
The way from the start of the program to its window, `main.cpp`, as far as the
configuration is read on it.

* `Launch`: what the program is started with, and what its platform answers.
* `window.init`, `chrome.init`: what the window and the browser read of their options.
* `initFramework`, `startServer`, `initExtra`, `startApp`, `start`: the steps of `main`.
-/

namespace Neutralino

open settings Paths

/-! ### What the steps call -/

namespace authbasic

/-- A token has two parts, so it is not empty. -/
lemma token_ne_nil (tokens : extensions.Tokens) : tokens.token ≠ [] := by
  obtain ⟨draw, -, hsecond⟩ := tokens.generated
  intro hnil
  rw [hnil, helpers.splitTwo_eq_nil_iff.mpr rfl] at hsecond
  cases hsecond

/-- `init`, with the tokens that it generates. -/
def init (tokens : extensions.Tokens) (options : Json) : Except Fault State := do
  let jTokenSecurity ← getOptionForCurrentMode options "tokenSecurity"
  let tokenSecurity ← readOr (fun value => do
    return if (← value.getString) = "one-time".toList then .oneTime else .none) .oneTime jTokenSecurity
  return { token := tokens.token, token_ne_nil := token_ne_nil tokens, tokenSecurity := tokenSecurity }

/-- `exportAuthInfo`; without its directory the payload is not made. -/
def exportAuthInfo (createsTmp : Bool) (tokens : extensions.Tokens) (options : Json) :
    Except Fault Unit := do
  if !createsTmp then return ()
  let _ ← makeAuthInfoPayload tokens options

end authbasic

namespace storage

/-- `init`: the path of the storage. -/
def init (systemDataPath appPath : Str) (options : Json) : Except Fault Str := do
  let storageLoc ← optionOr options "storageLocation" Json.getString "app"
  return (if storageLoc = "system".toList then systemDataPath else appPath) ++ "/.storage".toList

end storage

/-- What the program is started with, and what its platform answers: where it listens, if
it can; whether the directory of the auth information and the window can be created and a
browser is found; which files are in the resources. -/
structure Launch extends extensions.Tokens where
  host : Host
  around : Surroundings
  systemDataPath : Str
  osName_mem : around.osName ∈ ["Linux", "Windows", "Darwin", "FreeBSD"].map String.toList
  currentDirectory_fault : ∀ fault, around.currentDirectory = .error fault → fault = .filesystemError
  listens : Option {port : ℕ // 0 < port}
  createsTmp : Bool
  createsWindow : Bool
  findsChrome : Bool
  finds : Str → Bool

namespace Launch

/-- What the extensions are started with. -/
def context (s : Launch) (options : Json) : extensions.Context where
  toTokens := s.toTokens
  options := options
  host := s.host
  osName := s.around.osName

/-- The script of the global variables is made for the window. -/
def globals (s : Launch) (options : Json) (auth : authbasic.State) : Except Fault authbasic.State := do
  let script := getGlobalVars s.around options auth
  let _ ← script.1
  return script.2

end Launch

namespace window

/-- A field of the options of the window, read where it is there. -/
def readField (windowOptions : Json) (field : String × Scalar) : Except Fault Unit :=
  fieldOr windowOptions field.1.toList field.2.get ()

/-- `__injectClientLibrary`. -/
def injectClientLibrary (s : Launch) (options : Json) (auth : authbasic.State) :
    Except Fault authbasic.State := do
  let jClientLibrary ← (← options.index "cli").index "clientLibrary"
  if jClientLibrary.isNull then return auth
  if s.finds (← jClientLibrary.getString) then s.globals options auth else return auth

/-- `__injectScript`. -/
def injectScript (options : Json) : Except Fault Unit := do
  let jInjectScript ← getOptionForCurrentMode options "injectScript"
  if jInjectScript.isNull then return ()
  let _ ← jInjectScript.getString

/-- `__createWindow`, which ends early without a window. -/
def createWindow (s : Launch) (options windowOptions : Json) (auth : authbasic.State) :
    Except Fault Unit := do
  if !s.createsWindow then return ()
  let injectGlobals ← fieldOr windowOptions "injectGlobals" Json.getBool false
  let auth ← if injectGlobals then s.globals options auth else pure auth
  let injectsClientLibrary ← fieldOr windowOptions "injectClientLibrary" Json.getBool false
  if injectsClientLibrary then
    let _ ← injectClientLibrary s options auth
  let script ← fieldOr windowOptions "injectScript" Json.getString []
  if script ≠ [] then injectScript options

/-- `init`: every field is read before the window is created. -/
def init (s : Launch) (options windowOptions : Json) (auth : authbasic.State) :
    Except Fault Unit := do
  windowFields.forM (readField windowOptions)
  createWindow s options windowOptions auth

end window

namespace chrome

/-- The binary that `__findChrome` tries first, if the options name one. -/
def customBin (osName : Str) (input : Json) : Except Fault (Option Str) := do
  let browserBinaryKeyForOs := "browserBinary".toList ++ osName
  if ← helpers.hasField input browserBinaryKeyForOs then
    return some (← (← input.indexConst browserBinaryKeyForOs).getString)
  if ← helpers.hasField input "browserBinary" then
    return some (← (← input.indexConst "browserBinary").getString)
  return none

/-- `init`, which ends early without a browser. -/
def init (s : Launch) (input : Json) : Except Fault Unit := do
  let _ ← customBin s.around.osName input
  if !s.findsChrome then return ()
  let _ ← (← input.indexConst "url").getString
  if ← helpers.hasRequiredFields input ["width", "height"] then
    let _ ← (← input.indexConst "width").getInt
    let _ ← (← input.indexConst "height").getInt
  let _ ← fieldOr input "args" Json.getString []

end chrome

/-! ### The steps of `main` -/

namespace main

/-- The environment variables that are set. -/
def systemEnvs (options : Json) : Except Fault (List (Str × Str)) := do
  let jEnvs ← getOptionForCurrentMode options "systemEnvs"
  if jEnvs.isNull then return []
  jEnvs.items.mapM fun entry => do return (entry.1, ← entry.2.getString)

/-- `__initFramework`, after the configuration was loaded. -/
def initFramework (s : Launch) (options : Json) : Except Fault authbasic.State := do
  let auth ← authbasic.init s.toTokens options
  let _ ← permission.init s.host options
  let _ ← storage.init s.systemDataPath s.around.appPath options
  let _ ← systemEnvs options
  return auth

/-- What `__startServerAsync` leaves: the configuration, the navigation URL, and whether
there is a server. -/
structure Served where
  options : Json
  navigationUrl : Str
  isInitialized : Bool

/-- `__startServerAsync`; it is absent where the program exits because it cannot listen. -/
def startServer (s : Launch) (options : Json) : Except Fault (Option Served) := do
  let navigationUrl ← getNavigationUrl options
  let enableServer ← optionOr options "enableServer" Json.getBool false
  if !enableServer then return some ⟨options, navigationUrl, false⟩
  match s.listens with
  | some port =>
      let started ← neuserver.init port.1 options
      return some ⟨started.options, started.navigationUrl, true⟩
  | none =>
      -- the port is read to listen, and once more for the message
      let _ ← neuserver.configuredPort options
      let _ ← getMode options
      let _ ← neuserver.configuredPort options
      return none

/-- `__initExtra`. -/
def initExtra (s : Launch) (options : Json) : Except Fault Unit := do
  let enableExtensions ← optionOr options "enableExtensions" Json.getBool false
  let exportAuthInfo ← optionOr options "exportAuthInfo" Json.getBool false
  if exportAuthInfo then authbasic.exportAuthInfo s.createsTmp s.toTokens options
  if enableExtensions then (extensions.initSteps (s.context options)).ended

/-- The options of a mode with the navigation URL, as the window and Chrome are given them. -/
def sectionFor (options : Json) (mode : AppMode) (navigationUrl : Str) : Except Fault Json := do
  let options ← (← options.index "modes").index (appModeToStr mode)
  let _ ← options.index "url"
  return options.set "url" (.str navigationUrl)

/-- `__startApp`. -/
def startApp (s : Launch) (auth : authbasic.State) (served : Served) : Except Fault Unit := do
  match ← getMode served.options with
  | .browser => return ()
  | .window =>
      let windowOptions ← sectionFor served.options .window served.navigationUrl
      window.init s served.options windowOptions auth
  | .cloud =>
      if served.isInitialized then
        let _ ← getAppId served.options
  | .chrome =>
      let chromeOptions ← sectionFor served.options .chrome served.navigationUrl
      chrome.init s chromeOptions

/-- What follows the server. -/
def proceed (s : Launch) (auth : authbasic.State) (served : Served) : Except Fault Unit := do
  let _ ← configureLogger served.options
  initExtra s served.options
  startApp s auth served

/-- `main`, after the configuration was loaded. -/
def start (s : Launch) (options : Json) : Except Fault Unit := do
  let auth ← initFramework s options
  match ← startServer s options with
  | none => return ()
  | some served => proceed s auth served

end main

end Neutralino
