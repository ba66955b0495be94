import Neutralino.Base.Json

/-!
`settings.cpp`: how an option is read for the current mode.

The configuration object `options` is a parameter of every reader: reading it
adds null members at most, which no reader tells from absent ones.
-/

namespace Neutralino

/-- `ResourceMode`. -/
inductive resources.ResourceMode where
  | dir
  | bundle
  | embedded
  deriving DecidableEq

namespace settings

/-- `AppMode`. -/
inductive AppMode where
  | window
  | browser
  | cloud
  | chrome
  deriving DecidableEq

/-- `helpers::appModeToStr`. -/
def appModeToStr : AppMode → Str
  | .window => "window"
  | .browser => "browser"
  | .cloud => "cloud"
  | .chrome => "chrome"

/-- `getMode`: an unknown default mode is the window mode. -/
def getMode (options : Json) : Except Fault AppMode := do
  let jMode ← options.index "defaultMode"
  let mode ← if jMode.isNull then .ok ("window" : Str) else jMode.getString
  return if mode = "window".toList then .window
    else if mode = "browser".toList then .browser
    else if mode = "cloud".toList then .cloud
    else if mode = "chrome".toList then .chrome
    else .window

/-- `getOptionForCurrentMode`: the member of the mode section, and the root
member where that is null. -/
def getOptionForCurrentMode (options : Json) (key : Str) : Except Fault Json := do
  let mode ← getMode options
  let modes ← options.index "modes"
  let modeOptions ← modes.index (appModeToStr mode)
  let value ← modeOptions.index key
  if value.isNull then options.index key else return value

/-- `regex_replace(appId, regex("[.]{2,}"), ".")`. -/
def collapseDots : Str → Str
  | '.' :: '.' :: s => collapseDots ('.' :: s)
  | c :: s => c :: collapseDots s
  | [] => []

/-- `getAppId`. -/
def getAppId (options : Json) : Except Fault Str := do
  let applicationId ← options.index "applicationId"
  if applicationId.isNull then return "js.neutralino.framework"
  let appId ← applicationId.getString
  return collapseDots (appId.filter fun c => c.isAlphanum || c = '_' || c = '.')

lemma getMode_defined (options : Json) : Defined (getMode options) := by
  refine (Json.index_defined _ _).bind fun jMode _ => ?_
  exact defined_ite (defined_ok _) ((Json.getString_defined jMode).bind fun _ _ => defined_ok _)

lemma getOptionForCurrentMode_defined (options : Json) (key : Str) :
    Defined (getOptionForCurrentMode options key) := by
  refine (getMode_defined options).bind fun mode _ => ?_
  refine (Json.index_defined _ _).bind fun modes _ => ?_
  refine (Json.index_defined _ _).bind fun modeOptions _ => ?_
  refine (Json.index_defined _ _).bind fun value _ => ?_
  exact defined_ite (Json.index_defined _ _) (defined_ok _)

end settings

end Neutralino
