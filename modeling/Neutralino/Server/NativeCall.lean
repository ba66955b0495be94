import Neutralino.Auth.Permission
import Neutralino.Base.Errors

/-!
`router::executeNativeMethod`: the gate in front of the native methods.

* `methodMap`: the names of the registered methods; the handlers are a
  parameter, acting on a world of their own, and may never come back.
* `executeNativeMethod`: the checks, the call, the response.
* `GateOpen`: the conditions under which a request is meant to reach its handler.
* `executeNativeMethod_gated_iff`: **when the call is gated**.  An empty method
  name is split into no parts and indexed past its end, and a handler that never comes back
  leaves its call without a response.
-/

namespace Neutralino.router

open Regex

/-- `NativeMessage`. -/
structure NativeMessage where
  id : Str := []
  method : Str := []
  accessToken : Str := []
  data : Json := .null

/-- What the gate reads: the configuration, the server token and the permissions. -/
structure App where
  options : Json
  token : Str
  permission : Permission

/-- A native method acting on a world: it puts out a value, throws, or does not come back, where
it is undefined, runs for ever or ends the process. -/
abbrev NativeMethod (σ : Type) := Json → σ → Except Fault Json × σ

/-- A response with the world it leaves and the names of the methods invoked. -/
structure Outcome (σ : Type) where
  response : NativeMessage
  world : σ
  invoked : List Str

/-- The keys of `methodMap`. -/
def methodMap : List Str :=
  ["app.exit", "app.killProcess", "app.getProcessId", "app.getConfig", "app.broadcast",
    "app.readProcessInput", "app.writeProcessOutput", "app.writeProcessError", "window.setTitle",
    "window.getTitle", "window.maximize", "window.isMaximized", "window.unmaximize",
    "window.minimize", "window.unminimize", "window.isMinimized", "window.isVisible",
    "window.show", "window.hide", "window.isFullScreen", "window.setFullScreen",
    "window.exitFullScreen", "window.focus", "window.setIcon", "window.setBadge", "window.move",
    "window.beginDrag", "window.center", "window.setSize", "window.getSize", "window.getPosition",
    "window.setAlwaysOnTop", "window.setBorderless", "window.snapshot", "window.setMainMenu",
    "window.print", "computer.getMemoryInfo", "computer.getArch", "computer.getKernelInfo",
    "computer.getOSInfo", "computer.getCPUInfo", "computer.getGPUs", "computer.getDisplays",
    "computer.getDisks", "computer.getMousePosition", "computer.getHostname",
    "computer.getMachineId", "computer.setMousePosition", "computer.setMouseGrabbing",
    "computer.sendKey", "computer.getNetworkInterfaces", "debug.log",
    "filesystem.createDirectory", "filesystem.remove", "filesystem.readFile",
    "filesystem.readBinaryFile", "filesystem.writeFile", "filesystem.writeBinaryFile",
    "filesystem.appendFile", "filesystem.appendBinaryFile", "filesystem.openFile",
    "filesystem.createWatcher", "filesystem.removeWatcher", "filesystem.getWatchers",
    "filesystem.updateOpenedFile", "filesystem.getOpenedFileInfo", "filesystem.readDirectory",
    "filesystem.copy", "filesystem.move", "filesystem.getStats", "filesystem.getAbsolutePath",
    "filesystem.getRelativePath", "filesystem.getPathParts", "filesystem.getPermissions",
    "filesystem.setPermissions", "filesystem.getJoinedPath", "filesystem.getNormalizedPath",
    "filesystem.getUnnormalizedPath", "filesystem.access", "filesystem.chmod", "filesystem.chown",
    "os.execCommand", "os.spawnProcess", "os.updateSpawnedProcess", "os.getSpawnedProcesses",
    "os.getEnv", "os.setEnv", "os.getEnvs", "os.getLocaleInfo", "os.showOpenDialog",
    "os.showFolderDialog", "os.showSaveDialog", "os.showNotification", "os.showMessageBox",
    "os.setTray", "os.open", "os.getPath", "os.trashItem", "storage.setData", "storage.getData",
    "storage.removeData", "storage.getKeys", "storage.clear", "events.broadcast",
    "extensions.dispatch", "extensions.broadcast", "extensions.getStats", "clipboard.getFormat",
    "clipboard.readText", "clipboard.readImage", "clipboard.writeText", "clipboard.writeHTML",
    "clipboard.readHTML", "clipboard.writeImage", "clipboard.clear", "resources.getFiles",
    "resources.getStats", "resources.extractFile", "resources.extractDirectory",
    "resources.readFile", "resources.readBinaryFile", "server.mount", "server.unmount",
    "server.getMounts", "net.request", "custom.getMethods"].map String.toList

/-- The expression `^window.*`. -/
def windowMethod : Re Char := .cat (.lit "window".toList) dotStar

/-- The notice for a window method outside the window mode. -/
def discardNotice (method : Str) : Json :=
  .obj [("message", .str ("Discarded. ".toList ++ method ++
    " works within the window mode only".toList)), ("success", .bool true)]

/-- The `try` block of a call: what is thrown becomes an error response. -/
def catchException {σ : Type} (body : Except Fault (Outcome σ)) (recovered : Outcome σ) :
    Except Fault (Outcome σ) :=
  match body with
  | .ok outcome => .ok outcome
  | .error fault => if fault.isException then .ok recovered else .error fault

section

variable {σ : Type} (app : App) (methods : Str → NativeMethod σ) (request : NativeMessage)
  (world : σ)

/-- The response to the request with the given data, no method invoked. -/
def answer (data : Json) : Outcome σ where
  response := { id := request.id, method := request.method, data := data }
  world := world
  invoked := []

/-- The response of a registered method that was called, with the data that it put out. -/
def called (data : Json) : Outcome σ where
  response := { id := request.id, method := request.method, data := data }
  world := (methods request.method request.data world).2
  invoked := [request.method]

/-- The call of a registered method: what it throws is answered with an error, and where it does
not come back there is no response. -/
def invoke : Except Fault (Outcome σ) :=
  catchException (do
    let apiOutput ← (methods request.method request.data world).1
    return called methods request world apiOutput)
    (called methods request world (errors.errorOutput (errors.makeErrorPayload .NE_RT_NATRTER [])))

/-- `executeNativeMethod`. -/
def executeNativeMethod : Except Fault (Outcome σ) := do
  if !(app.token == request.accessToken) then
    return answer request world (errors.errorOutput (errors.makeErrorPayload .NE_RT_INVTOKN []))
  if !(← permission.hasAPIAccess app.options) then
    return answer request world (errors.errorOutput (errors.makeErrorPayload .NE_RT_APIPRME []))
  if !(← permission.hasMethodAccess app.permission request.method) then
    return answer request world
      (errors.errorOutput (errors.makeErrorPayload .NE_RT_NATPRME request.method))
  if methodMap.contains request.method then
    catchException (do
      let mode ← settings.getMode app.options
      if mode ≠ .window && windowMethod.test request.method then
        return answer request world (discardNotice request.method)
      invoke methods request world)
      (answer request world (errors.errorOutput (errors.makeErrorPayload .NE_RT_NATRTER [])))
  else
    return answer request world
      (errors.errorOutput (errors.makeErrorPayload .NE_RT_NATNTIM request.method))

end

/-! ### The gate -/

/-- The conditions under which a request reaches its handler. -/
structure GateOpen (app : App) (request : NativeMessage) : Prop where
  token : request.accessToken = app.token
  enabled : permission.hasAPIAccess app.options = .ok true
  permitted : permission.hasMethodAccess app.permission request.method = .ok true
  registered : request.method ∈ methodMap
  mode : settings.getMode app.options = .ok .window ∨ ¬ "window".toList <+: request.method

/-- A call is gated: it answers the request, and it has invoked the handler of
the method once where the gate is open, and otherwise done nothing but given an
error or the discard notice. -/
def Gated {σ : Type} (app : App) (methods : Str → NativeMethod σ) (request : NativeMessage)
    (world : σ) : Prop :=
  ∃ outcome, executeNativeMethod app methods request world = .ok outcome ∧
    outcome.response.id = request.id ∧ outcome.response.method = request.method ∧
    (GateOpen app request → outcome.invoked = [request.method] ∧
      invoke methods request world = .ok outcome) ∧
    (¬ GateOpen app request → outcome.invoked = [] ∧ outcome.world = world ∧
      ((∃ payload, outcome.response.data = errors.errorOutput payload) ∨
        outcome.response.data = discardNotice request.method))

/-- On the registered names the expression tests the beginning of the name. -/
lemma windowMethod_test_iff {method : Str} (h : method ∈ methodMap) :
    windowMethod.test method = true ↔ "window".toList <+: method := by
  have hline : methodMap.all fun m => !("window".toList.isPrefixOf m) ||
      m.all fun c => !isLineTerminator c := by
    -- the names are spelled out first
    simp only [methodMap, List.map_cons, List.map_nil]
    repeat rw [String.toList_ofList]
    decide +kernel
  rw [windowMethod, Re.test_iff, Re.matches_cat]
  constructor
  · rintro ⟨u, v, hu, -, rfl⟩
    rw [Re.matches_lit.mp hu]
    exact List.prefix_append _ _
  · rintro ⟨v, rfl⟩
    have hname := List.all_eq_true.mp hline _ h
    rw [List.isPrefixOf_iff_prefix.mpr (List.prefix_append _ v), Bool.not_true, Bool.false_or,
      List.all_eq_true] at hname
    exact ⟨_, v, Re.matches_lit.mpr rfl, matches_dotStar.mpr fun c hc => by
      simpa using hname c (List.mem_append_right _ hc), rfl⟩

variable {σ : Type} {app : App} {methods : Str → NativeMethod σ} {request : NativeMessage}
  {world : σ}

/-- Every method name but the empty one is decided. -/
lemma hasMethodAccess_ok_of_ne_nil (p : Permission) {method : Str} (h : method ≠ []) :
    ∃ b, permission.hasMethodAccess p method = .ok b := by
  cases hs : helpers.splitTwo method '.' with
  | nil => exact absurd (helpers.splitTwo_eq_nil_iff.mp hs) h
  | cons module parts =>
      simp only [permission.hasMethodAccess, permission.getModuleFromMethod, hs, ok_bind, pure,
        Except.pure]
      split_ifs <;> exact ⟨_, rfl⟩

lemma hasMethodAccess_nil (p : Permission) :
    permission.hasMethodAccess p [] = .error .undefinedBehaviour := rfl

/-- Where the API switch is read, the mode is known. -/
lemma getMode_ok_of_hasAPIAccess {options : Json} {b : Bool}
    (h : permission.hasAPIAccess options = .ok b) : ∃ mode, settings.getMode options = .ok mode := by
  obtain ⟨value, hvalue, -⟩ := bind_eq_ok.mp h
  obtain ⟨mode, hmode, -⟩ := bind_eq_ok.mp hvalue
  exact ⟨mode, hmode⟩

/-- A call of a method that comes back. -/
lemma invoke_eq_ok {outcome : Outcome σ} (h : invoke methods request world = .ok outcome) :
    (∃ data, outcome = called methods request world data) ∧
      Throws (methods request.method request.data world).1 := by
  unfold invoke catchException at h
  cases hrun : (methods request.method request.data world).1 with
  | ok apiOutput =>
      rw [hrun] at h
      cases h
      exact ⟨⟨_, rfl⟩, throws_ok apiOutput⟩
  | error fault =>
      rw [hrun] at h
      dsimp only [error_bind] at h
      split_ifs at h with hexception
      cases h
      exact ⟨⟨_, rfl⟩, throws_error hexception⟩

/-- A method that returns or throws comes back, any other one ends its call. -/
lemma invoke_cases (methods : Str → NativeMethod σ) (request : NativeMessage) (world : σ) :
    (∃ outcome, invoke methods request world = .ok outcome) ∨
      ∃ fault, invoke methods request world = .error fault ∧ fault.isException = false ∧
        (methods request.method request.data world).1 = .error fault := by
  unfold invoke catchException
  cases (methods request.method request.data world).1 with
  | ok apiOutput => exact .inl ⟨_, rfl⟩
  | error fault =>
      dsimp only [error_bind]
      split_ifs with hexception
      · exact .inl ⟨_, rfl⟩
      · exact .inr ⟨fault, rfl, Bool.eq_false_iff.mpr hexception, rfl⟩

/-- The call goes through the `try` block as it is. -/
lemma catchException_invoke (recovered : Outcome σ) :
    catchException (invoke methods request world) recovered = invoke methods request world := by
  rcases invoke_cases methods request world with ⟨outcome, h⟩ | ⟨fault, h, hexception, -⟩
  · rw [h, catchException]
  · rw [h, catchException, hexception]
    rfl

/-! ### The checks one after another -/

section Checks

lemma execute_of_token_ne (htoken : request.accessToken ≠ app.token) :
    executeNativeMethod app methods request world =
      .ok (answer request world (errors.errorOutput (errors.makeErrorPayload .NE_RT_INVTOKN []))) := by
  simp [executeNativeMethod, Ne.symm htoken, pure, Except.pure]

variable (htoken : request.accessToken = app.token)

include htoken

lemma execute_of_error {fault : Fault} (hapi : permission.hasAPIAccess app.options = .error fault) :
    executeNativeMethod app methods request world = .error fault := by
  simp [executeNativeMethod, htoken, hapi]

lemma execute_of_disabled (hapi : permission.hasAPIAccess app.options = .ok false) :
    executeNativeMethod app methods request world =
      .ok (answer request world (errors.errorOutput (errors.makeErrorPayload .NE_RT_APIPRME []))) := by
  simp [executeNativeMethod, htoken, hapi, pure, Except.pure]

variable (hapi : permission.hasAPIAccess app.options = .ok true)

include hapi

lemma execute_of_nil (hmethod : request.method = []) :
    executeNativeMethod app methods request world = .error .undefinedBehaviour := by
  simp [executeNativeMethod, htoken, hapi, hmethod, hasMethodAccess_nil]

lemma execute_of_denied
    (hperm : permission.hasMethodAccess app.permission request.method = .ok false) :
    executeNativeMethod app methods request world =
      .ok (answer request world
        (errors.errorOutput (errors.makeErrorPayload .NE_RT_NATPRME request.method))) := by
  simp [executeNativeMethod, htoken, hapi, hperm, pure, Except.pure]

variable (hperm : permission.hasMethodAccess app.permission request.method = .ok true)

include hperm

lemma execute_of_unregistered (hreg : request.method ∉ methodMap) :
    executeNativeMethod app methods request world =
      .ok (answer request world
        (errors.errorOutput (errors.makeErrorPayload .NE_RT_NATNTIM request.method))) := by
  simp [executeNativeMethod, htoken, hapi, hperm, hreg, pure, Except.pure]

lemma execute_of_registered (hreg : request.method ∈ methodMap) {mode : settings.AppMode}
    (hmode : settings.getMode app.options = .ok mode) :
    executeNativeMethod app methods request world =
      if mode ≠ .window ∧ windowMethod.test request.method = true then
        .ok (answer request world (discardNotice request.method))
      else invoke methods request world := by
  by_cases hdiscard : mode ≠ .window ∧ windowMethod.test request.method = true
  · simp [executeNativeMethod, htoken, hapi, hperm, hreg, hmode, catchException, hdiscard, pure,
      Except.pure]
  · rw [if_neg hdiscard]
    simp only [ne_eq] at hdiscard
    simp [executeNativeMethod, htoken, hapi, hperm, hreg, hmode, catchException_invoke, hdiscard]

end Checks

/-! ### The result -/

/-- An answer without an invocation is what a closed gate asks for. -/
lemma gated_of_answer {data : Json} (hclosed : ¬ GateOpen app request)
    (hrun : executeNativeMethod app methods request world = .ok (answer request world data))
    (hdata : (∃ payload, data = errors.errorOutput payload) ∨ data = discardNotice request.method) :
    Gated app methods request world :=
  ⟨_, hrun, rfl, rfl, fun hopen => absurd hopen hclosed, fun _ => ⟨rfl, rfl, hdata⟩⟩

/-- A call that may go ahead is gated, or its method does not come back. -/
lemma gated_or_stuck (htoken : request.accessToken = app.token)
    (hapi : permission.hasAPIAccess app.options = .ok true) (hmethod : request.method ≠ []) :
    Gated app methods request world ∨ GateOpen app request ∧ ∃ fault,
      executeNativeMethod app methods request world = .error fault ∧ fault.isException = false ∧
        (methods request.method request.data world).1 = .error fault := by
  obtain ⟨mode, hmode⟩ := getMode_ok_of_hasAPIAccess hapi
  obtain ⟨permitted, hperm⟩ := hasMethodAccess_ok_of_ne_nil app.permission hmethod
  cases permitted with
  | false =>
      refine .inl (gated_of_answer (fun hopen => ?_) (execute_of_denied htoken hapi hperm)
        (.inl ⟨_, rfl⟩))
      simpa [hperm] using hopen.permitted
  | true =>
      by_cases hreg : request.method ∈ methodMap
      swap
      · exact .inl (gated_of_answer (fun hopen => hreg hopen.registered)
          (execute_of_unregistered htoken hapi hperm hreg) (.inl ⟨_, rfl⟩))
      have hrun : executeNativeMethod app methods request world = _ :=
        execute_of_registered htoken hapi hperm hreg hmode
      simp only [windowMethod_test_iff hreg] at hrun
      by_cases hdiscard : mode ≠ .window ∧ "window".toList <+: request.method
      · rw [if_pos hdiscard] at hrun
        refine .inl (gated_of_answer (fun hopen => ?_) hrun (.inr rfl))
        rcases hopen.mode with h | h
        · exact hdiscard.1 (Except.ok.inj (hmode.symm.trans h))
        · exact h hdiscard.2
      · rw [if_neg hdiscard] at hrun
        have hopen : GateOpen app request := by
          refine ⟨htoken, hapi, hperm, hreg, ?_⟩
          rw [hmode, Except.ok.injEq]
          tauto
        rcases invoke_cases methods request world with ⟨outcome, hinvoke⟩ | ⟨fault, hinvoke, hfault⟩
        · obtain ⟨⟨data, rfl⟩, -⟩ := invoke_eq_ok hinvoke
          exact .inl ⟨_, hrun.trans hinvoke, rfl, rfl, fun _ => ⟨rfl, hinvoke⟩,
            fun hclosed => absurd hopen hclosed⟩
        · exact .inr ⟨hopen, fault, hrun.trans hinvoke, hfault⟩

/-- A call that is answered leaves the world as it is, or it has invoked its method. -/
theorem executeNativeMethod_cases {outcome : Outcome σ}
    (h : executeNativeMethod app methods request world = .ok outcome) :
    (outcome.world = world ∧ outcome.invoked = []) ∨
      invoke methods request world = .ok outcome := by
  by_cases htoken : request.accessToken = app.token
  swap
  · rw [execute_of_token_ne htoken] at h
    cases h
    exact .inl ⟨rfl, rfl⟩
  cases hapi : permission.hasAPIAccess app.options with
  | error fault =>
      rw [execute_of_error htoken hapi] at h
      cases h
  | ok enabled =>
      cases enabled with
      | false =>
          rw [execute_of_disabled htoken hapi] at h
          cases h
          exact .inl ⟨rfl, rfl⟩
      | true =>
          by_cases hmethod : request.method = []
          · rw [execute_of_nil htoken hapi hmethod] at h
            cases h
          rcases @gated_or_stuck σ app methods request world htoken hapi hmethod with
            ⟨outcome', hrun, -, -, hopen, hclosed⟩ | ⟨-, fault, hrun, -⟩
          · obtain rfl : outcome' = outcome := Except.ok.inj (hrun.symm.trans h)
            by_cases hgate : GateOpen app request
            · exact .inr (hopen hgate).2
            · exact .inl ⟨(hclosed hgate).2.1, (hclosed hgate).1⟩
          · cases hrun.symm.trans h

/-- **The call is gated** exactly when a request with the server token finds the
API switch readable and, where that is on, names a method, and the method comes back where the
gate is open. -/
theorem executeNativeMethod_gated_iff :
    Gated app methods request world ↔
      (request.accessToken = app.token →
        ∃ b, permission.hasAPIAccess app.options = .ok b ∧ (b = true → request.method ≠ [])) ∧
      (GateOpen app request → Throws (methods request.method request.data world).1) := by
  constructor
  · rintro ⟨outcome, hrun, -, -, hgate, -⟩
    refine ⟨fun htoken => ?_, fun hopen => (invoke_eq_ok (hgate hopen).2).2⟩
    cases hapi : permission.hasAPIAccess app.options with
    | error fault =>
        rw [execute_of_error htoken hapi] at hrun
        cases hrun
    | ok b =>
        refine ⟨b, rfl, ?_⟩
        rintro rfl hmethod
        rw [execute_of_nil htoken hapi hmethod] at hrun
        cases hrun
  · rintro ⟨h, hback⟩
    by_cases htoken : request.accessToken = app.token
    · obtain ⟨b, hapi, hmethod⟩ := h htoken
      cases b with
      | false =>
          refine gated_of_answer (fun hopen => ?_) (execute_of_disabled htoken hapi)
            (.inl ⟨_, rfl⟩)
          simpa [hapi] using hopen.enabled
      | true =>
          rcases gated_or_stuck htoken hapi (hmethod rfl) with hgated | ⟨hopen, fault, -, hnot, hrun⟩
          · exact hgated
          · cases hnot.symm.trans (hback hopen fault hrun)
    · exact gated_of_answer (fun hopen => htoken hopen.token) (execute_of_token_ne htoken)
        (.inl ⟨_, rfl⟩)

/-- A request with the server token `token` and an empty method name. -/
def namelessRequest : NativeMessage := { id := "1", accessToken := "token" }

/-- A configuration that enables the API and restricts nothing. -/
def openApp : App := ⟨.obj [("enableNativeAPI", .bool true)], "token", {}⟩

/-- Methods that put out nothing. -/
def silentMethods : Str → NativeMethod Unit := fun _ _ world => (.ok .null, world)

/-- An empty method name is split into no parts, and the first one is read
nevertheless. -/
theorem empty_method_indexes_past_end :
    executeNativeMethod openApp silentMethods namelessRequest () = .error .undefinedBehaviour ∧
      ¬ Gated openApp silentMethods namelessRequest () := by
  refine ⟨rfl, ?_⟩
  rintro ⟨outcome, hrun, -⟩
  cases hrun

end Neutralino.router
