import Neutralino.Config.Effective
import Neutralino.Server.ExtensionStart

/-!
The port of the server: `neuserver::init` and the readers of the port.

* `settings.setPort`: the port is written at the root and in the section of every
  mode, since a section comes before the root.
* `init`: the navigation URL and the configuration that it leaves, for the port that
  the listener is bound to.
* `authbasic.makeAuthInfoPayload`, `globalVarsHead`: what is told in the auth
  information file, and in the script before the port.
* `PortsAgree`: the readers and the navigation URL tell one port.
* `ports_agree_iff`: **when they agree**.  A URL with a line terminator does not match
  `^/.*`, and stands without a port.
-/

namespace Neutralino

open Paths Regex

/-! ### Writing the port -/

/-- `options[pointer] = value`. -/
def Json.assign (j : Json) (path : List Str) (value : Json) : Except Fault Json := do
  return put path value (← j.touch path)

/-- The value is there, and what stands aside is as before. -/
lemma Json.assign_eq_ok {j value j' : Json} {path : List Str} (h : j.assign path value = .ok j') :
    getAt path j' = value ∧ ∀ q, Incomparable path q → getAt q j' = getAt q j := by
  obtain ⟨touched, htouch, hput⟩ := bind_eq_ok.mp h
  obtain rfl : put path value touched = j' := Except.ok.inj hput
  rw [touch_eq (reaches_of_touch htouch)] at htouch
  obtain rfl := Except.ok.inj htouch
  refine ⟨getAt_put_self _ _ _, fun q hq => ?_⟩
  rw [getAt_put_of_incomparable hq, getAt_put_of_incomparable hq]

namespace settings

/-- `setPort`. -/
def setPort (port : ℤ) (options : Json) : Except Fault Json := do
  let _ ← options.index "port"
  let options := options.set "port" (.num port)
  let options ← options.assign (modePath .window "port") (.num port)
  let options ← options.assign (modePath .browser "port") (.num port)
  let options ← options.assign (modePath .cloud "port") (.num port)
  options.assign (modePath .chrome "port") (.num port)

lemma isTarget_port (mode : AppMode) : isTarget (modePath mode "port") = true := by
  cases mode <;> decide

lemma incomparable_port {mode mode' : AppMode} (h : mode ≠ mode') :
    Incomparable (modePath mode "port") (modePath mode' "port") := by
  refine (eq_or_incomparable (isTarget_port mode) (isTarget_port mode')).resolve_left fun heq => ?_
  have hname : appModeToStr mode ≠ appModeToStr mode' := by
    cases mode <;> cases mode' <;> first | exact absurd rfl h | decide
  exact hname (List.cons.inj (List.cons.inj heq).2).1

/-- A path that the port is not written at. -/
def AsideOfPort (path : List Str) : Prop :=
  Incomparable ["port".toList] path ∧ ∀ mode, Incomparable (modePath mode "port") path

/-- The pointer of another option stands aside. -/
lemma asideOfPort {path : List Str} (hpath : isTarget path = true)
    (hlast : path.getLast? ≠ some "port".toList) : AsideOfPort path := by
  constructor
  · refine (eq_or_incomparable (by decide) hpath).resolve_left ?_
    rintro rfl
    exact hlast rfl
  · intro mode
    refine (eq_or_incomparable (isTarget_port mode) hpath).resolve_left ?_
    rintro rfl
    exact hlast rfl

/-- Every mode has the port, and everything else is as before. -/
lemma setPort_eq_ok {port : ℤ} {options options' : Json} (h : setPort port options = .ok options') :
    (∀ mode, getAt (modePath mode "port") options' = .num port) ∧
      ∀ path, AsideOfPort path → getAt path options' = getAt path options := by
  obtain ⟨_, hindex, h⟩ := bind_eq_ok.mp h
  obtain ⟨window, hwindow, h⟩ := bind_eq_ok.mp h
  obtain ⟨browser, hbrowser, h⟩ := bind_eq_ok.mp h
  obtain ⟨cloud, hcloud, hchrome⟩ := bind_eq_ok.mp h
  obtain ⟨hwindowAt, hwindowAside⟩ := Json.assign_eq_ok hwindow
  obtain ⟨hbrowserAt, hbrowserAside⟩ := Json.assign_eq_ok hbrowser
  obtain ⟨hcloudAt, hcloudAside⟩ := Json.assign_eq_ok hcloud
  obtain ⟨hchromeAt, hchromeAside⟩ := Json.assign_eq_ok hchrome
  constructor
  · intro mode
    cases mode with
    | window =>
        rw [hchromeAside _ (incomparable_port (by decide)), hcloudAside _ (incomparable_port (by decide)),
          hbrowserAside _ (incomparable_port (by decide)), hwindowAt]
    | browser =>
        rw [hchromeAside _ (incomparable_port (by decide)), hcloudAside _ (incomparable_port (by decide)), hbrowserAt]
    | cloud => rw [hchromeAside _ (incomparable_port (by decide)), hcloudAt]
    | chrome => exact hchromeAt
  · rintro path ⟨hroot, hmode⟩
    rw [hchromeAside _ (hmode .chrome), hcloudAside _ (hmode .cloud),
      hbrowserAside _ (hmode .browser), hwindowAside _ (hmode .window)]
    exact getAt_put_of_incomparable hroot _ _

end settings

/-! ### The readers of the port -/

namespace authbasic

/-- The object of the auth information file, its members in the order of their keys. -/
def authInfo (tokens : extensions.Tokens) (port : ℤ) : Json :=
  .obj [("nlConnectToken", .str tokens.connectToken), ("nlPort", .num port),
    ("nlToken", .str tokens.token)]

/-- `__makeAuthInfoPayload`. -/
def makeAuthInfoPayload (tokens : extensions.Tokens) (options : Json) : Except Fault Json := do
  let port ← (← settings.getOptionForCurrentMode options "port").getInt
  return authInfo tokens port

end authbasic

namespace settings

/-- A script starts with the head and the port that is read. -/
lemma getGlobalVars_port {around : Surroundings} {options : Json} {auth : authbasic.State}
    {script : Str} (h : (getGlobalVars around options auth).1 = .ok script) :
    ∃ head port, globalVarsHead around options = .ok head ∧
      (getOptionForCurrentMode options "port" >>= Json.getInt) = .ok port ∧
      head ++ plainVariable "NL_PORT" (decimal port) <+: script := by
  obtain ⟨⟨before, after, hbefore, rfl⟩, -⟩ := getGlobalVars_eq_ok h
  obtain ⟨head, hhead, hbefore⟩ := bind_eq_ok.mp hbefore
  obtain ⟨jPort, hjPort, hbefore⟩ := bind_eq_ok.mp hbefore
  obtain ⟨port, hport, hbefore⟩ := bind_eq_ok.mp hbefore
  obtain ⟨mode, -, hbefore⟩ := bind_eq_ok.mp hbefore
  obtain rfl := Except.ok.inj hbefore
  refine ⟨head, port, hhead, bind_eq_ok.mpr ⟨jPort, hjPort, hport⟩, ?_⟩
  simp only [List.append_assoc]
  exact List.prefix_append_right_inj _ |>.mpr (List.prefix_append _ _)

end settings

/-! ### The server -/

namespace neuserver

open settings

/-- The text before the port in a navigation URL. -/
def localAddress : Str := "http://127.0.0.1:"

/-- `regex("^/.*")`. -/
def pathRegex : Re Char := .cat (Re.lit "/".toList) dotStar

/-- The navigation URL on an address: a path is put behind it, and another URL stands
for itself. -/
def navigationUrl (address : Str) (jUrl : Json) : Except Fault Str := do
  if jUrl.isNull then return address
  let url ← jUrl.getString
  return if pathRegex.test url then address ++ url else url

lemma navigationUrl_str (address url : Str) :
    navigationUrl address (.str url) =
      .ok (if pathRegex.test url then address ++ url else url) := rfl

/-- What `init` leaves: where it listens, the configuration, the navigation URL and
whether there are configured headers. -/
structure Started where
  hostAddress : Str
  options : Json
  navigationUrl : Str
  applyConfigHeaders : Bool

/-- The port that `init` asks for; zero stands for any. -/
def configuredPort (options : Json) : Except Fault ℤ := do
  let jPort ← getOptionForCurrentMode options "port"
  if jPort.isNull then return 0 else jPort.getInt

/-- The configuration after listening: another port than the one asked for is written. -/
def updatePort (port : ℤ) (actualPort : ℕ) (options : Json) : Except Fault Json :=
  if port ≠ actualPort then setPort actualPort options else .ok options

/-- `init`, for the port that the listener is bound to. -/
def init (actualPort : ℕ) (options : Json) : Except Fault Started := do
  let port ← configuredPort options
  let mode ← getMode options
  let hostAddress : Str := if mode = .cloud then "0.0.0.0" else "127.0.0.1"
  let options ← updatePort port actualPort options
  let jUrl ← getOptionForCurrentMode options "url"
  let navigationUrl ← navigationUrl (localAddress ++ decimal actualPort) jUrl
  let jHeaders ← getOptionForCurrentMode options "serverHeaders"
  return ⟨hostAddress, options, navigationUrl, !jHeaders.isNull⟩

/-- A configuration leads to a path on the server: there is no URL, or it starts with
a slash. -/
def LeadsTo (options : Json) (path : Str) : Prop :=
  getOptionForCurrentMode options "url" = .ok .null ∧ path = [] ∨
    getOptionForCurrentMode options "url" = .ok (.str path) ∧ path.head? = some '/'

/-- The readers of the port and the navigation URL tell this port. -/
structure PortsAgree (options : Json) (port : ℕ) (started : Started) : Prop where
  /-- `NL_PORT`, behind the head of the script. -/
  globalVars : ∀ around auth script, (getGlobalVars around started.options auth).1 = .ok script →
    ∃ head, globalVarsHead around started.options = .ok head ∧
      head ++ plainVariable "NL_PORT" (decimal port) <+: script
  /-- `nlPort` of the auth information file. -/
  authInfo : ∀ tokens, authbasic.makeAuthInfoPayload tokens started.options =
    .ok (authbasic.authInfo tokens port)
  /-- `nlPort` of an extension. -/
  extension : ∀ (ctx : extensions.Context) extensionId, ctx.options = started.options →
    extensions.buildExtensionProcessInput ctx extensionId =
      .ok (extensions.processInput ctx port extensionId)
  /-- The port of the navigation URL. -/
  navigation : ∀ path, LeadsTo options path →
    started.navigationUrl = localAddress ++ decimal port ++ path

/-! ### The port that is read -/

section Init

variable {options : Json} {port : ℕ} {started : Started}

/-- The port of the listener is what is read afterwards. -/
lemma port_of_updatePort {port : ℤ} {actualPort : ℕ} {options options' : Json}
    (hbound : 0 < actualPort) (hlt : actualPort < 2 ^ 16) (hport : configuredPort options = .ok port)
    (h : updatePort port actualPort options = .ok options') {mode : AppMode}
    (hmode : getMode options' = .ok mode) (hreadable : Readable options' mode) :
    (getOptionForCurrentMode options' "port" >>= Json.getInt) = .ok (actualPort : ℤ) := by
  rw [updatePort] at h
  split_ifs at h with hne
  · have heffective : effective options' mode "port" = .num actualPort := by
      rw [effective, (setPort_eq_ok h).1 mode]
      rfl
    rw [getOptionForCurrentMode_eq hmode hreadable, ok_bind, heffective]
    exact Json.getInt_num (by omega) (by omega)
  · rw [not_not] at hne
    obtain rfl := Except.ok.inj h
    obtain ⟨jPort, hjPort, hvalue⟩ := bind_eq_ok.mp hport
    rw [hjPort, ok_bind]
    split_ifs at hvalue with hnull
    · have hzero : (0 : ℤ) = port := Except.ok.inj hvalue
      omega
    · exact hne ▸ hvalue

/-- The URL is read as before. -/
lemma url_of_updatePort {port : ℤ} {actualPort : ℕ} {options options' : Json}
    (h : updatePort port actualPort options = .ok options') {mode mode' : AppMode}
    (hmode : getMode options = .ok mode) (hreadable : Readable options mode)
    (hmode' : getMode options' = .ok mode') (hreadable' : Readable options' mode') :
    getOptionForCurrentMode options' "url" = getOptionForCurrentMode options "url" := by
  rw [updatePort] at h
  split_ifs at h with hne
  · have haside := (setPort_eq_ok h).2
    have hsame : getMode options' = getMode options :=
      getMode_congr hreadable.1 hreadable'.1 (haside _ (asideOfPort (by decide) (by decide)))
    obtain rfl : mode' = mode := Except.ok.inj (hmode'.symm.trans (hsame.trans hmode))
    rw [getOptionForCurrentMode_eq hmode' hreadable', getOptionForCurrentMode_eq hmode hreadable,
      effective_congr (haside _ (asideOfPort (by cases mode' <;> decide) (by simp [modePath])))
        (haside _ (asideOfPort (by decide) (by decide)))]
  · obtain rfl := Except.ok.inj h
    rfl

/-- What `init` leaves to the readers. -/
structure Leaves (options : Json) (port : ℕ) (started : Started) : Prop where
  readers : (getOptionForCurrentMode started.options "port" >>= Json.getInt) = .ok (port : ℤ)
  navigation : ∃ jUrl, getOptionForCurrentMode options "url" = .ok jUrl ∧
    navigationUrl (localAddress ++ decimal port) jUrl = .ok started.navigationUrl

lemma leaves_of_init (hbound : 0 < port) (hlt : port < 2 ^ 16) (h : init port options = .ok started) :
    Leaves options port started := by
  obtain ⟨configured, hconfigured, h⟩ := bind_eq_ok.mp h
  obtain ⟨mode, hmode, h⟩ := bind_eq_ok.mp h
  obtain ⟨options', hoptions, h⟩ := bind_eq_ok.mp h
  obtain ⟨jUrl, hurl, h⟩ := bind_eq_ok.mp h
  obtain ⟨url, hnavigation, h⟩ := bind_eq_ok.mp h
  obtain ⟨jHeaders, -, h⟩ := bind_eq_ok.mp h
  obtain rfl := Except.ok.inj h
  obtain ⟨mode', hmode', -⟩ := bind_eq_ok.mp hurl
  obtain ⟨jPort, hjPort, -⟩ := bind_eq_ok.mp hconfigured
  have hreadable := readable_of_getOption hmode hjPort
  have hreadable' := readable_of_getOption hmode' hurl
  refine ⟨port_of_updatePort hbound hlt hconfigured hoptions hmode' hreadable', jUrl, ?_, hnavigation⟩
  rw [← url_of_updatePort hoptions hmode hreadable hmode' hreadable', hurl]

/-! ### The port that is told -/

/-- A text that starts with a slash matches where it has no line terminator. -/
lemma test_pathRegex_iff {url : Str} :
    pathRegex.test url = true ↔ url.head? = some '/' ∧ ∀ c ∈ url, isLineTerminator c = false := by
  rw [Re.test_iff, pathRegex, Re.matches_cat]
  constructor
  · rintro ⟨u, v, hu, hv, rfl⟩
    obtain rfl := Re.matches_lit.mp hu
    refine ⟨rfl, ?_⟩
    rw [List.forall_mem_append]
    exact ⟨forall_mem_of_all (by decide), matches_dotStar.mp hv⟩
  · rintro ⟨hhead, hclean⟩
    obtain ⟨rest, rfl⟩ := List.head?_eq_some_iff.mp hhead
    exact ⟨"/".toList, rest, Re.matches_lit.mpr rfl,
      matches_dotStar.mpr (List.forall_mem_cons.mp hclean).2, rfl⟩

/-- A URL with a line terminator stands for itself, without the address. -/
lemma PortsAgree.clean (hagree : PortsAgree options port started) (h : Leaves options port started)
    {url : Str} (hurl : getOptionForCurrentMode options "url" = .ok (.str url))
    (hhead : url.head? = some '/') : ∀ c ∈ url, isLineTerminator c = false := by
  obtain ⟨jUrl, hjUrl, hnavigation⟩ := h.navigation
  obtain rfl : jUrl = .str url := Except.ok.inj (hjUrl.symm.trans hurl)
  by_contra hclean
  have htest : ¬ pathRegex.test url = true := fun hmatch => hclean (test_pathRegex_iff.mp hmatch).2
  rw [navigationUrl_str, if_neg htest, hagree.navigation url (.inr ⟨hurl, hhead⟩)] at hnavigation
  have hlength := congrArg List.length (Except.ok.inj hnavigation)
  rw [List.length_append, List.length_append] at hlength
  have haddress : 0 < localAddress.length := by decide
  omega

/-- Otherwise the address stands before it. -/
lemma Leaves.navigationUrl_eq (h : Leaves options port started)
    (hclean : ∀ url, getOptionForCurrentMode options "url" = .ok (.str url) →
      url.head? = some '/' → ∀ c ∈ url, isLineTerminator c = false)
    {path : Str} (hpath : LeadsTo options path) :
    started.navigationUrl = localAddress ++ decimal port ++ path := by
  obtain ⟨jUrl, hjUrl, hnavigation⟩ := h.navigation
  rcases hpath with ⟨hurl, rfl⟩ | ⟨hurl, hhead⟩
  · obtain rfl : jUrl = .null := Except.ok.inj (hjUrl.symm.trans hurl)
    rw [List.append_nil]
    exact (Except.ok.inj hnavigation).symm
  · obtain rfl : jUrl = .str path := Except.ok.inj (hjUrl.symm.trans hurl)
    rw [navigationUrl_str, if_pos (test_pathRegex_iff.mpr ⟨hhead, hclean path hurl hhead⟩)] at hnavigation
    exact (Except.ok.inj hnavigation).symm

/-- **The readers agree on the port** that the listener is bound to, a number of 16 bits, exactly
where a URL that starts with a slash has no line terminator. -/
theorem ports_agree_iff (hbound : 0 < port) (hlt : port < 2 ^ 16)
    (h : init port options = .ok started) :
    PortsAgree options port started ↔
      ∀ url, getOptionForCurrentMode options "url" = .ok (.str url) → url.head? = some '/' →
        ∀ c ∈ url, isLineTerminator c = false := by
  have hleaves := leaves_of_init hbound hlt h
  obtain ⟨jPort, hjPort, hport⟩ := bind_eq_ok.mp hleaves.readers
  constructor
  · intro hagree url hurl hhead
    exact hagree.clean hleaves hurl hhead
  · intro hclean
    refine ⟨fun around auth script hscript => ?_, fun tokens => ?_, fun ctx id hctx => ?_,
      fun path hpath => hleaves.navigationUrl_eq hclean hpath⟩
    · obtain ⟨head, port', hhead, hport', hprefix⟩ := getGlobalVars_port hscript
      obtain rfl := Except.ok.inj (hport'.symm.trans hleaves.readers)
      exact ⟨head, hhead, hprefix⟩
    · rw [authbasic.makeAuthInfoPayload, hjPort, ok_bind, hport]
      rfl
    · rw [extensions.buildExtensionProcessInput, hctx, hjPort, ok_bind, hport]
      rfl

/-- A configuration of the browser mode, with port zero there and a URL. -/
def portConfig (url : Str) : Json :=
  .obj [("defaultMode".toList, .str "browser".toList),
    ("modes".toList, .obj [("browser".toList, .obj [("port".toList, .num 0)])]),
    ("url".toList, .str url)]

lemma url_portConfig (url : Str) :
    getOptionForCurrentMode (portConfig url) "url" = .ok (.str url) := rfl

/-- The server starts on any port with this configuration. -/
lemma init_portConfig (url : Str) : ∃ started, init 5000 (portConfig url) = .ok started :=
  ⟨_, rfl⟩

theorem portConfig_agree : ∃ started, init 5000 (portConfig "/") = .ok started ∧
    PortsAgree (portConfig "/") 5000 started := by
  obtain ⟨started, h⟩ := init_portConfig "/"
  refine ⟨started, h, (ports_agree_iff (by decide) (by decide) h).mpr fun url hurl _ => ?_⟩
  obtain rfl := Json.str.inj (Except.ok.inj ((url_portConfig _).symm.trans hurl))
  exact forall_mem_of_all (by decide)

/-- A URL of two lines is left without the port. -/
theorem two_lines_without_port :
    ¬ ∀ (options : Json) (port : ℕ) (started : Started), 0 < port → port < 2 ^ 16 →
      init port options = .ok started → PortsAgree options port started := by
  intro hall
  obtain ⟨started, h⟩ := init_portConfig "/a\nb"
  have hclean := (hall _ _ _ (by decide) (by decide) h).clean
    (leaves_of_init (by decide) (by decide) h) (url_portConfig _) rfl
  exact absurd (hclean '\n' (by decide)) (by decide)

end Init

end neuserver

end Neutralino
