import Neutralino.Base.Settings
import Neutralino.Library.Regex
import Neutralino.Library.Runs
import Mathlib.Data.Finset.Card
import Mathlib.Data.List.AList

/-!
`neuserver.cpp`: the registries of the open websocket connections.

* `getParamValueFromUrl`, `handleValidate`: what a handshake is checked for.
* `Registry`, `handleConnect`, `handleDisconnect`, `sendToExtension`: the
  registries and the handlers that keep them.
* `World`: the registries with the connections that are open.
* `registry_sound_iff`: **when the registries are sound**.  Extensions are
  registered by id, and a disconnect erases the id whichever connection of it
  was closed.
-/

namespace Neutralino.neuserver

open Regex Runs

/-! ### The handshake -/

/-- `__isExtensionEndpoint`: the expression `.*extensionId=.*`. -/
def isExtensionEndpoint (url : Str) : Bool :=
  (Re.cat dotStar (.cat (.lit "extensionId=".toList) dotStar)).test url

/-- `__hasConnectToken`: the expression `.*connectToken=.*`. -/
def hasConnectToken (url : Str) : Bool :=
  (Re.cat dotStar (.cat (.lit "connectToken=".toList) dotStar)).test url

/-- The class `[\w.\-_]`. -/
def isParamChar (c : Char) : Bool :=
  ('a' ≤ c && c ≤ 'z') || ('A' ≤ c && c ≤ 'Z') || ('0' ≤ c && c ≤ '9') ||
    c = '_' || c = '.' || c = '-'

/-- `__getParamValueFromUrl`: the first place where the name, an equals sign and
a character of the class follow one another, and the characters of the class
from there; empty where there is no such place. -/
def getParamValueFromUrl (param : Str) : Str → Str
  | [] => []
  | c :: url =>
      let value := ((c :: url).drop (param.length + 1)).takeWhile isParamChar
      if (param ++ ['=']).isPrefixOf (c :: url) ∧ value ≠ [] then value
      else getParamValueFromUrl param url

/-- `__getExtensionIdFromUrl`. -/
def getExtensionIdFromUrl (url : Str) : Str := getParamValueFromUrl "extensionId" url

/-- `__getConnectTokenFromUrl`. -/
def getConnectTokenFromUrl (url : Str) : Str := getParamValueFromUrl "connectToken" url

/-- What the handlers read of the application. -/
structure Config where
  mode : settings.AppMode
  connectToken : Str
  loadedExtensions : List Str

/-- `handleValidate`. -/
def handleValidate (config : Config) (url host : Str) : Bool :=
  if !(host == "localhost".toList || host == "127.0.0.1".toList) && config.mode ≠ .cloud then false
  else if !hasConnectToken url then false
  else if !(config.connectToken == getConnectTokenFromUrl url) then false
  else if isExtensionEndpoint url then
    config.loadedExtensions.contains (getExtensionIdFromUrl url)
  else true

/-! ### The registries -/

/-- The opcode of a frame. -/
inductive Opcode where
  | text
  | binary
  deriving DecidableEq

/-- The registries; a connection is known by its handle. -/
structure Registry where
  appConnections : Finset ℕ := ∅
  extConnections : AList fun _ : Str => ℕ := ∅
  wsMode : AList fun _ : ℕ => Opcode := ∅

/-- What a handler sets off: an event for the clients, or the idle check. -/
inductive Notice where
  | event (name : Str) (data : Json)
  | exitProcessIfIdle

/-- The number of registered connections. -/
def Registry.clients (r : Registry) : ℤ := r.appConnections.card + r.extConnections.keys.length

/-- `handleConnect`, for a connection to `url`. -/
def handleConnect (r : Registry) (handler : ℕ) (url : Str) : Registry × List Notice :=
  if isExtensionEndpoint url then
    let extensionId := getExtensionIdFromUrl url
    let r := { r with extConnections := r.extConnections.insert extensionId handler }
    (r, [.event "extClientConnect" (.str extensionId), .event "clientConnect" (.num r.clients)])
  else
    let r := { r with appConnections := insert handler r.appConnections }
    (r, [.event "appClientConnect" (.num r.appConnections.card),
      .event "clientConnect" (.num r.clients)])

/-- `handleDisconnect`, for a connection to `url`. -/
def handleDisconnect (mode : settings.AppMode) (r : Registry) (handler : ℕ) (url : Str) :
    Registry × List Notice :=
  let r := { r with wsMode := r.wsMode.erase handler }
  if isExtensionEndpoint url then
    let extensionId := getExtensionIdFromUrl url
    let r := { r with extConnections := r.extConnections.erase extensionId }
    (r, [.event "extClientDisconnect" (.str extensionId),
      .event "clientDisconnect" (.num r.clients)])
  else
    let r := { r with appConnections := r.appConnections.erase handler }
    (r, (if mode = .browser ∨ mode = .chrome then [.exitProcessIfIdle] else []) ++
      [.event "appClientDisconnect" (.num r.appConnections.card),
        .event "clientDisconnect" (.num r.clients)])

/-- The opcode that `handleMessage` notes for the first message of an extension. -/
def noteMode (r : Registry) (handler : ℕ) (url : Str) (opcode : Opcode) : Registry :=
  if isExtensionEndpoint url && (r.wsMode.lookup handler).isNone then
    { r with wsMode := r.wsMode.insert handler opcode }
  else r

/-- `sendToExtension`: the connection it sends to and the opcode it uses, absent
where it finds none. -/
def sendToExtension (r : Registry) (extensionId : Str) : Option (ℕ × Opcode) :=
  (r.extConnections.lookup extensionId).map fun handler =>
    (handler, (r.wsMode.lookup handler).getD .text)

/-- `getConnectedExtensions`, up to the order of the ids. -/
def getConnectedExtensions (r : Registry) : List Str := r.extConnections.keys

/-! ### Runs of the server -/

/-- An open connection. -/
structure Connection where
  handler : ℕ
  url : Str
  deriving DecidableEq

/-- The id of an extension connection. -/
def Connection.extensionId (c : Connection) : Option Str :=
  if isExtensionEndpoint c.url then some (getExtensionIdFromUrl c.url) else none

/-- The registries with the connections that are open and the number of
connections made so far, which is the handle of the next one. -/
structure World where
  registry : Registry := {}
  connections : List Connection := []
  made : ℕ := 0

/-- What happens to the server. -/
inductive Event where
  | connect (url host : Str)
  | disconnect (c : Connection)
  | message (c : Connection) (opcode : Opcode)

/-- The steps of the server: a connection that the handshake accepts is made, an
open connection is closed or carries a message. -/
inductive Step (config : Config) : World → Event → World → Prop
  | connect (w : World) (url host : Str) : handleValidate config url host = true →
      Step config w (.connect url host)
        { registry := (handleConnect w.registry w.made url).1
          connections := ⟨w.made, url⟩ :: w.connections
          made := w.made + 1 }
  | disconnect (w : World) (c : Connection) : c ∈ w.connections →
      Step config w (.disconnect c)
        { w with
          registry := (handleDisconnect config.mode w.registry c.handler c.url).1
          connections := w.connections.erase c }
  | message (w : World) (c : Connection) (opcode : Opcode) : c ∈ w.connections →
      Step config w (.message c opcode)
        { w with registry := noteMode w.registry c.handler c.url opcode }

/-- The registries are sound: the app connections are the open ones, an
extension id is registered exactly when a connection of it is open, with the
handle of such a connection, and a message to the extension goes to one. -/
structure RegistrySound (w : World) : Prop where
  apps : ∀ handler, handler ∈ w.registry.appConnections ↔
    ∃ c ∈ w.connections, c.extensionId = none ∧ c.handler = handler
  registered : ∀ id, (w.registry.extConnections.lookup id).isSome ↔
    ∃ c ∈ w.connections, c.extensionId = some id
  handle : ∀ id handler, w.registry.extConnections.lookup id = some handler →
    ∃ c ∈ w.connections, c.extensionId = some id ∧ c.handler = handler
  sent : ∀ id, (∃ c ∈ w.connections, c.extensionId = some id) →
    ∃ handler opcode, sendToExtension w.registry id = some (handler, opcode) ∧
      ∃ c ∈ w.connections, c.extensionId = some id ∧ c.handler = handler

/-- An extension connection is closed only as the last one of its id. -/
def ClosesLastOfId (w : World) : Event → Prop
  | .disconnect c => ∀ id, c.extensionId = some id →
      ∀ c' ∈ w.connections, c'.extensionId = some id → c' = c
  | _ => True

/-! ### What every step keeps -/

/-- The handles of the open connections are distinct and were made before. -/
structure Distinct (w : World) : Prop where
  handlers : (w.connections.map Connection.handler).Nodup
  made : ∀ c ∈ w.connections, c.handler < w.made

namespace Distinct

variable {w : World} (hw : Distinct w)

include hw

lemma nodup : w.connections.Nodup := List.Nodup.of_map _ hw.handlers

lemma mem_erase {c c' : Connection} :
    c' ∈ w.connections.erase c ↔ c' ≠ c ∧ c' ∈ w.connections := hw.nodup.mem_erase_iff

lemma eq_of_handler_eq {c c' : Connection} (hc : c ∈ w.connections) (hc' : c' ∈ w.connections)
    (h : c.handler = c'.handler) : c = c' := List.inj_on_of_nodup_map hw.handlers hc hc' h

lemma step {config : Config} {e : Event} {w' : World} (h : Step config w e w') : Distinct w' := by
  cases h with
  | connect url host _ =>
      refine ⟨?_, List.forall_mem_cons.mpr ⟨Nat.lt_succ_self _, fun c hc =>
        Nat.lt_succ_of_lt (hw.made c hc)⟩⟩
      rw [List.map_cons, List.nodup_cons]
      refine ⟨fun hmem => ?_, hw.handlers⟩
      obtain ⟨c, hc, heq⟩ := List.mem_map.mp hmem
      exact absurd heq (hw.made c hc).ne
  | disconnect c _ =>
      exact ⟨hw.handlers.sublist (List.erase_sublist.map _),
        fun c' hc' => hw.made c' (List.mem_of_mem_erase hc')⟩
  | message c opcode _ => exact ⟨hw.handlers, hw.made⟩

end Distinct

lemma extensionId_eq_some {c : Connection} (h : isExtensionEndpoint c.url = true) :
    c.extensionId = some (getExtensionIdFromUrl c.url) := by rw [Connection.extensionId, if_pos h]

lemma extensionId_eq_none {c : Connection} (h : ¬ isExtensionEndpoint c.url = true) :
    c.extensionId = none := by rw [Connection.extensionId, if_neg h]

/-! ### What is registered -/

/-- What is registered is open: the app connections are the open ones, and under an
extension id stands an open connection of it. -/
structure ListedOpen (w : World) : Prop where
  apps : ∀ handler, handler ∈ w.registry.appConnections ↔
    ∃ c ∈ w.connections, c.extensionId = none ∧ c.handler = handler
  handle : ∀ id handler, w.registry.extConnections.lookup id = some handler →
    ∃ c ∈ w.connections, c.extensionId = some id ∧ c.handler = handler

/-- An id is registered exactly when a connection of it is open. -/
def AllRegistered (w : World) : Prop :=
  ∀ id, (w.registry.extConnections.lookup id).isSome ↔ ∃ c ∈ w.connections, c.extensionId = some id

/-- A message to an extension goes where the id is registered. -/
lemma registrySound_iff {w : World} : RegistrySound w ↔ ListedOpen w ∧ AllRegistered w := by
  constructor
  · intro h
    exact ⟨⟨h.apps, h.handle⟩, h.registered⟩
  · rintro ⟨hlisted, hregistered⟩
    refine ⟨hlisted.apps, hregistered, hlisted.handle, fun id h => ?_⟩
    obtain ⟨handler, hhandler⟩ := Option.isSome_iff_exists.mp ((hregistered id).mpr h)
    exact ⟨handler, _, by rw [sendToExtension, hhandler]; rfl, hlisted.handle id handler hhandler⟩

namespace ListedOpen

variable {w : World} (hlisted : ListedOpen w)

include hlisted

lemma message (c : Connection) (opcode : Opcode) :
    ListedOpen { w with registry := noteMode w.registry c.handler c.url opcode } := by
  unfold noteMode
  split
  · exact ⟨hlisted.apps, hlisted.handle⟩
  · exact hlisted

lemma connect (url : Str) :
    ListedOpen {
      registry := (handleConnect w.registry w.made url).1
      connections := ⟨w.made, url⟩ :: w.connections
      made := w.made + 1 } := by
  by_cases hext : isExtensionEndpoint url
  · have hnew : Connection.extensionId ⟨w.made, url⟩ = some (getExtensionIdFromUrl url) :=
      extensionId_eq_some hext
    simp only [handleConnect, hext, if_true]
    refine ⟨fun handler => ?_, fun id handler h => ?_⟩
    · simp [hlisted.apps handler, hnew]
    · by_cases hid : id = getExtensionIdFromUrl url
      · subst hid
        rw [AList.lookup_insert, Option.some.injEq] at h
        exact ⟨_, List.mem_cons_self, hnew, h⟩
      · rw [AList.lookup_insert_ne hid] at h
        obtain ⟨c, hc, hcid⟩ := hlisted.handle id handler h
        exact ⟨c, List.mem_cons_of_mem _ hc, hcid⟩
  · have hnew : Connection.extensionId ⟨w.made, url⟩ = none := extensionId_eq_none hext
    simp only [handleConnect, hext, if_false, Bool.false_eq_true]
    refine ⟨fun handler => ?_, fun id handler h => ?_⟩
    · simp [hlisted.apps handler, hnew, eq_comm]
    · obtain ⟨c, hc, hcid⟩ := hlisted.handle id handler h
      exact ⟨c, List.mem_cons_of_mem _ hc, hcid⟩

/-- The close of a connection takes out its handle, or its id. -/
lemma disconnect (hw : Distinct w) (mode : settings.AppMode) {c : Connection}
    (hc : c ∈ w.connections) :
    ListedOpen { w with
      registry := (handleDisconnect mode w.registry c.handler c.url).1
      connections := w.connections.erase c } := by
  by_cases hext : isExtensionEndpoint c.url
  · have hcid := extensionId_eq_some hext
    simp only [handleDisconnect, hext, if_true]
    refine ⟨fun handler => ?_, fun id handler h => ?_⟩
    · rw [hlisted.apps handler]
      refine exists_congr fun c' => ?_
      rw [hw.mem_erase]
      refine ⟨fun h => ⟨⟨?_, h.1⟩, h.2⟩, fun h => ⟨h.1.2, h.2⟩⟩
      rintro rfl
      simp [hcid] at h
    · have hid : id ≠ getExtensionIdFromUrl c.url := by
        rintro rfl
        simp at h
      rw [AList.lookup_erase_ne hid] at h
      obtain ⟨c', hc', hid', hhandler⟩ := hlisted.handle id handler h
      refine ⟨c', hw.mem_erase.mpr ⟨?_, hc'⟩, hid', hhandler⟩
      rintro rfl
      exact hid (by simpa [hcid] using hid'.symm)
  · have hcid := extensionId_eq_none hext
    simp only [handleDisconnect, hext, if_false, Bool.false_eq_true]
    refine ⟨fun handler => ?_, fun id handler h => ?_⟩
    · rw [Finset.mem_erase, hlisted.apps handler]
      constructor
      · rintro ⟨hne, c', hc', hid, rfl⟩
        refine ⟨c', hw.mem_erase.mpr ⟨?_, hc'⟩, hid, rfl⟩
        rintro rfl
        exact hne rfl
      · rintro ⟨c', hc', hid, rfl⟩
        obtain ⟨hne, hmem⟩ := hw.mem_erase.mp hc'
        exact ⟨fun h => hne (hw.eq_of_handler_eq hmem hc h), c', hmem, hid, rfl⟩
    · obtain ⟨c', hc', hid, hhandler⟩ := hlisted.handle id handler h
      refine ⟨c', hw.mem_erase.mpr ⟨?_, hc'⟩, hid, hhandler⟩
      rintro rfl
      simp [hcid] at hid

lemma step (hw : Distinct w) {config : Config} {e : Event} {w' : World}
    (h : Step config w e w') : ListedOpen w' := by
  cases h with
  | connect url host _ => exact hlisted.connect url
  | disconnect c hc => exact hlisted.disconnect hw config.mode hc
  | message c opcode _ => exact hlisted.message c opcode

end ListedOpen

/-! ### What is missing -/

namespace AllRegistered

variable {w : World} (hall : AllRegistered w)

include hall

lemma message (c : Connection) (opcode : Opcode) :
    AllRegistered { w with registry := noteMode w.registry c.handler c.url opcode } := by
  unfold noteMode
  split
  · exact hall
  · exact hall

lemma connect (url : Str) :
    AllRegistered {
      registry := (handleConnect w.registry w.made url).1
      connections := ⟨w.made, url⟩ :: w.connections
      made := w.made + 1 } := by
  intro id
  by_cases hext : isExtensionEndpoint url
  · have hnew : Connection.extensionId ⟨w.made, url⟩ = some (getExtensionIdFromUrl url) :=
      extensionId_eq_some hext
    simp only [handleConnect, hext, if_true]
    by_cases hid : id = getExtensionIdFromUrl url
    · subst hid
      simp [hnew]
    · simp [AList.lookup_insert_ne hid, hall id, hnew, Ne.symm hid]
  · have hnew : Connection.extensionId ⟨w.made, url⟩ = none := extensionId_eq_none hext
    simp only [handleConnect, hext, if_false, Bool.false_eq_true]
    simp [hall id, hnew]

/-- The close of an extension connection takes its id out: none is missing exactly
when no other connection of the id is open. -/
lemma disconnect_iff (hw : Distinct w) (mode : settings.AppMode) {c : Connection} :
    AllRegistered { w with
      registry := (handleDisconnect mode w.registry c.handler c.url).1
      connections := w.connections.erase c } ↔ ClosesLastOfId w (.disconnect c) := by
  by_cases hext : isExtensionEndpoint c.url
  · have hcid := extensionId_eq_some hext
    simp only [handleDisconnect, hext, if_true, ClosesLastOfId]
    constructor
    · intro h id hid c' hc' hid'
      by_contra hne
      -- the id of `c` is erased while `c'` is open
      obtain rfl : getExtensionIdFromUrl c.url = id := by simpa [hcid] using hid
      have := (h _).mpr ⟨c', hw.mem_erase.mpr ⟨hne, hc'⟩, hid'⟩
      simp at this
    · intro hlast id
      by_cases hid : id = getExtensionIdFromUrl c.url
      · subst hid
        refine iff_of_false (by simp) ?_
        rintro ⟨c', hc', hid'⟩
        obtain ⟨hne, hmem⟩ := hw.mem_erase.mp hc'
        exact hne (hlast _ hcid c' hmem hid')
      · rw [AList.lookup_erase_ne hid, hall id]
        refine exists_congr fun c' => ?_
        rw [hw.mem_erase]
        refine ⟨fun h => ⟨⟨?_, h.1⟩, h.2⟩, fun h => ⟨h.1.2, h.2⟩⟩
        rintro rfl
        exact hid (by simpa [hcid] using h.2.symm)
  · have hcid := extensionId_eq_none hext
    simp only [handleDisconnect, hext, if_false, Bool.false_eq_true]
    refine iff_of_true (fun id => ?_) fun id hid => by simp [hcid] at hid
    rw [hall id]
    refine exists_congr fun c' => and_congr_left fun hid => ?_
    rw [hw.mem_erase]
    refine (and_iff_right ?_).symm
    rintro rfl
    simp [hcid] at hid

end AllRegistered

/-- A step keeps the registries sound exactly when it closes no extension
connection but the last of its id. -/
lemma registrySound_step_iff {config : Config} {w w' : World} {e : Event} (hw : Distinct w)
    (hsound : RegistrySound w) (h : Step config w e w') :
    RegistrySound w' ↔ ClosesLastOfId w e := by
  obtain ⟨hlisted, hall⟩ := registrySound_iff.mp hsound
  rw [registrySound_iff, and_iff_right (hlisted.step hw h)]
  cases h with
  | connect url host _ => exact iff_of_true (hall.connect url) trivial
  | disconnect c hc => exact hall.disconnect_iff hw config.mode
  | message c opcode _ => exact iff_of_true (hall.message c opcode) trivial

/-- **The registries are sound** after each event of a run from the empty ones
exactly when every extension connection is closed as the last of its id. -/
theorem registry_sound_iff {config : Config} {trace : List (Event × World)}
    (h : Run (Step config) {} trace) :
    (∀ x ∈ trace, RegistrySound x.2) ↔ Along ClosesLastOfId {} trace :=
  h.good_iff (I := Distinct) (G := RegistrySound) (P := ClosesLastOfId)
    (fun _ _ _ hw hst => hw.step hst)
    (fun _ _ _ hw hsound hst => registrySound_step_iff hw hsound hst) ⟨by simp, by simp⟩
    (registrySound_iff.mpr ⟨⟨by simp, by simp⟩, by simp [AllRegistered]⟩)

/-- A server with one loaded extension. -/
def extensionServer : Config := ⟨.window, "token", ["ext"]⟩

/-- The handshake of an extension. -/
def extensionUrl : Str := "/?extensionId=ext&connectToken=token"

/-- The worlds after the connections of `extensionUrl` numbered up to `n`. -/
def afterConnects : ℕ → World
  | 0 => {}
  | n + 1 => {
      registry := (handleConnect (afterConnects n).registry (afterConnects n).made extensionUrl).1
      connections := ⟨(afterConnects n).made, extensionUrl⟩ :: (afterConnects n).connections
      made := (afterConnects n).made + 1 }

/-- The world after a connection of `extensionUrl` is closed. -/
def afterClose (w : World) (handler : ℕ) : World :=
  { w with
    registry := (handleDisconnect extensionServer.mode w.registry handler extensionUrl).1
    connections := w.connections.erase ⟨handler, extensionUrl⟩ }

/-- The extension connects, and disconnects. -/
def shortTrace : List (Event × World) :=
  [(.connect extensionUrl "localhost", afterConnects 1),
    (.disconnect ⟨0, extensionUrl⟩, afterClose (afterConnects 1) 0)]

lemma run_shortTrace : Run (Step extensionServer) {} shortTrace :=
  .cons (.connect {} _ _ (by decide)) (.cons (.disconnect _ _ (by decide)) (.nil _))

theorem shortTrace_sound :
    Along ClosesLastOfId {} shortTrace ∧ ∀ x ∈ shortTrace, RegistrySound x.2 := by
  have hlast : Along ClosesLastOfId {} shortTrace :=
    ⟨trivial, fun id _ c' hc' _ => by simpa [afterConnects] using hc', trivial⟩
  exact ⟨hlast, (registry_sound_iff run_shortTrace).mpr hlast⟩

/-- The extension connects again before its old connection is closed: it is
open, and not registered. -/
theorem reconnect_loses_registration :
    Run (Step extensionServer) {}
        [(.connect extensionUrl "localhost", afterConnects 1),
          (.connect extensionUrl "localhost", afterConnects 2),
          (.disconnect ⟨0, extensionUrl⟩, afterClose (afterConnects 2) 0)] ∧
      (⟨1, extensionUrl⟩ : Connection) ∈ (afterClose (afterConnects 2) 0).connections ∧
      sendToExtension (afterClose (afterConnects 2) 0).registry "ext" = none ∧
      ¬ RegistrySound (afterClose (afterConnects 2) 0) := by
  have hopen : (⟨1, extensionUrl⟩ : Connection) ∈ (afterClose (afterConnects 2) 0).connections := by
    decide
  have hsend : sendToExtension (afterClose (afterConnects 2) 0).registry "ext" = none := by decide
  refine ⟨.cons (.connect {} _ _ (by decide)) (.cons (.connect (afterConnects 1) _ _ (by decide))
    (.cons (.disconnect _ _ (by decide)) (.nil _))), hopen, hsend, fun h => ?_⟩
  obtain ⟨handler, opcode, hsent, -⟩ := h.sent "ext" ⟨_, hopen, by decide⟩
  rw [hsend] at hsent
  cases hsent

end Neutralino.neuserver
