import Neutralino.Config.GlobalVars
import Neutralino.Server.Connections

/-!
Messages to every registered connection: `neuserver::broadcast` and the events
that are dispatched through it.

* `sendEach`: sends one after another, up to the first that throws.
* `Order`: the registered connections in the order the loops visit them.
* `broadcastToAllApps`, `broadcastToAllExtensions`, `broadcast`, `dispatch`.
* `registered_nodup`: no connection is registered twice, along any run.
* `broadcasts_deliver_iff`: **when a message reaches every connection**: the loops
  do not catch what `send` throws.
-/

namespace Neutralino.neuserver

open Runs

/-! ### Sending -/

/-- A message on its way to a connection. -/
structure Frame where
  connection : ℕ
  payload : Str
  opcode : Opcode

/-- The sends that were attempted, and whether an exception left the loop. -/
structure Sent where
  attempts : List Frame := []
  escapes : Bool := false

/-- `server->send`, one frame after another; it throws for the connections that
`throws` tells. -/
def sendEach (throws : ℕ → Bool) : List Frame → Sent
  | [] => {}
  | frame :: frames =>
      if throws frame.connection then { attempts := [frame], escapes := true }
      else
        let sent := sendEach throws frames
        { sent with attempts := frame :: sent.attempts }

/-- One loop after another. -/
def Sent.andThen (first second : Sent) : Sent :=
  if first.escapes then first
  else { second with attempts := first.attempts ++ second.attempts }

section Sending

variable {throws : ℕ → Bool}

lemma sendEach_append (frames frames' : List Frame) :
    sendEach throws (frames ++ frames') =
      (sendEach throws frames).andThen (sendEach throws frames') := by
  induction frames with
  | nil => rfl
  | cons frame frames ih =>
      rw [List.cons_append, sendEach, sendEach, ih]
      by_cases hthrows : throws frame.connection = true
      · simp [hthrows, Sent.andThen]
      · by_cases hescapes : (sendEach throws frames).escapes = true
        · simp [hthrows, hescapes, Sent.andThen]
        · simp [hthrows, hescapes, Sent.andThen]

/-- An exception leaves the loop exactly if a send throws. -/
lemma escapes_eq_false_iff {frames : List Frame} :
    (sendEach throws frames).escapes = false ↔ ∀ frame ∈ frames, throws frame.connection = false := by
  induction frames with
  | nil => simp [sendEach]
  | cons frame frames ih =>
      rw [sendEach, List.forall_mem_cons]
      by_cases hthrows : throws frame.connection = true
      · simp [hthrows]
      · simp [hthrows, ih]

/-- Where no exception leaves the loop, every send was attempted. -/
lemma attempts_of_escapes {frames : List Frame} (h : (sendEach throws frames).escapes = false) :
    (sendEach throws frames).attempts = frames := by
  induction frames with
  | nil => rfl
  | cons frame frames ih =>
      rw [sendEach] at h ⊢
      by_cases hthrows : throws frame.connection = true
      · simp [hthrows] at h
      · rw [if_neg hthrows] at h ⊢
        exact congrArg (frame :: ·) (ih h)

end Sending

/-! ### The loops -/

/-- The registered connections in the order in which the loops visit them: the
set in that of its owners, the map in that of its keys. -/
structure Order (r : Registry) where
  apps : List ℕ
  apps_nodup : apps.Nodup
  mem_apps (connection : ℕ) : connection ∈ apps ↔ connection ∈ r.appConnections
  extensions : List (Sigma fun _ : Str => ℕ)
  extensions_perm : extensions.Perm r.extConnections.entries

variable {r : Registry}

/-- The registered extension connections. -/
def Order.extensionConnections (order : Order r) : List ℕ := order.extensions.map Sigma.snd

/-- The registered connections. -/
def Order.connections (order : Order r) : List ℕ := order.apps ++ order.extensionConnections

/-- The frames of `broadcastToAllApps`. -/
def appFrames (order : Order r) (message : Json) : List Frame :=
  order.apps.map fun connection => ⟨connection, helpers.jsonToString message.value, .text⟩

/-- The frames of `broadcastToAllExtensions`. -/
def extensionFrames (order : Order r) (message : Json) : List Frame :=
  order.extensionConnections.map fun connection =>
    ⟨connection, helpers.jsonToString message.value, (r.wsMode.lookup connection).getD .text⟩

/-- `broadcastToAllApps`. -/
def broadcastToAllApps (order : Order r) (throws : ℕ → Bool) (message : Json) : Sent :=
  sendEach throws (appFrames order message)

/-- `broadcastToAllExtensions`. -/
def broadcastToAllExtensions (order : Order r) (throws : ℕ → Bool) (message : Json) : Sent :=
  sendEach throws (extensionFrames order message)

/-- `broadcast`. -/
def broadcast (order : Order r) (throws : ℕ → Bool) (message : Json) : Sent :=
  (broadcastToAllApps order throws message).andThen (broadcastToAllExtensions order throws message)

/-- `events::__makeEventPayload`. -/
def makeEventPayload (event : Str) (data : Json) : Json :=
  (Json.null.set "event" (.str event)).set "data" data

/-- `events::dispatch`. -/
def dispatch (order : Order r) (throws : ℕ → Bool) (event : Str) (data : Json) : Sent :=
  broadcast order throws (makeEventPayload event data)

/-- A message is sent to each of the connections, once for each time it is
registered, and no exception is left to the caller. -/
structure Delivers (connections : List ℕ) (message : Json) (sent : Sent) : Prop where
  attempted : (sent.attempts.map Frame.connection).Perm connections
  payload : ∀ frame ∈ sent.attempts, frame.payload = helpers.jsonToString message.value
  caught : sent.escapes = false

/-- Frames are delivered exactly if no send throws. -/
lemma delivers_sendEach_iff (throws : ℕ → Bool) {frames : List Frame} {message : Json}
    (hpayload : ∀ frame ∈ frames, frame.payload = helpers.jsonToString message.value) :
    Delivers (frames.map Frame.connection) message (sendEach throws frames) ↔
      ∀ connection ∈ frames.map Frame.connection, throws connection = false := by
  have hescapes : (sendEach throws frames).escapes = false ↔
      ∀ connection ∈ frames.map Frame.connection, throws connection = false := by
    rw [escapes_eq_false_iff, List.forall_mem_map]
  rw [← hescapes]
  refine ⟨Delivers.caught, fun hcaught => ?_⟩
  have hattempts := attempts_of_escapes hcaught
  exact ⟨by rw [hattempts], by rwa [hattempts], hcaught⟩

section Frames

variable (order : Order r) (message : Json)

lemma connection_appFrames : (appFrames order message).map Frame.connection = order.apps := by
  simp [appFrames, Function.comp_def]

lemma connection_extensionFrames :
    (extensionFrames order message).map Frame.connection = order.extensionConnections := by
  simp [extensionFrames, Function.comp_def]

lemma payload_appFrames :
    ∀ frame ∈ appFrames order message, frame.payload = helpers.jsonToString message.value := by
  simp [appFrames]

lemma payload_extensionFrames :
    ∀ frame ∈ extensionFrames order message, frame.payload = helpers.jsonToString message.value := by
  simp [extensionFrames]

end Frames

/-- **When a message reaches every connection**: a send that throws ends its loop
and the ones after it, and the exception is left to the caller. -/
theorem broadcasts_deliver_iff (order : Order r) (throws : ℕ → Bool) (message : Json) :
    (Delivers order.apps message (broadcastToAllApps order throws message) ↔
        ∀ connection ∈ order.apps, throws connection = false) ∧
      (Delivers order.extensionConnections message
          (broadcastToAllExtensions order throws message) ↔
        ∀ connection ∈ order.extensionConnections, throws connection = false) ∧
      (Delivers order.connections message (broadcast order throws message) ↔
        ∀ connection ∈ order.connections, throws connection = false) := by
  have happs := payload_appFrames order message
  have hextensions := payload_extensionFrames order message
  refine ⟨?_, ?_, ?_⟩
  · have h := delivers_sendEach_iff throws happs
    rwa [connection_appFrames] at h
  · have h := delivers_sendEach_iff throws hextensions
    rwa [connection_extensionFrames] at h
  · have h := delivers_sendEach_iff throws (List.forall_mem_append.mpr ⟨happs, hextensions⟩)
    rw [List.map_append, connection_appFrames, connection_extensionFrames, sendEach_append] at h
    exact h

/-- Two app connections, the first of which is no longer open. -/
def twoApps : Order { appConnections := {0, 1} } where
  apps := [0, 1]
  apps_nodup := by decide
  mem_apps := by simp
  extensions := []
  extensions_perm := .refl _

/-- The second connection gets nothing, and the exception is left to the caller. -/
theorem closedConnection_blocks :
    ¬ ∀ (r : Registry) (order : Order r) (throws : ℕ → Bool) (message : Json),
      Delivers order.connections message (broadcast order throws message) := by
  intro h
  have hperm := (h _ twoApps (· = 0) .null).attempted
  have hlength : 1 = 2 := hperm.length_eq
  omega

/-! ### Each connection once -/

/-- A connection is registered at one place at most, and was made before. -/
structure RegisteredOnce (w : World) : Prop where
  app_lt : ∀ c ∈ w.registry.appConnections, c < w.made
  extension_lt : ∀ id c, w.registry.extConnections.lookup id = some c → c < w.made
  extension_inj : ∀ id id' c, w.registry.extConnections.lookup id = some c →
    w.registry.extConnections.lookup id' = some c → id = id'
  apart : ∀ id c, w.registry.extConnections.lookup id = some c → c ∉ w.registry.appConnections

namespace RegisteredOnce

variable {w : World} (hw : RegisteredOnce w)

include hw

lemma connect (url : Str) :
    RegisteredOnce {
      registry := (handleConnect w.registry w.made url).1
      connections := ⟨w.made, url⟩ :: w.connections
      made := w.made + 1 } := by
  by_cases hext : isExtensionEndpoint url
  · simp only [handleConnect, hext, if_true]
    -- under its id stands the new connection, under the others what stood there
    have hlookup : ∀ id c, (w.registry.extConnections.insert (getExtensionIdFromUrl url)
        w.made).lookup id = some c → id = getExtensionIdFromUrl url ∧ c = w.made ∨
          w.registry.extConnections.lookup id = some c := by
      intro id c h
      by_cases hid : id = getExtensionIdFromUrl url
      · subst hid
        rw [AList.lookup_insert, Option.some.injEq] at h
        exact .inl ⟨rfl, h.symm⟩
      · rw [AList.lookup_insert_ne hid] at h
        exact .inr h
    refine ⟨fun c hc => Nat.lt_succ_of_lt (hw.app_lt c hc), fun id c h => ?_, fun id id' c h h' => ?_,
      fun id c h => ?_⟩
    · rcases hlookup id c h with ⟨-, rfl⟩ | h
      · exact Nat.lt_succ_self _
      · exact Nat.lt_succ_of_lt (hw.extension_lt id c h)
    · rcases hlookup id c h with ⟨hid, rfl⟩ | hold
      · rcases hlookup id' _ h' with ⟨hid', -⟩ | hold'
        · exact hid.trans hid'.symm
        · exact absurd (hw.extension_lt id' _ hold') (lt_irrefl _)
      · rcases hlookup id' c h' with ⟨-, rfl⟩ | hold'
        · exact absurd (hw.extension_lt id _ hold) (lt_irrefl _)
        · exact hw.extension_inj id id' c hold hold'
    · rcases hlookup id c h with ⟨-, rfl⟩ | hold
      · exact fun hmem => absurd (hw.app_lt _ hmem) (lt_irrefl _)
      · exact hw.apart id c hold
  · simp only [handleConnect, hext, if_false, Bool.false_eq_true]
    refine ⟨fun c hc => ?_, fun id c h => Nat.lt_succ_of_lt (hw.extension_lt id c h),
      hw.extension_inj, fun id c h hmem => ?_⟩
    · rcases Finset.mem_insert.mp hc with rfl | hc
      · exact Nat.lt_succ_self _
      · exact Nat.lt_succ_of_lt (hw.app_lt c hc)
    · rcases Finset.mem_insert.mp hmem with rfl | hmem
      · exact absurd (hw.extension_lt id _ h) (lt_irrefl _)
      · exact hw.apart id c h hmem

lemma disconnect (mode : settings.AppMode) (c : Connection) :
    RegisteredOnce { w with
      registry := (handleDisconnect mode w.registry c.handler c.url).1
      connections := w.connections.erase c } := by
  by_cases hext : isExtensionEndpoint c.url
  · simp only [handleDisconnect, hext, if_true]
    have hlookup : ∀ id c', (w.registry.extConnections.erase (getExtensionIdFromUrl c.url)).lookup id =
        some c' → w.registry.extConnections.lookup id = some c' := by
      intro id c' h
      by_cases hid : id = getExtensionIdFromUrl c.url
      · subst hid
        simp at h
      · rwa [AList.lookup_erase_ne hid] at h
    exact ⟨hw.app_lt, fun id c' h => hw.extension_lt id c' (hlookup id c' h),
      fun id id' c' h h' => hw.extension_inj id id' c' (hlookup id c' h) (hlookup id' c' h'),
      fun id c' h => hw.apart id c' (hlookup id c' h)⟩
  · simp only [handleDisconnect, hext, if_false, Bool.false_eq_true]
    exact ⟨fun c' hc' => hw.app_lt c' (Finset.mem_of_mem_erase hc'), hw.extension_lt,
      hw.extension_inj, fun id c' h hmem => hw.apart id c' h (Finset.mem_of_mem_erase hmem)⟩

lemma message (c : Connection) (opcode : Opcode) :
    RegisteredOnce { w with registry := noteMode w.registry c.handler c.url opcode } := by
  unfold noteMode
  split
  · exact ⟨hw.app_lt, hw.extension_lt, hw.extension_inj, hw.apart⟩
  · exact hw

lemma step {config : Config} {e : Event} {w' : World} (h : Step config w e w') :
    RegisteredOnce w' := by
  cases h with
  | connect url host _ => exact hw.connect url
  | disconnect c _ => exact hw.disconnect config.mode c
  | message c opcode _ => exact hw.message c opcode

end RegisteredOnce

/-- **No connection is registered twice**, along any run. -/
theorem registered_nodup {config : Config} {trace : List (Event × World)}
    (h : Run (Step config) {} trace) :
    ∀ x ∈ trace, ∀ order : Order x.2.registry, order.connections.Nodup := by
  intro x hx order
  have hw : RegisteredOnce x.2 := Run.invariant (fun _ _ _ hw hst => RegisteredOnce.step hw hst) h
    ⟨by simp, by simp, by simp, by simp⟩ x hx
  have hlookup : ∀ e ∈ order.extensions, x.2.registry.extConnections.lookup e.1 = some e.2 :=
    fun e he => AList.mem_lookup_iff.mpr (order.extensions_perm.mem_iff.mp he)
  refine List.nodup_append.mpr ⟨order.apps_nodup, ?_, ?_⟩
  · have hentries : order.extensions.Nodup :=
      order.extensions_perm.nodup_iff.mpr x.2.registry.extConnections.nodupKeys.nodup
    refine List.Nodup.map_on ?_ hentries
    rintro ⟨id, c⟩ he ⟨id', c'⟩ he' rfl
    obtain rfl := hw.extension_inj id id' c (hlookup _ he) (hlookup _ he')
    rfl
  · rintro c hc _ hc' rfl
    obtain ⟨e, he, rfl⟩ := List.mem_map.mp hc'
    exact hw.apart e.1 e.2 (hlookup e he) ((order.mem_apps _).mp hc)

end Neutralino.neuserver
