import Neutralino.Server.Broadcast

/-!
The opcodes of the frames that the server sends.

* `FrameWorld`: the server with the messages it has received and the frames of the
  last step.
* `Sending`, `framesOf`: the native reply, the dispatch to an extension and the three
  broadcasts, each as the frames that it attempts.
* `FrameTypes`: a frame to an extension has the opcode of the first message received
  on its connection, and text is what the others have; no opcode of a closed
  connection is remembered.
* `ModesKept`: what is remembered of an open connection is its first opcode.
* `frames_typed`: **every frame has its type**, along every run.
-/

namespace Neutralino.neuserver

open Runs

/-! ### Sending -/

/-- The server, the messages that were received in their order, each with its
connection, and the frames that the last step sent. -/
structure FrameWorld where
  world : World := {}
  received : List (ℕ × Opcode) := []
  frames : List Frame := []

/-- What the server sends: the reply to a native call, an event to an extension, and
the broadcasts, with the sends that throw and the order of the connections. -/
inductive Sending (r : Registry) where
  | reply (c : Connection) (responseMessage : Json)
  | extension (extensionId : Str) (message : Json)
  | allExtensions (order : Order r) (throws : ℕ → Bool) (message : Json)
  | allApps (order : Order r) (throws : ℕ → Bool) (message : Json)
  | all (order : Order r) (throws : ℕ → Bool) (message : Json)

/-- The opcode of the reply in `handleMessage`. -/
def replyOpcode (r : Registry) (handler : ℕ) (url : Str) : Opcode :=
  match r.wsMode.lookup handler with
  | some op => if isExtensionEndpoint url then op else .text
  | none => .text

/-- The frames that are attempted. -/
def framesOf {r : Registry} : Sending r → List Frame
  | .reply c responseMessage =>
      [⟨c.handler, helpers.jsonToString responseMessage.value, replyOpcode r c.handler c.url⟩]
  | .extension extensionId message =>
      (sendToExtension r extensionId).toList.map fun found =>
        ⟨found.1, helpers.jsonToString message.value, found.2⟩
  | .allExtensions order throws message => (broadcastToAllExtensions order throws message).attempts
  | .allApps order throws message => (broadcastToAllApps order throws message).attempts
  | .all order throws message => (broadcast order throws message).attempts

/-- A reply goes to a connection that is open. -/
def Sending.Open {r : Registry} (connections : List Connection) : Sending r → Prop
  | .reply c _ => c ∈ connections
  | _ => True

/-- The messages of an event. -/
def receivedOf : Event → List (ℕ × Opcode)
  | .message c opcode => [(c.handler, opcode)]
  | _ => []

/-- What happens: something at the server, or it sends. -/
inductive FrameEvent where
  | server (e : Event)
  | send

inductive FrameStep (config : Config) : FrameWorld → FrameEvent → FrameWorld → Prop
  | server (s : FrameWorld) (e : Event) (w : World) : Step config s.world e w →
      FrameStep config s (.server e)
        { world := w, received := s.received ++ receivedOf e, frames := [] }
  | send (s : FrameWorld) (sending : Sending s.world.registry) :
      sending.Open s.world.connections →
      FrameStep config s .send { s with frames := framesOf sending }

/-! ### The property -/

/-- The opcode of the first message received on a connection. -/
def firstReceived (received : List (ℕ × Opcode)) (handler : ℕ) : Option Opcode :=
  (received.find? fun x => x.1 = handler).map (·.2)

/-- The opcode of the frames to a connection. -/
def frameType (received : List (ℕ × Opcode)) (c : Connection) : Opcode :=
  match c.extensionId with
  | some _ => (firstReceived received c.handler).getD .text
  | none => .text

/-- Every frame of the last step goes to an open connection with its type, and only
opcodes of open extension connections are remembered. -/
structure FrameTypes (s : FrameWorld) : Prop where
  typed : ∀ frame ∈ s.frames, ∃ c ∈ s.world.connections,
    c.handler = frame.connection ∧ frame.opcode = frameType s.received c
  remembered : ∀ handler, (s.world.registry.wsMode.lookup handler).isSome →
    ∃ c ∈ s.world.connections, c.extensionId.isSome ∧ c.handler = handler

/-! ### What is remembered -/

/-- What is remembered of an open extension connection is the first opcode received on
it, and of every other connection nothing. -/
structure ModesKept (s : FrameWorld) : Prop where
  distinct : Distinct s.world
  listed : ListedOpen s.world
  first : ∀ c ∈ s.world.connections, c.extensionId.isSome →
    s.world.registry.wsMode.lookup c.handler = firstReceived s.received c.handler
  remembered : ∀ handler, (s.world.registry.wsMode.lookup handler).isSome →
    ∃ c ∈ s.world.connections, c.extensionId.isSome ∧ c.handler = handler
  made : ∀ x ∈ s.received, x.1 < s.world.made

section Kept

variable {config : Config} {s t : FrameWorld} {received : List (ℕ × Opcode)}

lemma isSome_extensionId_iff {c : Connection} :
    c.extensionId.isSome ↔ isExtensionEndpoint c.url = true := by
  by_cases hext : isExtensionEndpoint c.url = true
  · simp [extensionId_eq_some hext, hext]
  · simp [extensionId_eq_none hext, hext]

lemma firstReceived_append_of_ne {handler handler' : ℕ} (h : handler ≠ handler') (opcode : Opcode) :
    firstReceived (received ++ [(handler, opcode)]) handler' = firstReceived received handler' := by
  simp [firstReceived, List.find?_append, h]

lemma firstReceived_append_self (handler : ℕ) (opcode : Opcode) :
    firstReceived (received ++ [(handler, opcode)]) handler =
      (firstReceived received handler).or (some opcode) := by
  rw [firstReceived, firstReceived, List.find?_append]
  cases received.find? fun x => x.1 = handler <;> simp

lemma firstReceived_eq_none {handler : ℕ} (h : ∀ x ∈ received, x.1 < handler) :
    firstReceived received handler = none := by
  rw [firstReceived, Option.map_eq_none_iff, List.find?_eq_none]
  intro x hx
  simpa using (h x hx).ne

/-- A connection that is made has nothing remembered or received. -/
lemma ModesKept.connect (hs : ModesKept s) {url host : Str}
    (h : handleValidate config url host = true) :
    ModesKept
      { world :=
          { registry := (handleConnect s.world.registry s.world.made url).1
            connections := ⟨s.world.made, url⟩ :: s.world.connections
            made := s.world.made + 1 }
        received := s.received } := by
  have hmodes : (handleConnect s.world.registry s.world.made url).1.wsMode =
      s.world.registry.wsMode := by
    unfold handleConnect
    split <;> rfl
  have hnew : s.world.registry.wsMode.lookup s.world.made = none := by
    rw [← Option.not_isSome_iff_eq_none]
    intro hsome
    obtain ⟨c, hc, -, hhandler⟩ := hs.remembered _ hsome
    exact absurd hhandler (hs.distinct.made c hc).ne
  refine ⟨hs.distinct.step (.connect s.world url host h), hs.listed.connect url, ?_, ?_,
    fun x hx => Nat.lt_succ_of_lt (hs.made x hx)⟩
  · intro c hc hext
    rw [hmodes]
    rcases List.mem_cons.mp hc with rfl | hc
    · rw [hnew, firstReceived_eq_none hs.made]
    · exact hs.first c hc hext
  · intro handler hsome
    rw [hmodes] at hsome
    obtain ⟨c, hc, hkept⟩ := hs.remembered handler hsome
    exact ⟨c, List.mem_cons_of_mem _ hc, hkept⟩

/-- The opcode of a connection that is closed is forgotten. -/
lemma ModesKept.disconnect (hs : ModesKept s) {c : Connection} (hc : c ∈ s.world.connections) :
    ModesKept
      { world :=
          { s.world with
            registry := (handleDisconnect config.mode s.world.registry c.handler c.url).1
            connections := s.world.connections.erase c }
        received := s.received } := by
  have hmodes : (handleDisconnect config.mode s.world.registry c.handler c.url).1.wsMode =
      s.world.registry.wsMode.erase c.handler := by
    unfold handleDisconnect
    split <;> rfl
  refine ⟨hs.distinct.step (.disconnect s.world c hc), hs.listed.disconnect hs.distinct _ hc, ?_, ?_,
    hs.made⟩
  · intro c' hc' hext
    obtain ⟨hne, hmem⟩ := hs.distinct.mem_erase.mp hc'
    have hhandler : c'.handler ≠ c.handler :=
      fun h => hne (hs.distinct.eq_of_handler_eq hmem hc h)
    rw [hmodes, AList.lookup_erase_ne hhandler]
    exact hs.first c' hmem hext
  · intro handler hsome
    rw [hmodes] at hsome
    have hhandler : handler ≠ c.handler := by
      rintro rfl
      simp at hsome
    rw [AList.lookup_erase_ne hhandler] at hsome
    obtain ⟨c', hc', hext, rfl⟩ := hs.remembered handler hsome
    exact ⟨c', hs.distinct.mem_erase.mpr ⟨fun h => hhandler (h ▸ rfl), hc'⟩, hext, rfl⟩

/-- What `handleMessage` remembers of a connection. -/
lemma lookup_noteMode (r : Registry) {handler : ℕ} {url : Str} (opcode : Opcode)
    (hext : isExtensionEndpoint url = true) (handler' : ℕ) :
    (noteMode r handler url opcode).wsMode.lookup handler' =
      if handler' = handler then (r.wsMode.lookup handler).or (some opcode)
      else r.wsMode.lookup handler' := by
  rw [noteMode, hext, Bool.true_and]
  by_cases hself : handler' = handler
  · subst hself
    cases hmode : r.wsMode.lookup handler' <;> simp [hmode]
  · cases hmode : r.wsMode.lookup handler <;> simp [hself]

/-- A message is remembered where it is the first of an extension connection. -/
lemma ModesKept.message (hs : ModesKept s) {c : Connection} (hc : c ∈ s.world.connections)
    (opcode : Opcode) :
    ModesKept
      { world := { s.world with registry := noteMode s.world.registry c.handler c.url opcode }
        received := s.received ++ [(c.handler, opcode)] } := by
  have hmade : ∀ x ∈ s.received ++ [(c.handler, opcode)], x.1 < s.world.made := by
    rw [List.forall_mem_append]
    exact ⟨hs.made, by simpa using hs.distinct.made c hc⟩
  have hfirst : ∀ c' ∈ s.world.connections, c' ≠ c →
      firstReceived (s.received ++ [(c.handler, opcode)]) c'.handler =
        firstReceived s.received c'.handler := fun c' hc' hne =>
    firstReceived_append_of_ne (fun h => hne (hs.distinct.eq_of_handler_eq hc hc' h).symm) opcode
  refine ⟨⟨hs.distinct.handlers, hs.distinct.made⟩, hs.listed.message c opcode, ?_, ?_, hmade⟩
  · intro c' hc' hext'
    by_cases hext : isExtensionEndpoint c.url = true
    · rw [lookup_noteMode _ opcode hext]
      by_cases hself : c' = c
      · rw [hself, if_pos rfl, firstReceived_append_self, hs.first c hc (isSome_extensionId_iff.mpr hext)]
      · rw [if_neg fun h => hself (hs.distinct.eq_of_handler_eq hc' hc h), hfirst c' hc' hself]
        exact hs.first c' hc' hext'
    · have hnote : noteMode s.world.registry c.handler c.url opcode = s.world.registry := by
        simp [noteMode, hext]
      rw [hnote, hfirst c' hc' fun h => hext (isSome_extensionId_iff.mp (h ▸ hext'))]
      exact hs.first c' hc' hext'
  · intro handler hsome
    by_cases hext : isExtensionEndpoint c.url = true
    · rw [lookup_noteMode _ opcode hext] at hsome
      split_ifs at hsome with hself
      · exact ⟨c, hc, isSome_extensionId_iff.mpr hext, hself.symm⟩
      · exact hs.remembered handler hsome
    · have hnote : noteMode s.world.registry c.handler c.url opcode = s.world.registry := by
        simp [noteMode, hext]
      rw [hnote] at hsome
      exact hs.remembered handler hsome

lemma ModesKept.step {e : FrameEvent} (hs : ModesKept s) (h : FrameStep config s e t) :
    ModesKept t := by
  cases h with
  | send sending hopen => exact ⟨hs.distinct, hs.listed, hs.first, hs.remembered, hs.made⟩
  | server e w hst =>
      cases hst with
      | connect url host hvalid =>
          rw [show s.received ++ receivedOf (.connect url host) = s.received from List.append_nil _]
          exact hs.connect hvalid
      | disconnect c hc =>
          rw [show s.received ++ receivedOf (.disconnect c) = s.received from List.append_nil _]
          exact hs.disconnect hc
      | message c opcode hc => exact hs.message hc opcode

end Kept

/-! ### The frames -/

/-- A frame goes to an open connection with its type. -/
def Typed (s : FrameWorld) (frame : Frame) : Prop :=
  ∃ c ∈ s.world.connections, c.handler = frame.connection ∧ frame.opcode = frameType s.received c

/-- What is attempted of frames is some of them. -/
lemma mem_of_mem_attempts {throws : ℕ → Bool} {frames : List Frame} {frame : Frame}
    (h : frame ∈ (sendEach throws frames).attempts) : frame ∈ frames := by
  induction frames with
  | nil => exact h
  | cons first frames ih =>
      rw [sendEach] at h
      split_ifs at h with hthrows
      · rw [List.mem_singleton.mp h]
        exact List.mem_cons_self
      · rcases List.mem_cons.mp h with rfl | h
        · exact List.mem_cons_self
        · exact List.mem_cons_of_mem _ (ih h)

section Frames

variable {s : FrameWorld} (hs : ModesKept s)

include hs

/-- A registered extension connection is open, and its opcode is the first received. -/
lemma ModesKept.typed_extension {id : Str} {handler : ℕ} {payload : Str}
    (h : s.world.registry.extConnections.lookup id = some handler) :
    Typed s ⟨handler, payload, (s.world.registry.wsMode.lookup handler).getD .text⟩ := by
  obtain ⟨c, hc, hid, rfl⟩ := hs.listed.handle id handler h
  refine ⟨c, hc, rfl, ?_⟩
  have hfirst := hs.first c hc (by rw [hid]; rfl)
  simp only [frameType, hid, hfirst]

lemma ModesKept.typed_extensionFrames (order : Order s.world.registry) (message : Json) :
    ∀ frame ∈ extensionFrames order message, Typed s frame := by
  intro frame hframe
  obtain ⟨handler, hhandler, rfl⟩ := List.mem_map.mp hframe
  obtain ⟨entry, hentry, rfl⟩ := List.mem_map.mp hhandler
  exact hs.typed_extension (AList.mem_lookup_iff.mpr (order.extensions_perm.mem_iff.mp hentry))

lemma ModesKept.typed_appFrames (order : Order s.world.registry) (message : Json) :
    ∀ frame ∈ appFrames order message, Typed s frame := by
  intro frame hframe
  obtain ⟨handler, hhandler, rfl⟩ := List.mem_map.mp hframe
  obtain ⟨c, hc, hid, rfl⟩ := (hs.listed.apps handler).mp ((order.mem_apps handler).mp hhandler)
  exact ⟨c, hc, rfl, by rw [frameType, hid]⟩

/-- The reply has the type of its connection. -/
lemma ModesKept.typed_reply {c : Connection} (hc : c ∈ s.world.connections) (payload : Str) :
    Typed s ⟨c.handler, payload, replyOpcode s.world.registry c.handler c.url⟩ := by
  refine ⟨c, hc, rfl, ?_⟩
  by_cases hext : isExtensionEndpoint c.url = true
  · have hid := extensionId_eq_some hext
    have hfirst := hs.first c hc (isSome_extensionId_iff.mpr hext)
    simp only [replyOpcode, frameType, hid, hext, if_true, hfirst]
    cases firstReceived s.received c.handler <;> rfl
  · have hid := extensionId_eq_none hext
    simp only [replyOpcode, frameType, hid, hext]
    cases s.world.registry.wsMode.lookup c.handler <;> rfl

/-- Whatever is sent has its type. -/
lemma ModesKept.typed (sending : Sending s.world.registry)
    (hopen : sending.Open s.world.connections) : ∀ frame ∈ framesOf sending, Typed s frame := by
  intro frame hframe
  cases sending with
  | reply c responseMessage =>
      obtain rfl := List.mem_singleton.mp hframe
      exact hs.typed_reply hopen _
  | extension extensionId message =>
      obtain ⟨found, hfound, rfl⟩ := List.mem_map.mp hframe
      obtain ⟨handler, hhandler, rfl⟩ := Option.map_eq_some_iff.mp (Option.mem_toList.mp hfound)
      exact hs.typed_extension hhandler
  | allExtensions order throws message =>
      exact hs.typed_extensionFrames order message frame (mem_of_mem_attempts hframe)
  | allApps order throws message =>
      exact hs.typed_appFrames order message frame (mem_of_mem_attempts hframe)
  | all order throws message =>
      rw [framesOf, broadcast, broadcastToAllApps, broadcastToAllExtensions, ← sendEach_append] at hframe
      rcases List.mem_append.mp (mem_of_mem_attempts hframe) with happ | hextension
      · exact hs.typed_appFrames order message frame happ
      · exact hs.typed_extensionFrames order message frame hextension

end Frames

/-- **Every frame has its type**: in every run, a frame to an extension connection has
the opcode of the first message received on it, text where none was, and a frame to an
app connection is text; the opcode of a closed connection is forgotten. -/
theorem frames_typed {config : Config} {trace : List (FrameEvent × FrameWorld)}
    (h : Run (FrameStep config) {} trace) : ∀ x ∈ trace, FrameTypes x.2 := by
  have hinitial : ModesKept ({} : FrameWorld) :=
    ⟨⟨by simp, by simp⟩, ⟨by simp, by simp⟩, by simp, by simp, by simp⟩
  have hstep : ∀ s e t, ModesKept s ∧ FrameTypes s → FrameStep config s e t →
      ModesKept t ∧ FrameTypes t := by
    rintro s e t ⟨hs, -⟩ hst
    have ht := hs.step hst
    refine ⟨ht, fun frame hframe => ?_, ht.remembered⟩
    cases hst with
    | server e w hst => cases hframe
    | send sending hopen => exact hs.typed sending hopen frame hframe
  intro x hx
  exact (h.invariant hstep ⟨hinitial, by simp, by simp⟩ x hx).2

/-- The extension has connected and sent a binary message. -/
def afterBinary : FrameWorld where
  world :=
    { afterConnects 1 with registry := noteMode (afterConnects 1).registry 0 extensionUrl .binary }
  received := [(0, .binary)]

/-- It was sent an event, in a binary frame. -/
def afterEvent : FrameWorld :=
  { afterBinary with frames := framesOf (r := afterBinary.world.registry) (.extension "ext" .null) }

/-- The connection, the message and the event. -/
def binaryTrace : List (FrameEvent × FrameWorld) :=
  [(.server (.connect extensionUrl "localhost"), { world := afterConnects 1 }),
    (.server (.message ⟨0, extensionUrl⟩ .binary), afterBinary), (.send, afterEvent)]

theorem binaryTrace_typed : FrameTypes afterEvent := by
  have hconnect : Step extensionServer {} (.connect extensionUrl "localhost") (afterConnects 1) :=
    .connect {} _ _ (by decide)
  have hmessage : Step extensionServer (afterConnects 1) (.message ⟨0, extensionUrl⟩ .binary)
      afterBinary.world := .message _ _ _ (by decide)
  have hrun : Run (FrameStep extensionServer) {} binaryTrace :=
    .cons (.server {} _ _ hconnect) (.cons (.server _ _ _ hmessage)
      (.cons (.send afterBinary (.extension "ext" .null) trivial) (.nil _)))
  exact frames_typed hrun (.send, afterEvent) (by simp [binaryTrace])

end Neutralino.neuserver
