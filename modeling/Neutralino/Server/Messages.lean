import Neutralino.Server.FrameTypes
import Neutralino.Server.JsonRoundTrip
import Neutralino.Server.NativeCall

/-!
`handleMessage`: the native calls that arrive on the open connections, from the bytes of
a message to those of its reply.

* `readRequest`, `handleMessage`: what is read of a message, and what becomes of it.
* `MessageStep`: the steps of the server, with the messages received and the replies sent
  on record.
* `Asks`, `Serves`: a message that asks for a native call, and what a sequence of messages
  comes to: the calls, the answers and the world they lead to, one message after another.
* `Carries`: a reply that carries an answer to the connection that asked.
* `Handles`: a request that `handleMessage` comes to an end with.
* `messages_served`: **every message is served once**, along every run, and in the order of
  arrival.
-/

namespace Neutralino.neuserver

open JsonText (Floats)
open parser (Holds domOf rebuilt rebuiltString IsUtf8 Is64Bit Is64BitMembers)
open router (NativeMessage NativeMethod App GateOpen executeNativeMethod)
open Runs

/-! ### One message -/

/-- A message that arrives on a connection. -/
structure Message where
  connection : Connection
  opcode : Opcode
  payload : List UInt8

/-- A reply on its way to a connection. -/
structure MessageReply where
  handler : ℕ
  payload : List UInt8
  opcode : Opcode

/-- What `handleMessage` leaves. -/
structure Handled (σ : Type) where
  registry : Registry
  world : σ
  invoked : List Str := []
  reply : Option MessageReply := none

/-- The request in a payload. -/
def readRequest {φ : Type} [Floats φ] (float : φ → Json) (payload : List UInt8) :
    Except Fault NativeMessage := do
  let nativeMessage ← parser.parse float payload
  let id ← (← nativeMessage.index "id").getString
  let method ← (← nativeMessage.index "method").getString
  let accessToken ← (← nativeMessage.index "accessToken").getString
  let data ← nativeMessage.index "data"
  return { id, method, accessToken, data }

/-- `responseMessage`. -/
def responseMessage (nativeResponse : NativeMessage) : Json :=
  ((Json.null.set "id" (.str nativeResponse.id)).set "method" (.str nativeResponse.method)).set
    "data" nativeResponse.data

/-- `handleMessage`: what is thrown while a message is read or carried out is only logged. -/
def handleMessage {φ σ : Type} [Floats φ] (float : φ → Json) (app : App)
    (methods : Str → NativeMethod σ) (r : Registry) (world : σ) (m : Message) :
    Except Fault (Handled σ) :=
  let handler := m.connection.handler
  let url := m.connection.url
  let r := noteMode r handler url m.opcode
  let nativeResponse := do
    let request ← readRequest float m.payload
    executeNativeMethod app methods request world
  match nativeResponse with
  | .ok outcome => .ok {
      registry := r
      world := outcome.world
      invoked := outcome.invoked
      reply := some ⟨handler, serializer.dump (responseMessage outcome.response),
        replyOpcode r handler url⟩ }
  | .error fault => if fault.isException then .ok { registry := r, world } else .error fault

/-! ### Runs -/

/-- The server and the world of the native methods, with the messages received, the
methods invoked and the replies sent so far. -/
structure MessageWorld (σ : Type) where
  server : World := {}
  world : σ
  received : List Message := []
  invoked : List Str := []
  replies : List MessageReply := []

/-- What happens to the server. -/
inductive MessageEvent where
  | connect (url host : Str)
  | disconnect (c : Connection)
  | message (m : Message)

/-- The steps of the server: a connection is made or closed, or an open one carries a
message that `handleMessage` comes to an end with. -/
inductive MessageStep {φ σ : Type} [Floats φ] (float : φ → Json) (config : Config) (app : App)
    (methods : Str → NativeMethod σ) :
    MessageWorld σ → MessageEvent → MessageWorld σ → Prop
  | connect (s : MessageWorld σ) (url host : Str) (w : World) :
      Step config s.server (.connect url host) w →
      MessageStep float config app methods s (.connect url host) { s with server := w }
  | disconnect (s : MessageWorld σ) (c : Connection) (w : World) :
      Step config s.server (.disconnect c) w →
      MessageStep float config app methods s (.disconnect c) { s with server := w }
  | message (s : MessageWorld σ) (m : Message) (handled : Handled σ) :
      m.connection ∈ s.server.connections →
      handleMessage float app methods s.server.registry s.world m = .ok handled →
      MessageStep float config app methods s (.message m) {
        server := { s.server with registry := handled.registry }
        world := handled.world
        received := s.received ++ [m]
        invoked := s.invoked ++ handled.invoked
        replies := s.replies ++ handled.reply.toList }

/-! ### What messages come to -/

/-- A payload is the text of an object with the members of a request. -/
def Asks (φ : Type) [Floats φ] (float : φ → Json) (payload : List UInt8)
    (request : NativeMessage) : Prop :=
  ∃ v members, Holds (φ := φ) payload v ∧ domOf float v = .obj members ∧
    Json.lookup "id" members = .str request.id ∧
    Json.lookup "method" members = .str request.method ∧
    Json.lookup "accessToken" members = .str request.accessToken ∧
    Json.lookup "data" members = request.data

/-- A request that is answered: the access token is not that of the server, or the switch of
the API is readable. -/
def Answerable (app : App) (request : NativeMessage) : Prop :=
  request.accessToken = app.token → ∃ b, permission.hasAPIAccess app.options = .ok b

/-- The answer to a request, for the connection that asked. -/
structure Answer where
  connection : Connection
  id : Str
  method : Str
  data : Json

/-- **What messages come to**, one after another: a message that asks nothing leaves
everything as it is, a request that the gate refuses is answered with an error or the discard
notice, and any other one is carried out and answered with what its method puts out. -/
inductive Serves {φ σ : Type} [Floats φ] (float : φ → Json) (app : App)
    (methods : Str → NativeMethod σ) (start : σ) :
    List Message → List Answer → List Str → σ → Prop
  | nil : Serves float app methods start [] [] [] start
  | ignored {received : List Message} {answers : List Answer} {invoked : List Str} {world : σ}
      (m : Message) : Serves float app methods start received answers invoked world →
      (∀ request, Asks φ float m.payload request → ¬ Answerable app request) →
      Serves float app methods start (received ++ [m]) answers invoked world
  | refused {received : List Message} {answers : List Answer} {invoked : List Str} {world : σ}
      (m : Message) (request : NativeMessage) (data : Json) :
      Serves float app methods start received answers invoked world →
      Asks φ float m.payload request → Answerable app request → ¬ GateOpen app request →
      ((∃ payload, data = errors.errorOutput payload) ∨
        data = router.discardNotice request.method) →
      Serves float app methods start (received ++ [m])
        (answers ++ [⟨m.connection, request.id, request.method, data⟩]) invoked world
  | carriedOut {received : List Message} {answers : List Answer} {invoked : List Str}
      {world : σ} (m : Message) (request : NativeMessage) (outcome : router.Outcome σ) :
      Serves float app methods start received answers invoked world →
      Asks φ float m.payload request → GateOpen app request →
      router.invoke methods request world = .ok outcome →
      Serves float app methods start (received ++ [m])
        (answers ++ [⟨m.connection, request.id, request.method, outcome.response.data⟩])
        (invoked ++ [request.method]) outcome.world

/-- What was received on which connection. -/
def opcodesOf (received : List Message) : List (ℕ × Opcode) :=
  received.map fun m => (m.connection.handler, m.opcode)

/-- A reply carries an answer: it goes to the connection that asked, in a frame of its type,
and what is read of it are the id and the method of the request and the data. -/
structure Carries {φ : Type} [Floats φ] (float : φ → Json) (received : List Message)
    (answer : Answer) (reply : MessageReply) : Prop where
  connection : reply.handler = answer.connection.handler
  opcode : reply.opcode = frameType (opcodesOf received) answer.connection
  payload : parser.parse float reply.payload =
    .ok (.obj [("data".toList, rebuilt answer.data), ("id".toList, .str answer.id),
      ("method".toList, .str answer.method)])

/-- What was received has been served. -/
def Served {φ σ : Type} [Floats φ] (float : φ → Json) (app : App)
    (methods : Str → NativeMethod σ) (start : σ) (s : MessageWorld σ) : Prop :=
  ∃ answers, Serves float app methods start s.received answers s.invoked s.world ∧
    List.Forall₂ (Carries float s.received) answers s.replies

/-! ### Requests -/

section Requests

variable {φ : Type} [Floats φ] {float : φ → Json} {payload : List UInt8}

lemma getString_eq_ok {j : Json} {s : Str} : j.getString = .ok s ↔ j = .str s := by
  cases j <;> simp [Json.getString]

/-- What is read of the members of an object. -/
lemma readRequest_of_parse {members : List (Str × Json)} {request : NativeMessage}
    (h : parser.parse float payload = .ok (.obj members)) :
    readRequest float payload = .ok request ↔
      Json.lookup "id" members = .str request.id ∧
      Json.lookup "method" members = .str request.method ∧
      Json.lookup "accessToken" members = .str request.accessToken ∧
      Json.lookup "data" members = request.data := by
  obtain ⟨id, method, accessToken, data⟩ := request
  simp only [readRequest, h, Json.index, ok_bind, bind_eq_ok, getString_eq_ok, pure, Except.pure,
    Except.ok.injEq, NativeMessage.mk.injEq]
  constructor
  · rintro ⟨_, hid, _, hmethod, _, htoken, rfl, rfl, rfl, rfl⟩
    exact ⟨hid, hmethod, htoken, rfl⟩
  · rintro ⟨hid, hmethod, htoken, hdata⟩
    exact ⟨_, hid, _, hmethod, _, htoken, rfl, rfl, rfl, hdata⟩

/-- **What is read is what was asked.** -/
theorem readRequest_iff {request : NativeMessage} :
    readRequest float payload = .ok request ↔ Asks φ float payload request := by
  constructor
  · intro h
    obtain ⟨json, hparse, hread⟩ := bind_eq_ok.mp h
    obtain ⟨v, hholds, rfl⟩ := parser.holds_of_parse hparse
    cases hjson : domOf float v with
    | obj members =>
        rw [hjson] at hparse
        exact ⟨v, members, hholds, hjson, (readRequest_of_parse hparse).mp h⟩
    | null =>
        rw [hjson] at hread
        simp [Json.index, Json.getString] at hread
    | bool b => simp [hjson, Json.index] at hread
    | num n => simp [hjson, Json.index] at hread
    | str t => simp [hjson, Json.index] at hread
    | arr xs => simp [hjson, Json.index] at hread
  · rintro ⟨v, members, hholds, hmembers, hrequest⟩
    have hparse : parser.parse float payload = .ok (.obj members) := hmembers ▸ hholds.parse
    exact (readRequest_of_parse hparse).mpr hrequest

end Requests

/-! ### Calls -/

section Calls

variable {σ : Type} {app : App} {methods : Str → NativeMethod σ} {request : NativeMessage}
  {world : σ}

/-- The methods put out numbers of 64 bits. -/
def Puts64Bit (methods : Str → NativeMethod σ) : Prop :=
  ∀ method data world output, (methods method data world).1 = .ok output → Is64Bit output

lemma is64Bit_errorOutput (code : errors.StatusCode) (param : Str) :
    Is64Bit (errors.errorOutput (errors.makeErrorPayload code param)) :=
  ⟨⟨trivial, trivial, trivial⟩, trivial⟩

lemma is64Bit_invoke (hmethods : Puts64Bit methods) {outcome : router.Outcome σ}
    (h : router.invoke methods request world = .ok outcome) : Is64Bit outcome.response.data := by
  unfold router.invoke router.catchException at h
  cases houtput : (methods request.method request.data world).1 with
  | ok output =>
      rw [houtput] at h
      cases h
      exact hmethods _ _ _ _ houtput
  | error fault =>
      rw [houtput] at h
      dsimp only [error_bind] at h
      split_ifs at h
      cases h
      exact is64Bit_errorOutput _ _

/-- What a call that returns has done. -/
inductive Executed (app : App) (methods : Str → NativeMethod σ) (request : NativeMessage)
    (world : σ) : router.Outcome σ → Prop
  | refused (data : Json) : Answerable app request → ¬ GateOpen app request →
      ((∃ payload, data = errors.errorOutput payload) ∨
        data = router.discardNotice request.method) → Is64Bit data →
      Executed app methods request world (router.answer request world data)
  | carriedOut (outcome : router.Outcome σ) : GateOpen app request →
      router.invoke methods request world = .ok outcome →
      Executed app methods request world outcome

/-- A call that is answered with an error. -/
lemma executed_error {code : errors.StatusCode} {param : Str} (hanswerable : Answerable app request)
    (hclosed : ¬ GateOpen app request) :
    Executed app methods request world
      (router.answer request world (errors.errorOutput (errors.makeErrorPayload code param))) :=
  .refused _ hanswerable hclosed (.inl ⟨_, rfl⟩) (is64Bit_errorOutput _ _)

/-- A call that reaches a method which does not come back. -/
structure Stuck (app : App) (methods : Str → NativeMethod σ) (request : NativeMessage) (world : σ)
    (fault : Fault) : Prop where
  open_ : GateOpen app request
  endless : fault.isException = false
  method : (methods request.method request.data world).1 = .error fault

/-- A call whose method may run is answered, or the method does not come back. -/
lemma executed_of_permitted (htoken : request.accessToken = app.token)
    (hapi : permission.hasAPIAccess app.options = .ok true)
    (hperm : permission.hasMethodAccess app.permission request.method = .ok true) :
    (∃ outcome, executeNativeMethod app methods request world = .ok outcome ∧
      Executed app methods request world outcome) ∨
    ∃ fault, executeNativeMethod app methods request world = .error fault ∧
      Stuck app methods request world fault := by
  have hanswerable : Answerable app request := fun _ => ⟨true, hapi⟩
  obtain ⟨mode, hmode⟩ := router.getMode_ok_of_hasAPIAccess hapi
  by_cases hreg : request.method ∈ router.methodMap
  swap
  · exact .inl ⟨_, router.execute_of_unregistered htoken hapi hperm hreg,
      executed_error hanswerable fun hopen => hreg hopen.registered⟩
  have hrun : executeNativeMethod app methods request world = _ :=
    router.execute_of_registered htoken hapi hperm hreg hmode
  simp only [router.windowMethod_test_iff hreg] at hrun
  split_ifs at hrun with hdiscard
  · refine .inl ⟨_, hrun, .refused _ hanswerable (fun hopen => ?_) (.inr rfl)
      ⟨trivial, trivial, trivial⟩⟩
    rcases hopen.mode with h | h
    · exact hdiscard.1 (Except.ok.inj (hmode.symm.trans h))
    · exact h hdiscard.2
  · have hopen : GateOpen app request := by
      refine ⟨htoken, hapi, hperm, hreg, ?_⟩
      rw [hmode, Except.ok.injEq]
      tauto
    rcases router.invoke_cases methods request world with
      ⟨outcome, hinvoke⟩ | ⟨fault, hinvoke, hexception, hmethod⟩
    · exact .inl ⟨outcome, hrun.trans hinvoke, .carriedOut outcome hopen hinvoke⟩
    · exact .inr ⟨fault, hrun.trans hinvoke, hopen, hexception, hmethod⟩

/-- A request that the gate lets pass without a name for its method. -/
structure Nameless (app : App) (request : NativeMessage) : Prop where
  token : request.accessToken = app.token
  enabled : permission.hasAPIAccess app.options = .ok true
  nameless : request.method = []

/-- A call is answered, or the switch of the API is not readable, or the method has no name or
does not come back. -/
lemma execute_cases (app : App) (methods : Str → NativeMethod σ) (request : NativeMessage)
    (world : σ) :
    (∃ outcome, executeNativeMethod app methods request world = .ok outcome ∧
      Executed app methods request world outcome) ∨
    (∃ fault, executeNativeMethod app methods request world = .error fault ∧
      permission.hasAPIAccess app.options = .error fault ∧ ¬ Answerable app request) ∨
    (executeNativeMethod app methods request world = .error .undefinedBehaviour ∧
      Nameless app request) ∨
    ∃ fault, executeNativeMethod app methods request world = .error fault ∧
      Stuck app methods request world fault := by
  by_cases htoken : request.accessToken = app.token
  swap
  · exact .inl ⟨_, router.execute_of_token_ne htoken,
      executed_error (fun h => absurd h htoken) fun hopen => htoken hopen.token⟩
  cases hapi : permission.hasAPIAccess app.options with
  | error fault =>
      refine .inr (.inl ⟨fault, router.execute_of_error htoken hapi, rfl, fun hanswerable => ?_⟩)
      obtain ⟨b, hb⟩ := hanswerable htoken
      cases hb.symm.trans hapi
  | ok enabled =>
      have hanswerable : Answerable app request := fun _ => ⟨enabled, hapi⟩
      cases enabled with
      | false =>
          refine .inl ⟨_, router.execute_of_disabled htoken hapi, executed_error hanswerable ?_⟩
          exact fun hopen => by simpa [hapi] using hopen.enabled
      | true =>
          by_cases hmethod : request.method = []
          · exact .inr (.inr (.inl
              ⟨router.execute_of_nil htoken hapi hmethod, htoken, hapi, hmethod⟩))
          obtain ⟨permitted, hperm⟩ := router.hasMethodAccess_ok_of_ne_nil app.permission hmethod
          cases permitted with
          | false =>
              refine .inl ⟨_, router.execute_of_denied htoken hapi hperm,
                executed_error hanswerable ?_⟩
              exact fun hopen => by simpa [hperm] using hopen.permitted
          | true =>
              exact (executed_of_permitted htoken hapi hperm).imp_right fun hstuck =>
                .inr (.inr hstuck)

/-- A call that returns has been answered. -/
lemma executed_of_eq_ok {outcome : router.Outcome σ}
    (h : executeNativeMethod app methods request world = .ok outcome) :
    Executed app methods request world outcome := by
  rcases execute_cases app methods request world with
    ⟨outcome', h', hexecuted⟩ | ⟨fault, h', -, -⟩ | ⟨h', -⟩ | ⟨fault, h', -⟩
  · cases h.symm.trans h'
    exact hexecuted
  · cases h.symm.trans h'
  · cases h.symm.trans h'
  · cases h.symm.trans h'

/-- A call that does not return. -/
lemma eq_error_cases {fault : Fault}
    (h : executeNativeMethod app methods request world = .error fault) :
    (permission.hasAPIAccess app.options = .error fault ∧ ¬ Answerable app request) ∨
      (fault = .undefinedBehaviour ∧ Nameless app request) ∨
      Stuck app methods request world fault := by
  rcases execute_cases app methods request world with
    ⟨outcome', h', -⟩ | ⟨fault', h', hapi, hnot⟩ | ⟨h', hnameless⟩ | ⟨fault', h', hstuck⟩
  · cases h.symm.trans h'
  · cases h.symm.trans h'
    exact .inl ⟨hapi, hnot⟩
  · cases h.symm.trans h'
    exact .inr (.inl ⟨rfl, hnameless⟩)
  · cases h.symm.trans h'
    exact .inr (.inr hstuck)

end Calls

/-! ### Replies -/

section Replies

variable {φ : Type} {float : φ → Json}

/-- A number is read as a number. -/
def ReadsNumbers (float : φ → Json) : Prop := ∀ x, ∃ n, float x = .num n

/-- A text that was read is in UTF-8. -/
lemma isUtf8_of_domOf (hfloat : ReadsNumbers float) {v : JsonText.Value (JsonText.Number φ)}
    {s : Str}
    (h : domOf float v = .str s) : IsUtf8 s := by
  cases v with
  | str text =>
      rw [domOf, Json.str.injEq] at h
      exact ⟨text, h.symm⟩
  | num n =>
      cases n with
      | whole n => cases h
      | float x =>
          obtain ⟨n, hn⟩ := hfloat x
          cases hn.symm.trans h
  | null => cases h
  | bool b => cases h
  | arr xs => cases h
  | obj members => cases h

/-- The members of an object that was read. -/
lemma mem_domMembers {members : List (Quoted.Text × JsonText.Value (JsonText.Number φ))}
    {built : List (Str × Json)} {m : Str × Json} (h : m ∈ parser.domMembers float built members) :
    m ∈ built ∨ ∃ v, m.2 = domOf float v := by
  induction members generalizing built with
  | nil => exact .inl h
  | cons member members ih =>
      rcases ih h with hbuilt | hvalue
      · rcases eq_or_mem_of_mem_insertMember hbuilt with rfl | hbuilt
        · exact .inr ⟨member.2, rfl⟩
        · exact .inl hbuilt
      · exact .inr hvalue

lemma exists_mem_of_lookup {key : Str} {members : List (Str × Json)} {s : Str}
    (h : Json.lookup key members = .str s) : ∃ m ∈ members, m.2 = .str s := by
  unfold Json.lookup at h
  cases hfind : members.find? fun m => m.1 = key with
  | none => simp [hfind] at h
  | some m =>
      rw [hfind] at h
      exact ⟨m, List.mem_of_find?_eq_some hfind, h⟩

/-- The id and the method of a request are texts in UTF-8. -/
lemma Asks.isUtf8 [Floats φ] (hfloat : ReadsNumbers float) {payload : List UInt8}
    {request : NativeMessage} (h : Asks φ float payload request) :
    IsUtf8 request.id ∧ IsUtf8 request.method := by
  obtain ⟨v, members, -, hv, hid, hmethod, -, -⟩ := h
  cases v with
  | obj read =>
      rw [domOf, Json.obj.injEq] at hv
      subst hv
      have htext : ∀ {key s : Str}, Json.lookup key (parser.domMembers float [] read) = .str s →
          IsUtf8 s := by
        intro key s hlookup
        obtain ⟨m, hm, hs⟩ := exists_mem_of_lookup hlookup
        rcases mem_domMembers hm with hm | ⟨v, hv⟩
        · cases hm
        · exact isUtf8_of_domOf hfloat (hv.symm.trans hs)
      exact ⟨htext hid, htext hmethod⟩
  | num n =>
      cases n with
      | whole n => cases hv
      | float x =>
          obtain ⟨n, hn⟩ := hfloat x
          cases hn.symm.trans hv
  | null => cases hv
  | bool b => cases hv
  | arr xs => cases hv
  | str s => cases hv

lemma rebuiltString_of_isUtf8 {s : Str} (h : IsUtf8 s) : rebuiltString s = s :=
  parser.rebuiltString_eq_iff.mpr h

/-- What is read of a reply. -/
lemma parse_responseMessage [Floats φ] {response : NativeMessage} (hid : IsUtf8 response.id)
    (hmethod : IsUtf8 response.method) (hdata : Is64Bit response.data) :
    parser.parse float (serializer.dump (responseMessage response)) =
      .ok (.obj [("data".toList, rebuilt response.data), ("id".toList, .str response.id),
        ("method".toList, .str response.method)]) := by
  have hmessage : responseMessage response =
      .obj [("data".toList, response.data), ("id".toList, .str response.id),
        ("method".toList, .str response.method)] := rfl
  have hrebuilt : rebuilt (responseMessage response) =
      .obj [("data".toList, rebuilt response.data), ("id".toList, rebuilt (.str response.id)),
        ("method".toList, rebuilt (.str response.method))] := by
    have hkeys : ∀ m ∈ [("data".toList, response.data), ("id".toList, .str response.id),
        ("method".toList, .str response.method)], IsUtf8 m.1 := by
      simp only [List.forall_mem_cons, List.not_mem_nil, IsEmpty.forall_iff, implies_true, and_true]
      exact ⟨⟨"data".toList, by decide⟩, ⟨"id".toList, by decide⟩, ⟨"method".toList, by decide⟩⟩
    rw [hmessage]
    show Json.obj (parser.rebuiltMembers [] _) = _
    rw [parser.rebuiltMembers_of_pairwise hkeys]
    · rfl
    · simp only [List.nil_append, List.pairwise_cons, List.forall_mem_cons, List.not_mem_nil,
        IsEmpty.forall_iff, implies_true, and_true, List.Pairwise.nil]
      decide
  have h64 : Is64Bit (responseMessage response) := ⟨hdata, trivial, trivial, trivial⟩
  rw [parser.parse_dump float h64, hrebuilt, rebuilt, rebuilt, rebuiltString_of_isUtf8 hid,
    rebuiltString_of_isUtf8 hmethod]

end Replies

/-! ### What a run keeps -/

section Kept

variable {φ σ : Type} [Floats φ] {float : φ → Json} {config : Config} {app : App}
  {methods : Str → NativeMethod σ} {start : σ} {s t : MessageWorld σ}

/-- What was received is what is remembered, and has been served. -/
structure MessagesKept (float : φ → Json) (app : App) (methods : Str → NativeMethod σ) (start : σ)
    (s : MessageWorld σ) : Prop where
  modes : ModesKept { world := s.server, received := opcodesOf s.received }
  served : Served float app methods start s

lemma messagesKept_new : MessagesKept float app methods start { world := start } :=
  ⟨⟨⟨by simp, by simp⟩, ⟨by simp, by simp⟩, by simp, by simp, by simp [opcodesOf]⟩,
    [], .nil, .nil⟩

lemma opcodesOf_append (received : List Message) (m : Message) :
    opcodesOf (received ++ [m]) =
      opcodesOf received ++ receivedOf (.message m.connection m.opcode) := by
  simp [opcodesOf, receivedOf]

/-- A connection that was answered has sent a message. -/
lemma Serves.exists_message {received : List Message} {answers : List Answer} {invoked : List Str}
    {world : σ} (h : Serves float app methods start received answers invoked world) :
    ∀ answer ∈ answers, ∃ m ∈ received, m.connection = answer.connection := by
  have hadd : ∀ {received : List Message} {answers : List Answer} (m : Message),
      (∀ answer ∈ answers, ∃ m ∈ received, m.connection = answer.connection) →
      ∀ {id method : Str} {data : Json},
        ∀ answer ∈ answers ++ [⟨m.connection, id, method, data⟩],
          ∃ m' ∈ received ++ [m], m'.connection = answer.connection := by
    intro received answers m ih id method data answer hanswer
    rcases List.mem_append.mp hanswer with hanswer | hanswer
    · obtain ⟨m', hm', hconnection⟩ := ih answer hanswer
      exact ⟨m', List.mem_append_left _ hm', hconnection⟩
    · obtain rfl := List.mem_singleton.mp hanswer
      exact ⟨m, by simp, rfl⟩
  induction h with
  | nil => simp
  | ignored m _ _ ih =>
      intro answer hanswer
      obtain ⟨m', hm', hconnection⟩ := ih answer hanswer
      exact ⟨m', List.mem_append_left _ hm', hconnection⟩
  | refused m request data _ _ _ _ _ ih => exact hadd m ih
  | carriedOut m request _ _ _ _ _ ih => exact hadd m ih

/-- The first opcode on a connection stays the first. -/
lemma frameType_append {received : List Message} {m : Message} {c : Connection}
    (h : ∃ m' ∈ received, m'.connection = c) :
    frameType (opcodesOf (received ++ [m])) c = frameType (opcodesOf received) c := by
  obtain ⟨m', hm', rfl⟩ := h
  have hfirst : firstReceived (opcodesOf (received ++ [m])) m'.connection.handler =
      firstReceived (opcodesOf received) m'.connection.handler := by
    have hsome : ((opcodesOf received).find? fun x => x.1 = m'.connection.handler).isSome := by
      rw [List.find?_isSome]
      exact ⟨_, List.mem_map_of_mem hm', by simp⟩
    obtain ⟨x, hx⟩ := Option.isSome_iff_exists.mp hsome
    rw [firstReceived, firstReceived, opcodesOf_append, List.find?_append, hx]
    rfl
  simp only [frameType, hfirst]

/-- A reply carries its answer after another message too. -/
lemma carries_append {received : List Message} {answers : List Answer} {replies : List MessageReply}
    {invoked : List Str} {world : σ} (m : Message)
    (hserves : Serves float app methods start received answers invoked world)
    (h : List.Forall₂ (Carries float received) answers replies) :
    List.Forall₂ (Carries float (received ++ [m])) answers replies := by
  have hmessage := hserves.exists_message
  clear hserves
  induction h with
  | nil => exact .nil
  | cons hcarries _ ih =>
      obtain ⟨hfirst, hmessage⟩ := List.forall_mem_cons.mp hmessage
      refine .cons ⟨hcarries.connection, ?_, hcarries.payload⟩ (ih hmessage)
      rw [frameType_append hfirst]
      exact hcarries.opcode

/-- What `handleMessage` comes to. -/
lemma handleMessage_eq_ok {r : Registry} {world : σ} {m : Message} {handled : Handled σ}
    (h : handleMessage float app methods r world m = .ok handled) :
    handled.registry = noteMode r m.connection.handler m.connection.url m.opcode ∧
      ((∃ request outcome, Asks φ float m.payload request ∧
          Executed app methods request world outcome ∧ handled.world = outcome.world ∧
          handled.invoked = outcome.invoked ∧
          handled.reply = some ⟨m.connection.handler,
            serializer.dump (responseMessage outcome.response),
            replyOpcode handled.registry m.connection.handler m.connection.url⟩) ∨
        (∀ request, Asks φ float m.payload request → ¬ Answerable app request) ∧
          handled.world = world ∧ handled.invoked = [] ∧ handled.reply = none) := by
  unfold handleMessage at h
  dsimp only at h
  split at h
  · rename_i outcome hrun
    obtain ⟨request, hread, hexecute⟩ := bind_eq_ok.mp hrun
    cases h
    exact ⟨rfl, .inl ⟨request, outcome, readRequest_iff.mp hread, executed_of_eq_ok hexecute, rfl,
      rfl, rfl⟩⟩
  · rename_i fault hrun
    split_ifs at h with hexception
    cases h
    refine ⟨rfl, .inr ⟨fun request hasks hanswerable => ?_, rfl, rfl, rfl⟩⟩
    rw [readRequest_iff.mpr hasks, ok_bind] at hrun
    rcases eq_error_cases hrun with ⟨-, hnot⟩ | ⟨rfl, -⟩ | hstuck
    · exact hnot hanswerable
    · cases hexception
    · cases hstuck.endless.symm.trans hexception

/-- A call that was answered is served. -/
lemma Serves.executed {received : List Message} {answers : List Answer} {invoked : List Str}
    {world : σ} {m : Message} {request : NativeMessage} {outcome : router.Outcome σ}
    (h : Serves float app methods start received answers invoked world)
    (hasks : Asks φ float m.payload request)
    (hexecuted : Executed app methods request world outcome) :
    Serves float app methods start (received ++ [m])
      (answers ++ [⟨m.connection, request.id, request.method, outcome.response.data⟩])
      (invoked ++ outcome.invoked) outcome.world := by
  cases hexecuted with
  | refused data hanswerable hclosed hdata _ =>
      show Serves float app methods start _ _ (invoked ++ []) world
      rw [List.append_nil]
      exact .refused m request data h hasks hanswerable hclosed hdata
  | carriedOut _ hopen hinvoke =>
      have hinvoked : outcome.invoked = [request.method] := by
        obtain ⟨⟨data, rfl⟩, -⟩ := router.invoke_eq_ok hinvoke
        rfl
      rw [hinvoked]
      exact .carriedOut m request outcome h hasks hopen hinvoke

/-- The reply to a request carries its answer. -/
lemma carries_reply (hfloat : ReadsNumbers float) (hmethods : Puts64Bit methods) {w : World}
    {received : List Message} {m : Message} {request : NativeMessage} {world : σ}
    {outcome : router.Outcome σ}
    (hmodes : ModesKept { world := w, received := opcodesOf received })
    (hc : m.connection ∈ w.connections) (hasks : Asks φ float m.payload request)
    (hexecuted : Executed app methods request world outcome) :
    Carries float received ⟨m.connection, request.id, request.method, outcome.response.data⟩
      ⟨m.connection.handler, serializer.dump (responseMessage outcome.response),
        replyOpcode w.registry m.connection.handler m.connection.url⟩ := by
  obtain ⟨hid, hmethod⟩ := hasks.isUtf8 hfloat
  refine ⟨rfl, ?_, ?_⟩
  · obtain ⟨c, hc', hhandler, hopcode⟩ := hmodes.typed_reply hc []
    rw [hmodes.distinct.eq_of_handler_eq hc' hc hhandler] at hopcode
    exact hopcode
  · cases hexecuted with
    | refused data _ _ _ hdata => exact parse_responseMessage hid hmethod hdata
    | carriedOut _ _ hinvoke =>
        have hresponse : outcome.response.id = request.id ∧
            outcome.response.method = request.method := by
          obtain ⟨⟨data, rfl⟩, -⟩ := router.invoke_eq_ok hinvoke
          exact ⟨rfl, rfl⟩
        rw [← hresponse.1] at hid
        rw [← hresponse.2] at hmethod
        show parser.parse float _ = .ok (.obj [_, ("id".toList, .str request.id),
          ("method".toList, .str request.method)])
        rw [← hresponse.1, ← hresponse.2]
        exact parse_responseMessage hid hmethod (is64Bit_invoke hmethods hinvoke)

/-- A message is served. -/
lemma MessagesKept.message (hfloat : ReadsNumbers float) (hmethods : Puts64Bit methods)
    (hs : MessagesKept float app methods start s) {m : Message} {handled : Handled σ}
    (hc : m.connection ∈ s.server.connections)
    (h : handleMessage float app methods s.server.registry s.world m = .ok handled) :
    MessagesKept float app methods start {
      server := { s.server with registry := handled.registry }
      world := handled.world
      received := s.received ++ [m]
      invoked := s.invoked ++ handled.invoked
      replies := s.replies ++ handled.reply.toList } := by
  obtain ⟨hregistry, hhandled⟩ := handleMessage_eq_ok h
  have hmodes : ModesKept {
      world := { s.server with registry := handled.registry }
      received := opcodesOf (s.received ++ [m]) } := by
    rw [opcodesOf_append, hregistry]
    exact hs.modes.message hc m.opcode
  obtain ⟨answers, hserves, hcarries⟩ := hs.served
  have hcarries' := carries_append m hserves hcarries
  refine ⟨hmodes, ?_⟩
  rcases hhandled with ⟨request, outcome, hasks, hexecuted, hworld, hinvoked, hreply⟩ |
    ⟨hnothing, hworld, hinvoked, hreply⟩
  · refine ⟨answers ++ [⟨m.connection, request.id, request.method, outcome.response.data⟩], ?_, ?_⟩
    · rw [hworld, hinvoked]
      exact hserves.executed hasks hexecuted
    · rw [hreply]
      exact List.rel_append hcarries'
        (.cons (carries_reply hfloat hmethods hmodes hc hasks hexecuted) .nil)
  · refine ⟨answers, ?_, ?_⟩
    · rw [hworld, hinvoked, List.append_nil]
      exact .ignored m hserves hnothing
    · simpa [hreply] using hcarries'

/-- Every step keeps what has been served. -/
lemma MessagesKept.step (hfloat : ReadsNumbers float) (hmethods : Puts64Bit methods)
    (hs : MessagesKept float app methods start s) {e : MessageEvent}
    (h : MessageStep float config app methods s e t) : MessagesKept float app methods start t := by
  cases h with
  | connect url host w hst =>
      refine ⟨?_, hs.served⟩
      have hkept := hs.modes.step (.server _ _ _ hst)
      rwa [show opcodesOf s.received ++ receivedOf (.connect url host) = opcodesOf s.received from
        List.append_nil _] at hkept
  | disconnect c w hst =>
      refine ⟨?_, hs.served⟩
      have hkept := hs.modes.step (.server _ _ _ hst)
      rwa [show opcodesOf s.received ++ receivedOf (.disconnect c) = opcodesOf s.received from
        List.append_nil _] at hkept
  | message m handled hc hhandled => exact hs.message hfloat hmethods hc hhandled

end Kept

/-! ### The messages that are handled -/

section Throwing

variable {φ : Type} [Floats φ] {float : φ → Json}

/-- Whatever the parser is given, it returns or throws. -/
lemma throws_parse (bytes : List UInt8) : Throws (parser.parse float bytes) := by
  intro fault hfault
  rcases parser.refuses_parse bytes fault hfault with rfl | rfl <;> rfl

lemma throws_index (j : Json) (key : Str) : Throws (j.index key) := by
  cases j <;> first | exact throws_ok _ | exact throws_error rfl

lemma throws_getString (j : Json) : Throws j.getString := by
  cases j <;> first | exact throws_ok _ | exact throws_error rfl

lemma throws_readRequest (payload : List UInt8) : Throws (readRequest float payload) := by
  refine (throws_parse payload).bind fun j => ?_
  refine (throws_index j _).bind fun x => (throws_getString x).bind fun id => ?_
  refine (throws_index j _).bind fun x => (throws_getString x).bind fun method => ?_
  refine (throws_index j _).bind fun x => (throws_getString x).bind fun accessToken => ?_
  exact (throws_index j _).bind fun data => throws_ok _

lemma throws_hasAPIAccess (options : Json) : Throws (permission.hasAPIAccess options) := by
  have hmode : Throws (settings.getMode options) := by
    refine (throws_index options _).bind fun jMode => ?_
    split_ifs
    · exact throws_ok _
    · exact (throws_getString jMode).bind fun _ => throws_ok _
  have hoption : Throws (settings.getOptionForCurrentMode options "enableNativeAPI") := by
    refine hmode.bind fun mode => (throws_index options _).bind fun modes => ?_
    refine (throws_index modes _).bind fun modeOptions => ?_
    refine (throws_index modeOptions _).bind fun value => ?_
    split_ifs
    · exact throws_index options _
    · exact throws_ok _
  refine hoption.bind fun jEnableNativeAPI => ?_
  split_ifs
  · cases jEnableNativeAPI <;> first | exact throws_ok _ | exact throws_error rfl
  · exact throws_ok _

end Throwing

/-- A request that `handleMessage` comes to an end with: the gate does not let it pass without a
name for its method, and a method that it lets through comes back. -/
structure Handles {σ : Type} (app : App) (methods : Str → NativeMethod σ) (world : σ)
    (request : NativeMessage) : Prop where
  named : ¬ Nameless app request
  returns : GateOpen app request → Throws (methods request.method request.data world).1

lemma Stuck.not_handles {σ : Type} {app : App} {methods : Str → NativeMethod σ}
    {request : NativeMessage} {world : σ} {fault : Fault}
    (h : Stuck app methods request world fault) : ¬ Handles app methods world request :=
  fun hhandles => by cases h.endless.symm.trans (hhandles.returns h.open_ fault h.method)

/-- A message is handled unless it asks for what does not come to an end. -/
lemma handleMessage_ok_iff {φ σ : Type} [Floats φ] (float : φ → Json) (app : App)
    (methods : Str → NativeMethod σ) (r : Registry) (world : σ) (m : Message) :
    (∃ handled, handleMessage float app methods r world m = .ok handled) ↔
      ∀ request, Asks φ float m.payload request → Handles app methods world request := by
  constructor
  · rintro ⟨handled, h⟩ request hasks
    refine ⟨fun hnameless => ?_, fun hopen => ?_⟩
    · unfold handleMessage at h
      rw [readRequest_iff.mpr hasks, ok_bind,
        router.execute_of_nil hnameless.token hnameless.enabled hnameless.nameless] at h
      cases h
    · obtain ⟨-, ⟨request', outcome, hasks', hexecuted, -⟩ | ⟨hnone, -⟩⟩ := handleMessage_eq_ok h
      · obtain rfl : request' = request := Except.ok.inj
          ((readRequest_iff.mpr hasks').symm.trans (readRequest_iff.mpr hasks))
        cases hexecuted with
        | refused _ _ hclosed => exact absurd hopen hclosed
        | carriedOut _ _ hinvoke => exact (router.invoke_eq_ok hinvoke).2
      · exact absurd (fun _ => ⟨true, hopen.enabled⟩) (hnone request hasks)
  · intro hnone
    unfold handleMessage
    dsimp only
    split
    · exact ⟨_, rfl⟩
    · rename_i fault hrun
      have hexception : fault.isException = true := by
        cases hread : readRequest float m.payload with
        | error fault' =>
            rw [hread] at hrun
            cases hrun
            exact throws_readRequest m.payload _ hread
        | ok request =>
            have hhandles := hnone request (readRequest_iff.mp hread)
            rw [hread, ok_bind] at hrun
            rcases eq_error_cases hrun with ⟨hapi, -⟩ | ⟨-, hnameless⟩ | hstuck
            · exact throws_hasAPIAccess app.options _ hapi
            · exact absurd hnameless hhandles.named
            · exact absurd hhandles hstuck.not_handles
      rw [if_pos hexception]
      exact ⟨_, rfl⟩

/-! ### The result -/

/-- **Every message is served once**, in every run: the requests are answered in the order of
their arrival, each with one frame on the connection that it came from, which has the type of
the connection and tells the id, the method and what the call put out; the methods are
invoked in this order, each once, where the gate is open; any other message changes nothing.
No message stops the server but a request that it lets pass without a name for its method, or
whose method does not come back.  The numbers of a value are integers, and what a client reads
of the data put out is `rebuilt`. -/
theorem messages_served {φ σ : Type} [Floats φ] {float : φ → Json} {config : Config} {app : App}
    {methods : Str → NativeMethod σ} {start : σ} {trace : List (MessageEvent × MessageWorld σ)}
    (hfloat : ReadsNumbers float) (hmethods : Puts64Bit methods)
    (h : Run (MessageStep float config app methods) { world := start } trace) :
    ∀ x ∈ trace, Served float app methods start x.2 ∧
      ∀ m : Message, m.connection ∈ x.2.server.connections →
        ((∃ t, MessageStep float config app methods x.2 (.message m) t) ↔
          ∀ request, Asks φ float m.payload request →
            Handles app methods x.2.world request) := by
  intro x hx
  refine ⟨(h.invariant (fun _ _ _ hs hst => hs.step hfloat hmethods hst) messagesKept_new x
    hx).served,
    fun m hc => ?_⟩
  rw [← handleMessage_ok_iff float app methods x.2.server.registry x.2.world]
  constructor
  · rintro ⟨t, hst⟩
    cases hst with
    | message _ handled _ hhandled => exact ⟨handled, hhandled⟩
  · rintro ⟨handled, hhandled⟩
    exact ⟨_, .message x.2 m handled hc hhandled⟩

/-- A call of `app.getConfig`. -/
def configRequest : NativeMessage :=
  { id := "1", method := "app.getConfig", accessToken := "token" }

/-- The members of the call. -/
def configMembers : List (Str × Json) :=
  [("accessToken".toList, .str "token"), ("data".toList, .null), ("id".toList, .str "1"),
    ("method".toList, .str "app.getConfig")]

/-- The call as a message on an extension connection. -/
def configMessage : Message := ⟨⟨0, extensionUrl⟩, .binary, serializer.dump (.obj configMembers)⟩

lemma readRequest_configMessage :
    readRequest Empty.elim configMessage.payload = .ok configRequest := by
  have htext : ∀ s : String, IsUtf8 s.toList ↔ rebuiltString s.toList = s.toList := fun s =>
    parser.rebuiltString_eq_iff.symm
  have hformed : parser.WellFormed (.obj configMembers) := by
    refine ⟨?_, ?_⟩
    · simp only [configMembers, List.pairwise_cons, List.forall_mem_cons, List.not_mem_nil,
        IsEmpty.forall_iff, implies_true, and_true, List.Pairwise.nil]
      decide
    · refine ⟨(htext _).mpr ?_, (htext _).mpr ?_, (htext _).mpr ?_, trivial, (htext _).mpr ?_,
        (htext _).mpr ?_, (htext _).mpr ?_, (htext _).mpr ?_, trivial⟩
      all_goals decide
  have hparse : parser.parse Empty.elim configMessage.payload = .ok (.obj configMembers) := by
    show parser.parse Empty.elim (serializer.dump (.obj configMembers)) = _
    rw [parser.parse_dump Empty.elim
      (show Is64Bit (.obj configMembers) from ⟨trivial, trivial, trivial, trivial, trivial⟩),
      (parser.rebuilt_eq_iff _).mpr hformed]
  exact (readRequest_of_parse hparse).mpr ⟨rfl, rfl, rfl, rfl⟩

/-- The extension has connected, called and got its reply. -/
def afterConfig : MessageWorld Unit where
  server :=
    { afterConnects 1 with registry := noteMode (afterConnects 1).registry 0 extensionUrl .binary }
  world := ()
  received := [configMessage]
  invoked := ["app.getConfig"]
  replies := [⟨0, serializer.dump (responseMessage
    { id := "1", method := "app.getConfig" }), .binary⟩]

/-- What becomes of the call. -/
lemma handleMessage_configMessage : handleMessage Empty.elim router.openApp router.silentMethods
    (afterConnects 1).registry () configMessage = .ok
      { registry := afterConfig.server.registry, world := (), invoked := ["app.getConfig"]
        reply := some ⟨0, serializer.dump (responseMessage
          { id := "1", method := "app.getConfig" }), .binary⟩ } := by
  have hexecute : executeNativeMethod router.openApp router.silentMethods configRequest () =
      router.invoke router.silentMethods configRequest () := by
    rfl
  rw [handleMessage, readRequest_configMessage, ok_bind, hexecute]
  rfl

theorem config_served : Served Empty.elim router.openApp router.silentMethods () afterConfig := by
  have hconnect : Step extensionServer {} (.connect extensionUrl "localhost") (afterConnects 1) :=
    .connect {} _ _ (by decide)
  have hrun : Run (MessageStep Empty.elim extensionServer router.openApp router.silentMethods)
      { world := () } [(.connect extensionUrl "localhost",
          { server := afterConnects 1, world := () }),
        (.message configMessage, afterConfig)] :=
    .cons (.connect _ _ _ _ hconnect) (.cons (.message { server := afterConnects 1, world := () }
      configMessage _ (by decide) handleMessage_configMessage) (.nil _))
  exact (messages_served (fun x => x.elim) (by rintro _ _ _ _ ⟨⟩; trivial) hrun
    (.message configMessage, afterConfig) (by simp)).1

end Neutralino.neuserver
