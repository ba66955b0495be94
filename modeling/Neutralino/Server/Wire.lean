import Mathlib.Logic.Function.Basic
import Neutralino.Server.Messages
import Neutralino.Server.Session

/-!
The server and its connections as they run: native calls from the bytes that come in to the
frames that go out.

* `WireWorld`: the server with what it has served, and its connections by their handles.
* `sendReply`: what `handleMessage` does with a reply.
* `WireStep`: the steps of the server and of all connections, in any order.
* `WireServed`: what holds at any time.
* `wire_served`: **along every run**, what the connections hand over is what is served, each of
  them in its order, and every reply is pushed on the connection that asked, in the order of the
  calls.
-/

namespace Neutralino.neuserver

open JsonText (Floats)
open router (NativeMethod App)
open websocketpp.connection
open websocketpp.processor (Outgoing)
open Runs

/-! ### The server and its connections -/

/-- The server, and its connections by their handles. -/
structure WireWorld (σ : Type) where
  messages : MessageWorld σ
  sessions : ℕ → Session := fun _ => {}

/-- A message as a connection hands it over. -/
def Message.frame (m : Message) : websocketpp.processor.Message where
  opcode := Session.opcodeOf m.opcode
  payload := m.payload

/-- A reply as it is pushed. -/
def MessageReply.frame (reply : MessageReply) : Outgoing :=
  .new (Session.opcodeOf reply.opcode) reply.payload

/-- What happens on a connection calls the message handler. -/
def CallsHandler (s : Session) : SessionEvent → Prop
  | .dispatch m => s.state = .open ∧ websocketpp.frame.opcode.isControl m.opcode = false
  | _ => False

/-- `send` of a reply; what it throws is only logged. -/
def sendReply (s : Session) : Option MessageReply → Session
  | none => s
  | some reply => if s.state = .open then s.endSend reply.payload reply.opcode else s

/-- The server behind a message. -/
def MessageWorld.after {σ : Type} (s : MessageWorld σ) (m : Message) (handled : Handled σ) :
    MessageWorld σ where
  server := { s.server with registry := handled.registry }
  world := handled.world
  received := s.received ++ [m]
  invoked := s.invoked ++ handled.invoked
  replies := s.replies ++ handled.reply.toList

/-- The messages that came on a connection. -/
def MessageWorld.receivedOn {σ : Type} (s : MessageWorld σ) (handler : ℕ) :
    List websocketpp.processor.Message :=
  (s.received.filter (·.connection.handler = handler)).map Message.frame

/-- The replies that went to a connection. -/
def MessageWorld.repliesOn {σ : Type} (s : MessageWorld σ) (handler : ℕ) : List Outgoing :=
  (s.replies.filter (·.handler = handler)).map MessageReply.frame

/-- What happens to the server and its connections. -/
inductive WireEvent where
  | connect (url host : Str)
  | disconnect (c : Connection)
  | session (handler : ℕ) (e : SessionEvent)
  | message (m : Message)

/-- The steps: a connection is made, one that has been closed is given up, something happens on
one of them that the message handler has no part in, or a message is handed over, handled and
answered. -/
inductive WireStep {φ σ : Type} [Floats φ] (float : φ → Json) (config : Config) (app : App)
    (methods : Str → NativeMethod σ) : WireWorld σ → WireEvent → WireWorld σ → Prop
  | connect (w : WireWorld σ) (url host : Str) (t : MessageWorld σ) :
      MessageStep float config app methods w.messages (.connect url host) t →
      WireStep float config app methods w (.connect url host) {
        messages := t
        sessions := Function.update w.sessions w.messages.server.made {} }
  | disconnect (w : WireWorld σ) (c : Connection) (t : MessageWorld σ) :
      (w.sessions c.handler).state = .closed →
      MessageStep float config app methods w.messages (.disconnect c) t →
      WireStep float config app methods w (.disconnect c) { w with messages := t }
  | session (w : WireWorld σ) (handler : ℕ) (e : SessionEvent) (s : Session) :
      handler < w.messages.server.made → ¬ CallsHandler (w.sessions handler) e →
      SessionStep (w.sessions handler) e s →
      WireStep float config app methods w (.session handler e) {
        w with sessions := Function.update w.sessions handler s }
  | message (w : WireWorld σ) (m : Message) (s : Session) (handled : Handled σ) :
      m.connection ∈ w.messages.server.connections →
      CallsHandler (w.sessions m.connection.handler) (.dispatch m.frame) →
      SessionStep (w.sessions m.connection.handler) (.dispatch m.frame) s →
      handleMessage float app methods w.messages.server.registry w.messages.world m =
        .ok handled →
      WireStep float config app methods w (.message m) {
        messages := w.messages.after m handled
        sessions := Function.update w.sessions m.connection.handler
          (sendReply s handled.reply) }

/-- What holds at any time: what was received has been served, the connections are orderly, what
was received are the messages that they handed over, and the replies are among the frames that
were pushed, in their order. -/
structure WireServed {φ σ : Type} [Floats φ] (float : φ → Json) (app : App)
    (methods : Str → NativeMethod σ) (start : σ) (w : WireWorld σ) : Prop where
  served : Served float app methods start w.messages
  orderly : ∀ handler, Orderly (w.sessions handler)
  received : ∀ handler, (w.sessions handler).handled = w.messages.receivedOn handler
  replied : ∀ handler,
    (w.messages.repliesOn handler).Sublist (w.sessions handler).writer.pushed

/-! ### What happens on a connection -/

section Sessions

variable {s t : Session} {m : websocketpp.processor.Message}

/-- The message handler is not called, what was pushed stays, and what was closed. -/
structure Quiet (s t : Session) : Prop where
  handled : t.handled = s.handled
  pushed : s.writer.pushed <+: t.writer.pushed
  closed : s.state = .closed → t.state = .closed

lemma Quiet.refl (s : Session) : Quiet s s := ⟨rfl, List.prefix_refl _, id⟩

lemma quiet_of_closes (h : Closes s t) (hclosed : s.state ≠ .closed) : Quiet s t where
  handled := h.unchanged.2.2.2.2.2
  closed := fun hstate => absurd hstate hclosed
  pushed := by
    obtain hwriter | ⟨code, reason, hwriter⟩ := h.writer
    · rw [hwriter]
    · rw [hwriter]
      exact List.prefix_append _ _

lemma quiet_endSend (s : Session) (payload : List UInt8) (op : Opcode) :
    Quiet s (s.endSend payload op) := by
  rw [Session.endSend]
  split
  · exact ⟨rfl, List.prefix_append _ _, id⟩
  · exact .refl s

/-- A message that is not handed over. -/
lemma quiet_dispatch (h : Sound s) {inbox : List websocketpp.processor.Message}
    {failure : Option websocketpp.processor.Error}
    (hreader : s.reader = .handling (m :: inbox) failure)
    (hcalls : ¬ CallsHandler s (.dispatch m)) : Quiet s (s.dispatch m) := by
  cases dispatch_dispatched (s := s) (h.length_le hreader) with
  | handled hopen hcontrol _ => exact absurd ⟨hopen, hcontrol⟩ hcalls
  | ponged _ _ ht =>
      rw [ht]
      exact ⟨rfl, List.prefix_append _ _, id⟩
  | ignored ht _ =>
      rw [ht]
      exact ⟨rfl, List.prefix_refl _, id⟩
  | closes hclosed _ hcloses =>
      have hquiet := quiet_of_closes hcloses hclosed
      exact ⟨hquiet.handled, hquiet.pushed, hquiet.closed⟩

/-- **What a step of a connection keeps** without the message handler. -/
lemma quiet_step {e : SessionEvent} (h : Sound s) (hstep : SessionStep s e t)
    (hcalls : ¬ CallsHandler s e) : Quiet s t := by
  cases hstep with
  | read chunk _ => exact ⟨rfl, List.prefix_refl _, id⟩
  | dispatch m inbox failure hreader =>
      have hquiet := quiet_dispatch h hreader hcalls
      exact ⟨hquiet.handled, hquiet.pushed, hquiet.closed⟩
  | endRead failure _ =>
      cases failure with
      | none => exact ⟨rfl, List.prefix_refl _, id⟩
      | some ec =>
          obtain ⟨-, ⟨hend, -, heq⟩ | ⟨hopen, hcloses⟩⟩ := endRead_some (s := s) ec
          · refine ⟨?_, ?_, fun _ => hend⟩
            · rw [heq]
              rfl
            · rw [heq]
              exact List.prefix_refl _
          · have hquiet := quiet_of_closes hcloses (hopen.trans_ne nofun)
            exact ⟨hquiet.handled, hquiet.pushed, hquiet.closed⟩
  | readFailed _ => exact ⟨rfl, List.prefix_refl _, fun _ => rfl⟩
  | beginSend payload op _ => exact ⟨rfl, List.prefix_refl _, id⟩
  | endSend payload op before after _ =>
      have hquiet := quiet_endSend s payload op
      exact ⟨hquiet.handled, hquiet.pushed, hquiet.closed⟩
  | writeFrame =>
      refine ⟨rfl, ?_, id⟩
      show s.writer.pushed <+: s.writer.writeFrame.pushed
      rw [Writer.pushed_writeFrame]
  | written failed _ =>
      have hpushed : s.writer.pushed <+: (s.writer.handleWriteFrame failed).1.pushed := by
        rw [Writer.pushed_handleWriteFrame]
      dsimp only
      split_ifs
      · exact ⟨rfl, hpushed, fun _ => rfl⟩
      · exact ⟨rfl, hpushed, id⟩
  | closeTimeout _ => exact ⟨rfl, List.prefix_refl _, fun _ => rfl⟩

/-- A message that is handed over. -/
lemma eq_of_callsHandler (hstep : SessionStep s (.dispatch m) t)
    (hcalls : CallsHandler s (.dispatch m)) :
    t.state = .open ∧ t.handled = s.handled ++ [m] ∧ t.writer = s.writer := by
  obtain ⟨hopen, hcontrol⟩ := hcalls
  cases hstep with
  | dispatch _ inbox failure _ =>
      have hdispatch : s.dispatch m =
          { s with received := s.received ++ [m], handled := s.handled ++ [m] } := by
        rw [Session.dispatch, hcontrol]
        exact if_neg (not_not.mpr hopen)
      rw [hdispatch]
      exact ⟨hopen, rfl, rfl⟩

/-- A reply that is a text is pushed. -/
lemma endSend_of_isText {payload : List UInt8} (h : Utf8.IsText payload) (op : Opcode) :
    s.endSend payload op = s.push (.new (Session.opcodeOf op) payload) := by
  have hvalid : websocketpp.utf8_validator.validate payload = true :=
    websocketpp.utf8_validator.validate_iff.mpr h
  have hprepare : websocketpp.processor.prepareDataFrame (Session.opcodeOf op) payload =
      .ok (.new (Session.opcodeOf op) payload) := by
    rw [websocketpp.processor.prepareDataFrame, hvalid]
    cases op <;> rfl
  rw [Session.endSend, hprepare]

end Sessions

/-! ### What a run keeps -/

section Kept

variable {φ σ : Type} [Floats φ] {float : φ → Json} {config : Config} {app : App}
  {methods : Str → NativeMethod σ} {start : σ} {w w' : WireWorld σ}

/-- What the steps keep. -/
structure WireKept (float : φ → Json) (app : App) (methods : Str → NativeMethod σ) (start : σ)
    (w : WireWorld σ) : Prop where
  kept : MessagesKept float app methods start w.messages
  sound : ∀ handler, Sound (w.sessions handler)
  received : ∀ handler, (w.sessions handler).handled = w.messages.receivedOn handler
  replied : ∀ handler,
    (w.messages.repliesOn handler).Sublist (w.sessions handler).writer.pushed
  made : ∀ handler, w.messages.server.made ≤ handler → w.sessions handler = {}
  alive : ∀ handler < w.messages.server.made, (w.sessions handler).state ≠ .closed →
    ∃ c ∈ w.messages.server.connections, c.handler = handler

lemma wireKept_new : WireKept float app methods start { messages := { world := start } } where
  kept := messagesKept_new
  sound := fun _ => sound_new
  received := fun _ => rfl
  replied := fun _ => List.nil_sublist _
  made := fun _ _ => rfl
  alive := fun handler hlt => absurd hlt (Nat.not_lt_zero handler)

/-- **What is kept is what holds at any time.** -/
lemma WireKept.served (hs : WireKept float app methods start w) :
    WireServed float app methods start w :=
  ⟨hs.kept.served, fun handler => (hs.sound handler).orderly, hs.received, hs.replied⟩

/-- A reply goes to the connection that asked, and is a text. -/
lemma reply_of_handleMessage {r : Registry} {world : σ} {m : Message} {handled : Handled σ}
    (h : handleMessage float app methods r world m = .ok handled) :
    ∀ reply ∈ handled.reply, reply.handler = m.connection.handler ∧ Utf8.IsText reply.payload := by
  obtain ⟨-, ⟨request, outcome, -, -, -, -, hreply⟩ | ⟨-, -, -, hreply⟩⟩ := handleMessage_eq_ok h
  · rw [hreply]
    rintro reply ⟨⟩
    exact ⟨rfl, _, serializer.dump_eq _⟩
  · rw [hreply]
    exact nofun

/-- The reply is pushed. -/
lemma sendReply_some {s : Session} {reply : MessageReply} (hopen : s.state = .open)
    (htext : Utf8.IsText reply.payload) : sendReply s (some reply) = s.push reply.frame := by
  rw [sendReply, if_pos hopen, endSend_of_isText htext]
  rfl

lemma sendReply_eq {s : Session} {reply : Option MessageReply} (hopen : s.state = .open)
    (htext : ∀ r ∈ reply, Utf8.IsText r.payload) :
    (sendReply s reply).handled = s.handled ∧
      (sendReply s reply).writer.pushed =
        s.writer.pushed ++ reply.toList.map MessageReply.frame := by
  cases reply with
  | none => exact ⟨rfl, (List.append_nil _).symm⟩
  | some r =>
      rw [sendReply_some hopen (htext r rfl)]
      exact ⟨rfl, rfl⟩

lemma sound_sendReply {s : Session} (h : Sound s) (reply : Option MessageReply) :
    Sound (sendReply s reply) := by
  cases reply with
  | none => exact h
  | some r =>
      rw [sendReply]
      split_ifs
      · exact h.endSend _ _
      · exact h

lemma receivedOn_after (s : MessageWorld σ) (m : Message) (handled : Handled σ) (handler : ℕ) :
    (s.after m handled).receivedOn handler =
      s.receivedOn handler ++ if m.connection.handler = handler then [m.frame] else [] := by
  rw [MessageWorld.receivedOn, MessageWorld.after, List.filter_append, List.map_append]
  split_ifs with hhandler <;> simp [MessageWorld.receivedOn, hhandler]

lemma repliesOn_after {s : MessageWorld σ} {m : Message} {handled : Handled σ} {handler : ℕ}
    (hreply : ∀ r ∈ handled.reply, r.handler = m.connection.handler) :
    (s.after m handled).repliesOn handler = s.repliesOn handler ++
      if m.connection.handler = handler then handled.reply.toList.map MessageReply.frame
      else [] := by
  rw [MessageWorld.repliesOn, MessageWorld.after, List.filter_append, List.map_append]
  cases hsome : handled.reply with
  | none => simp [MessageWorld.repliesOn]
  | some r =>
      have hhandler := hreply r hsome
      split_ifs with heq <;> simp [MessageWorld.repliesOn, hhandler, heq]

/-- A connection goes on, and the server with it. -/
lemma WireKept.update (hs : WireKept float app methods start w) {handler : ℕ} {s : Session}
    {t : MessageWorld σ} (hkept : MessagesKept float app methods start t)
    (hmade : t.server.made = w.messages.server.made)
    (hconnections : t.server.connections = w.messages.server.connections)
    (hlt : handler < w.messages.server.made) (hsound : Sound s)
    (hclosed : (w.sessions handler).state = .closed → s.state = .closed)
    (hreceived : s.handled = t.receivedOn handler)
    (hreplied : (t.repliesOn handler).Sublist s.writer.pushed)
    (hothers : ∀ handler', handler ≠ handler' →
      t.receivedOn handler' = w.messages.receivedOn handler' ∧
        t.repliesOn handler' = w.messages.repliesOn handler') :
    WireKept float app methods start
      { messages := t, sessions := Function.update w.sessions handler s } where
  kept := hkept
  sound := by
    intro handler'
    dsimp only
    obtain rfl | hne := eq_or_ne handler handler'
    · rwa [Function.update_self]
    · rw [Function.update_of_ne hne.symm]
      exact hs.sound handler'
  received := by
    intro handler'
    dsimp only
    obtain rfl | hne := eq_or_ne handler handler'
    · rwa [Function.update_self]
    · rw [Function.update_of_ne hne.symm, (hothers handler' hne).1]
      exact hs.received handler'
  replied := by
    intro handler'
    dsimp only
    obtain rfl | hne := eq_or_ne handler handler'
    · rwa [Function.update_self]
    · rw [Function.update_of_ne hne.symm, (hothers handler' hne).2]
      exact hs.replied handler'
  made := by
    intro handler' hle
    dsimp only at hle ⊢
    rw [hmade] at hle
    rw [Function.update_of_ne (hlt.trans_le hle).ne']
    exact hs.made handler' hle
  alive := by
    intro handler' hlt' hstate
    dsimp only at hlt' hstate ⊢
    rw [hmade] at hlt'
    rw [hconnections]
    refine hs.alive handler' hlt' fun hclosed' => hstate ?_
    obtain rfl | hne := eq_or_ne handler handler'
    · rw [Function.update_self]
      exact hclosed hclosed'
    · rw [Function.update_of_ne hne.symm]
      exact hclosed'

/-- Something happens on a connection. -/
lemma WireKept.session (hs : WireKept float app methods start w) {handler : ℕ} {e : SessionEvent}
    {s : Session} (hlt : handler < w.messages.server.made)
    (hcalls : ¬ CallsHandler (w.sessions handler) e)
    (hstep : SessionStep (w.sessions handler) e s) :
    WireKept float app methods start
      { w with sessions := Function.update w.sessions handler s } := by
  have hquiet := quiet_step (hs.sound handler) hstep hcalls
  exact hs.update hs.kept rfl rfl hlt ((hs.sound handler).step hstep) hquiet.closed
    (hquiet.handled.trans (hs.received handler)) ((hs.replied handler).trans hquiet.pushed.sublist)
    fun _ _ => ⟨rfl, rfl⟩

/-- A message is handed over and answered. -/
lemma WireKept.message (hfloat : ReadsNumbers float) (hmethods : Puts64Bit methods)
    (hs : WireKept float app methods start w) {m : Message} {s : Session} {handled : Handled σ}
    (hc : m.connection ∈ w.messages.server.connections)
    (hcalls : CallsHandler (w.sessions m.connection.handler) (.dispatch m.frame))
    (hstep : SessionStep (w.sessions m.connection.handler) (.dispatch m.frame) s)
    (hhandled : handleMessage float app methods w.messages.server.registry w.messages.world m =
      .ok handled) :
    WireKept float app methods start {
      messages := w.messages.after m handled
      sessions := Function.update w.sessions m.connection.handler
        (sendReply s handled.reply) } := by
  have hreply := reply_of_handleMessage hhandled
  obtain ⟨hopen, hover, hwriter⟩ := eq_of_callsHandler hstep hcalls
  obtain ⟨hsent, hpushed⟩ := sendReply_eq hopen fun r hr => (hreply r hr).2
  have hsound := sound_sendReply ((hs.sound m.connection.handler).step hstep) handled.reply
  refine hs.update (hs.kept.message hfloat hmethods hc hhandled) rfl rfl
    (hs.kept.modes.distinct.made _ hc) hsound (fun hclosed => ?_) ?_ ?_ ?_
  · cases hcalls.1.symm.trans hclosed
  · rw [hsent, hover, receivedOn_after, if_pos rfl, hs.received]
  · rw [hpushed, hwriter, repliesOn_after fun r hr => (hreply r hr).1, if_pos rfl]
    exact (hs.replied _).append_right _
  · intro handler' hne
    rw [receivedOn_after, repliesOn_after fun r hr => (hreply r hr).1, if_neg hne, if_neg hne,
      List.append_nil, List.append_nil]
    exact ⟨rfl, rfl⟩

/-- **What one step keeps.** -/
lemma WireKept.step (hfloat : ReadsNumbers float) (hmethods : Puts64Bit methods)
    (hs : WireKept float app methods start w) {e : WireEvent}
    (h : WireStep float config app methods w e w') : WireKept float app methods start w' := by
  cases h with
  | connect url host t hst =>
      have hkept := hs.kept.step hfloat hmethods hst
      cases hst with
      | connect _ _ w₁ hserver =>
          -- A connection that is made stands where none was.
          have hsessions : Function.update w.sessions w.messages.server.made {} = w.sessions :=
            Function.update_eq_self_iff.mpr (hs.made _ le_rfl).symm
          cases hserver
          rw [hsessions]
          refine ⟨hkept, hs.sound, hs.received, hs.replied,
            fun handler hle => hs.made handler (Nat.le_of_succ_le hle),
            fun handler hlt hstate => ?_⟩
          obtain hlt | rfl := Nat.lt_succ_iff_lt_or_eq.mp hlt
          · obtain ⟨c, hc, hhandler⟩ := hs.alive handler hlt hstate
            exact ⟨c, List.mem_cons_of_mem _ hc, hhandler⟩
          · exact ⟨_, List.mem_cons_self, rfl⟩
  | disconnect c t hclosed hst =>
      have hkept := hs.kept.step hfloat hmethods hst
      cases hst with
      | disconnect _ w₁ hserver =>
          cases hserver
          refine ⟨hkept, hs.sound, hs.received, hs.replied, hs.made, fun handler hlt hstate => ?_⟩
          obtain ⟨c', hc', rfl⟩ := hs.alive handler hlt hstate
          have hne : c' ≠ c := by
            rintro rfl
            exact hstate hclosed
          exact ⟨c', (List.mem_erase_of_ne hne).mpr hc', rfl⟩
  | session handler e s hlt hcalls hstep => exact hs.session hlt hcalls hstep
  | message m s handled hc hcalls hstep hhandled =>
      exact hs.message hfloat hmethods hc hcalls hstep hhandled

/-- The next message of a connection that is open is handed over, unless the server ends with
it. -/
def Proceeds (float : φ → Json) (config : Config) (app : App) (methods : Str → NativeMethod σ)
    (w : WireWorld σ) : Prop :=
  ∀ handler m inbox failure, (w.sessions handler).reader = .handling (m :: inbox) failure →
    CallsHandler (w.sessions handler) (.dispatch m) →
    ∃ m' : Message, m'.frame = m ∧ m'.connection.handler = handler ∧
      ((∃ t, WireStep float config app methods w (.message m') t) ↔
        ∀ request, Asks φ float m.payload request →
          Handles app methods w.messages.world request)

lemma WireKept.proceeds (hs : WireKept float app methods start w) :
    Proceeds float config app methods w := by
  intro handler m inbox failure hreader hcalls
  have hlt : handler < w.messages.server.made := by
    by_contra hle
    rw [hs.made handler (Nat.not_lt.mp hle)] at hreader
    cases hreader
  obtain ⟨c, hc, rfl⟩ := hs.alive handler hlt (hcalls.1.trans_ne nofun)
  obtain ⟨hcontrol, -⟩ | ⟨op, hop⟩ := (hs.sound c.handler).kind hreader
  · cases hcontrol.symm.trans hcalls.2
  obtain ⟨m, rfl, rfl⟩ : ∃ m' : Message, m'.frame = m ∧ m'.connection = c :=
    ⟨⟨c, op, m.payload⟩, by rw [Message.frame, ← hop], rfl⟩
  refine ⟨m, rfl, rfl, ?_⟩
  show _ ↔ ∀ request, Asks φ float m.payload request →
    Handles app methods w.messages.world request
  rw [← handleMessage_ok_iff float app methods w.messages.server.registry w.messages.world]
  constructor
  · rintro ⟨t, hst⟩
    cases hst with
    | message _ s handled _ _ _ hhandled => exact ⟨handled, hhandled⟩
  · rintro ⟨handled, hhandled⟩
    have hstep := SessionStep.dispatch (w.sessions m.connection.handler) m.frame inbox failure
      hreader
    exact ⟨_, .message w m _ handled hc hcalls hstep hhandled⟩

end Kept

/-- **Along every run**, what the connections hand over is what is served, each of them in its
order, and every reply is pushed on the connection that asked, in the order of the calls. No
message is left behind, and none stops the server but a request that it lets pass without a name
for its method, or whose method does not come back.  The connections speak version 13 of the
protocol, `hybi13`. -/
theorem wire_served {φ σ : Type} [Floats φ] {float : φ → Json} {config : Config} {app : App}
    {methods : Str → NativeMethod σ} {start : σ} {trace : List (WireEvent × WireWorld σ)}
    (hfloat : ReadsNumbers float) (hmethods : Puts64Bit methods)
    (h : Run (WireStep float config app methods) { messages := { world := start } } trace) :
    ∀ x ∈ trace, WireServed float app methods start x.2 ∧
      Proceeds float config app methods x.2 := by
  intro x hx
  have hnew : WireKept float app methods start { messages := { world := start } } := wireKept_new
  have hkept := h.invariant (fun _ _ _ hs hst => hs.step hfloat hmethods hst) hnew x hx
  exact ⟨hkept.served, hkept.proceeds⟩

/-- The call of `app.getConfig` as a frame of the extension. -/
def configFrame : WebSocket.Frame where
  fin := true
  opcode := .binary
  key := fun i => UInt8.ofNat i
  payload := configMessage.payload
  length_lt := by decide +kernel

/-- The extension sends the frame of its call, and gets the frame of the reply. -/
theorem wire_served_config : ∃ w : WireWorld Unit,
    WireServed Empty.elim router.openApp router.silentMethods () w ∧
      (w.sessions 0).bytesRead = configFrame.encode ∧ w.messages.invoked = ["app.getConfig"] ∧
      (w.sessions 0).writer.written = [(⟨0, serializer.dump (responseMessage
        { id := "1", method := "app.getConfig" }), .binary⟩ : MessageReply).frame] := by
  let chunk := configFrame.encode
  let s₁ : Session := {
    bytesRead := chunk
    processor := (websocketpp.processor.readFrame {} chunk).after
    reader := .handling (websocketpp.processor.readFrame {} chunk).messages
      (websocketpp.processor.readFrame {} chunk).error }
  let s₂ : Session := { s₁.dispatch configMessage.frame with reader := .handling [] none }
  let s₃ := sendReply s₂ (some ⟨0, serializer.dump (responseMessage
    { id := "1", method := "app.getConfig" }), .binary⟩)
  let s₄ : Session := { s₃ with writer := s₃.writer.writeFrame }
  let w₁ : WireWorld Unit := {
    messages := { server := afterConnects 1, world := () }
    sessions := Function.update (fun _ => {}) 0 {} }
  let w₂ : WireWorld Unit := { w₁ with sessions := Function.update w₁.sessions 0 s₁ }
  let w₃ : WireWorld Unit := {
    messages := afterConfig
    sessions := Function.update w₂.sessions 0 s₃ }
  let w₄ : WireWorld Unit := { w₃ with sessions := Function.update w₃.sessions 0 s₄ }
  have hsession₁ : w₁.sessions 0 = {} := rfl
  have hsession₂ : w₂.sessions 0 = s₁ := Function.update_self 0 s₁ w₁.sessions
  have hsession₃ : w₃.sessions 0 = s₃ := Function.update_self 0 s₃ w₂.sessions
  have hread : (websocketpp.processor.readFrame {} chunk).messages = [configMessage.frame] ∧
      (websocketpp.processor.readFrame {} chunk).error = none := by
    decide +kernel
  have hreader : s₁.reader = .handling [configMessage.frame] none := by
    show Reader.handling _ _ = _
    rw [hread.1, hread.2]
  have hcalls : CallsHandler s₁ (.dispatch configMessage.frame) := ⟨rfl, rfl⟩
  have hdispatch : SessionStep s₁ (.dispatch configMessage.frame) s₂ :=
    .dispatch s₁ _ [] none hreader
  obtain ⟨hopen, -, hwriter⟩ := eq_of_callsHandler hdispatch hcalls
  have hreply : s₃ = s₂.push _ := sendReply_some hopen ⟨_, serializer.dump_eq _⟩
  have hconnect : WireStep Empty.elim extensionServer router.openApp router.silentMethods
      { messages := { world := () } } (.connect extensionUrl "localhost") w₁ :=
    .connect _ _ _ _ (.connect _ _ _ _ (.connect {} _ _ (by decide)))
  have hbytes : WireStep Empty.elim extensionServer router.openApp router.silentMethods w₁
      (.session 0 (.read chunk)) w₂ := by
    refine .session w₁ 0 _ _ (by decide) nofun ?_
    rw [hsession₁]
    exact .read {} chunk rfl
  have hmessage : WireStep Empty.elim extensionServer router.openApp router.silentMethods w₂
      (.message configMessage) w₃ := by
    refine .message w₂ configMessage s₂ _ (by decide) ?_ ?_ handleMessage_configMessage
    · show CallsHandler (w₂.sessions 0) _
      rw [hsession₂]
      exact hcalls
    · show SessionStep (w₂.sessions 0) _ _
      rw [hsession₂]
      exact hdispatch
  have hwrite : WireStep Empty.elim extensionServer router.openApp router.silentMethods w₃
      (.session 0 .writeFrame) w₄ := by
    refine .session w₃ 0 _ _ (by decide) nofun ?_
    rw [hsession₃]
    exact .writeFrame s₃
  have hserved := wire_served (fun x => x.elim) (by rintro _ _ _ _ ⟨⟩; trivial)
    (.cons hconnect (.cons hbytes (.cons hmessage (.cons hwrite (.nil w₄)))))
    (.session 0 .writeFrame, w₄) (by simp)
  refine ⟨w₄, hserved.1, ?_, rfl, ?_⟩
  · decide +kernel
  · have hsession₄ : w₄.sessions 0 = s₄ := Function.update_self 0 s₄ w₃.sessions
    rw [hsession₄]
    show s₃.writer.writeFrame.written = _
    rw [hreply]
    show (s₂.writer.writePush _).writeFrame.written = _
    rw [hwriter]
    rfl

end Neutralino.neuserver
