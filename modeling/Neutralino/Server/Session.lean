import Neutralino.Library.Runs
import Neutralino.Server.Connections
import Neutralino.Server.FrameReading
import Neutralino.Server.WriteQueue

/-!
A connection of the server, from the end of the handshake on: what it reads, what it passes on
and what it writes, until it is closed.

* `Session`: its state; on record are the bytes read, the messages received and those that
  the message handler was called with.
* `Session.endSend`, `Session.processControlFrame`, `Session.dispatch`, `Session.endRead`: the
  operations.
* `SessionStep`: what happens to a connection, in any order.
* `Orderly`: what holds of a connection at any time.
* `session_orderly`: **along every run**, the messages are those of the frames, the handler is
  called with each of them up to the first close frame, and what is written is a sequence of
  whole frames in the order in which they were sent, of which a close frame is the last.
-/

namespace Neutralino.websocketpp.connection

open processor
open WebSocket (Frame ReceivesAll serverFrame)
open Utf8 (IsText)
open Runs

/-! ### The connection -/

/-- `session::state`, from the end of the handshake on. -/
inductive SessionState where
  | open
  | closing
  | closed
  deriving DecidableEq

/-- Where reading stands: a read is under way, or the messages of one are handled before the
error that ended it, or no read follows. -/
inductive Reader where
  | waiting
  | handling (inbox : List Message) (failure : Option processor.Error)
  | stopped

/-- The messages that are still to be handled. -/
def Reader.inbox : Reader → List Message
  | handling inbox _ => inbox
  | _ => []

/-- `connection`. -/
structure Session where
  state : SessionState := .open
  wasClean : Bool := false
  localCloseCode : ℕ := close.status.abnormalClose
  localCloseReason : List UInt8 := []
  remoteCloseCode : ℕ := close.status.abnormalClose
  remoteCloseReason : List UInt8 := []
  processor : Processor := {}
  reader : Reader := .waiting
  sending : List (List UInt8 × neuserver.Opcode) := []
  writer : Writer := {}
  bytesRead : List UInt8 := []
  received : List Message := []
  handled : List Message := []
  shutdowns : ℕ := 0

namespace Session

variable (s : Session)

/-- `terminate`: the transport is shut down, and then the close handler is called, unless that
was done before. -/
def terminate : Session :=
  { s with
    state := .closed
    shutdowns := if s.state = .closed then s.shutdowns else s.shutdowns + 1 }

/-- `write_push`. -/
def push (m : Outgoing) : Session := { s with writer := s.writer.writePush m }

/-- The opcodes of the messages that the server sends. -/
def opcodeOf : neuserver.Opcode → UInt8
  | .text => WebSocket.Opcode.text.code
  | .binary => WebSocket.Opcode.binary.code

/-- What `send` does behind the check of the state; where an error is returned, nothing. -/
def endSend (payload : List UInt8) (op : neuserver.Opcode) : Session :=
  match prepareDataFrame (opcodeOf op) payload with
  | .ok m => s.push m
  | .error _ => s

/-- `pong`; an error is only logged. -/
def pong (payload : List UInt8) : Session :=
  if s.state ≠ .open then s
  else
    match preparePong payload with
    | .ok m => s.push m
    | .error _ => s

/-- `send_close_frame`, and whether it fails. -/
def sendCloseFrame (code : ℕ) (reason : List UInt8) (ack terminal : Bool) : Session × Bool :=
  let (code, reason) :=
    if code ≠ close.status.blank then (code, reason)
    else if ¬ ack then (close.status.noStatus, [])
    else if s.remoteCloseCode = close.status.noStatus then (close.status.normal, [])
    else (s.remoteCloseCode, s.remoteCloseReason)
  let s := { s with localCloseCode := code, localCloseReason := reason }
  match prepareClose code reason with
  | .error _ => (s, true)
  | .ok m =>
      ({ s with state := .closing, wasClean := s.wasClean || ack }.push { m with terminal }, false)

/-- `send_close_ack` of a server; an error is only logged. -/
def sendCloseAck (code : ℕ) (reason : List UInt8) : Session :=
  (s.sendCloseFrame code reason true true).1

/-- `close`, and whether it fails. -/
def close (code : ℕ) (reason : List UInt8) : Session × Bool :=
  if s.state ≠ .open then (s, true)
  else s.sendCloseFrame code (reason.take 123) false (close.status.terminal code)

/-- The bytes of a text. -/
def bytes (text : String) : List UInt8 := Utf8.encode text.toList

/-- What becomes of a close frame. -/
def processClose (payload : List UInt8) : Session :=
  let (code, ec) := close.extractCode payload
  let s := { s with remoteCloseCode := code }
  if ec.isSome then s.sendCloseAck close.status.protocolError (bytes "Invalid close code")
  else
    let (reason, ec) := close.extractReason payload
    let s := { s with remoteCloseReason := reason }
    if ec.isSome then s.sendCloseAck close.status.protocolError (bytes "Invalid close reason")
    else if s.state = .open then s.sendCloseAck close.status.blank []
    else if s.state = .closing ∧ ¬ s.wasClean then { s with wasClean := true }.terminate
    else s

/-- `process_control_frame`. No handler of pings and pongs is set. -/
def processControlFrame (m : Message) : Session :=
  if s.state = .closed then s
  else if m.opcode ≠ frame.opcode.close ∧ s.state ≠ .open then s
  else if m.opcode = frame.opcode.ping then s.pong m.payload
  else if m.opcode = frame.opcode.pong then s
  else if m.opcode = frame.opcode.close then s.processClose m.payload
  else s

/-- What `handle_read_frame` does with a message. -/
def dispatch (m : Message) : Session :=
  let s := { s with received := s.received ++ [m] }
  if frame.opcode.isControl m.opcode then s.processControlFrame m
  else if s.state ≠ .open then s
  else { s with handled := s.handled ++ [m] }

/-- What `handle_read_frame` does after the last message. -/
def endRead (failure : Option processor.Error) : Session :=
  match failure with
  | none => { s with reader := .waiting }
  | some ec =>
      let (s, failed) := s.close ec.toWs (bytes ec.message)
      let s := { s with reader := .stopped }
      if failed then s.terminate else s

end Session

/-! ### Runs -/

/-- What happens to a connection. -/
inductive SessionEvent where
  | read (chunk : List UInt8)
  | dispatch (m : Message)
  | endRead
  | readFailed
  | beginSend (payload : List UInt8) (op : neuserver.Opcode)
  | endSend (payload : List UInt8) (op : neuserver.Opcode)
  | writeFrame
  | written (failed : Bool)
  | closeTimeout

/-- The steps of a connection: bytes come in and their messages are handled one after another,
while the application sends what it likes, writes begin and end, and the transport fails. Between
the check of the state in `send` and the push, anything may happen. -/
inductive SessionStep : Session → SessionEvent → Session → Prop
  | read (s : Session) (chunk : List UInt8) : s.reader = .waiting →
      SessionStep s (.read chunk) { s with
        bytesRead := s.bytesRead ++ chunk
        processor := (readFrame s.processor chunk).after
        reader := .handling (readFrame s.processor chunk).messages
          (readFrame s.processor chunk).error }
  | dispatch (s : Session) (m : Message) (inbox : List Message)
      (failure : Option processor.Error) : s.reader = .handling (m :: inbox) failure →
      SessionStep s (.dispatch m) { s.dispatch m with reader := .handling inbox failure }
  | endRead (s : Session) (failure : Option processor.Error) :
      s.reader = .handling [] failure → SessionStep s .endRead (s.endRead failure)
  | readFailed (s : Session) : s.reader = .waiting →
      SessionStep s .readFailed { s.terminate with reader := .stopped }
  | beginSend (s : Session) (payload : List UInt8) (op : neuserver.Opcode) : s.state = .open →
      SessionStep s (.beginSend payload op) { s with sending := s.sending ++ [(payload, op)] }
  | endSend (s : Session) (payload : List UInt8) (op : neuserver.Opcode)
      (before after : List (List UInt8 × neuserver.Opcode)) :
      s.sending = before ++ (payload, op) :: after →
      SessionStep s (.endSend payload op) { s.endSend payload op with sending := before ++ after }
  | writeFrame (s : Session) :
      SessionStep s .writeFrame { s with writer := s.writer.writeFrame }
  | written (s : Session) (failed : Bool) : s.writer.currentMsgs ≠ [] →
      SessionStep s (.written failed)
        (let s' := { s with writer := (s.writer.handleWriteFrame failed).1 }
        if (s.writer.handleWriteFrame failed).2 then s'.terminate else s')
  | closeTimeout (s : Session) : s.state = .closing → SessionStep s .closeTimeout s.terminate

/-! ### What the operations do -/

section Operations

variable {s t : Session} {m : Message} {payload reason : List UInt8} {code : ℕ}

/-- A close frame, as it is sent. -/
def closeFrame (code : ℕ) (reason : List UInt8) : Outgoing :=
  { Outgoing.new frame.opcode.close (WebSocket.bigEndian code 2 ++ reason) with terminal := true }

/-- Codes that may be sent. -/
def Sendable (code : ℕ) : Prop :=
  close.status.reserved code = false ∧ close.status.invalid code = false

lemma Sendable.ne_blank (h : Sendable code) : code ≠ close.status.blank := by
  rintro rfl
  cases h.2

/-- A close frame with a code that may be sent. -/
lemma sendCloseFrame_of_sendable (h : Sendable code) (hle : reason.length ≤ 123) (ack : Bool) :
    s.sendCloseFrame code reason ack true = ({ s with
      state := .closing
      wasClean := s.wasClean || ack
      localCloseCode := code
      localCloseReason := reason
      writer := s.writer.writePush (closeFrame code reason) }, false) := by
  simp only [Session.sendCloseFrame, if_pos h.ne_blank,
    prepareClose_of_valid code reason h.1 h.2 hle]
  rfl

/-- The answer to a close frame that is well-formed. -/
lemma sendCloseAck_blank (hcode : s.remoteCloseCode = close.status.noStatus ∨
      Sendable s.remoteCloseCode ∧ s.remoteCloseReason.length ≤ 123) :
    ∃ code reason, s.sendCloseAck close.status.blank [] = { s with
      state := .closing
      wasClean := true
      localCloseCode := code
      localCloseReason := reason
      writer := s.writer.writePush (closeFrame code reason) } := by
  by_cases hstatus : s.remoteCloseCode = close.status.noStatus
  · refine ⟨close.status.normal, [], ?_⟩
    have hprepare := prepareClose_of_valid close.status.normal [] rfl rfl (Nat.zero_le _)
    simp only [Session.sendCloseAck, Session.sendCloseFrame, ne_eq, not_true_eq_false, if_false,
      hstatus, if_true, hprepare, Bool.or_true]
    rfl
  · obtain ⟨hsendable, hle⟩ := hcode.resolve_left hstatus
    refine ⟨s.remoteCloseCode, s.remoteCloseReason, ?_⟩
    simp only [Session.sendCloseAck, Session.sendCloseFrame, ne_eq, not_true_eq_false, if_false,
      hstatus, prepareClose_of_valid _ _ hsendable.1 hsendable.2 hle, Bool.or_true]
    rfl

/-- A connection that was not closed ceases to be open; at most a close frame is sent, with
which it ends. -/
structure Closes (s t : Session) : Prop where
  unchanged : t.processor = s.processor ∧ t.reader = s.reader ∧ t.sending = s.sending ∧
    t.bytesRead = s.bytesRead ∧ t.received = s.received ∧ t.handled = s.handled
  state : t.state ≠ .open
  writer : t.writer = s.writer ∨
    ∃ code reason, t.writer = s.writer.writePush (closeFrame code reason)
  shutdowns : t.shutdowns = s.shutdowns + if t.state = .closed then 1 else 0

lemma closes_sendCloseFrame (reason : List UInt8) (h : Sendable code) (hle : reason.length ≤ 123)
    (ack : Bool) : Closes s (s.sendCloseFrame code reason ack true).1 := by
  rw [sendCloseFrame_of_sendable h hle]
  exact ⟨⟨rfl, rfl, rfl, rfl, rfl, rfl⟩, nofun, .inr ⟨code, reason, rfl⟩, rfl⟩

/-- A code that is read without an error. -/
lemma extractCode_ok (h : (close.extractCode payload).2.isSome = false) :
    (close.extractCode payload).1 = close.status.noStatus ∨
      Sendable (close.extractCode payload).1 := by
  rw [close.extractCode] at h ⊢
  dsimp only at h ⊢
  split_ifs at h ⊢ with h0 h1 hreserved hinvalid
  · exact .inl rfl
  · cases h
  · cases h
  · cases h
  · exact .inr ⟨Bool.eq_false_iff.mpr hreserved, Bool.eq_false_iff.mpr hinvalid⟩

lemma length_extractReason (hle : payload.length ≤ 125) :
    (close.extractReason payload).1.length ≤ 123 := by
  rw [close.extractReason]
  dsimp only
  split_ifs
  · rw [List.length_drop]
    omega
  · exact Nat.zero_le _

lemma sendable_protocolError : Sendable close.status.protocolError := ⟨rfl, rfl⟩

/-- What becomes of a close frame. -/
lemma closes_processClose (hle : payload.length ≤ 125) (hstate : s.state ≠ .closed) :
    Closes s (s.processClose payload) := by
  rw [Session.processClose]
  dsimp only
  split_ifs with hcode hreason hopen hclosing
  · have hcloses := closes_sendCloseFrame
      (s := { s with remoteCloseCode := (close.extractCode payload).1 })
      (Session.bytes "Invalid close code") sendable_protocolError (by decide) true
    exact ⟨hcloses.unchanged, hcloses.state, hcloses.writer, hcloses.shutdowns⟩
  · have hcloses := closes_sendCloseFrame
      (s := { s with
        remoteCloseCode := (close.extractCode payload).1
        remoteCloseReason := (close.extractReason payload).1 })
      (Session.bytes "Invalid close reason") sendable_protocolError (by decide) true
    exact ⟨hcloses.unchanged, hcloses.state, hcloses.writer, hcloses.shutdowns⟩
  · obtain ⟨code, reason, hack⟩ := sendCloseAck_blank (s := { s with
      remoteCloseCode := (close.extractCode payload).1
      remoteCloseReason := (close.extractReason payload).1 })
      ((extractCode_ok (Bool.eq_false_iff.mpr hcode)).imp_right
        fun hsendable => ⟨hsendable, length_extractReason hle⟩)
    rw [hack]
    exact ⟨⟨rfl, rfl, rfl, rfl, rfl, rfl⟩, nofun, .inr ⟨code, reason, rfl⟩, rfl⟩
  · exact ⟨⟨rfl, rfl, rfl, rfl, rfl, rfl⟩, nofun, .inl rfl, if_neg hstate⟩
  · refine ⟨⟨rfl, rfl, rfl, rfl, rfl, rfl⟩, hopen, .inl rfl, ?_⟩
    show s.shutdowns = s.shutdowns + if s.state = .closed then 1 else 0
    rw [if_neg hstate, Nat.add_zero]

/-- What becomes of a message, as it is received. -/
inductive Dispatched (s : Session) (m : Message) (t : Session) : Prop
  | handled : s.state = .open → frame.opcode.isControl m.opcode = false →
      t = { s with received := s.received ++ [m], handled := s.handled ++ [m] } →
      Dispatched s m t
  | ponged : s.state = .open → m.opcode = frame.opcode.ping →
      t = { s with
        received := s.received ++ [m]
        writer := s.writer.writePush (.new frame.opcode.pong m.payload) } →
      Dispatched s m t
  | ignored : t = { s with received := s.received ++ [m] } →
      (s.state = .open → frame.opcode.isControl m.opcode = true ∧
        m.opcode ≠ frame.opcode.ping ∧ m.opcode ≠ frame.opcode.close) → Dispatched s m t
  | closes : s.state ≠ .closed → m.opcode = frame.opcode.close →
      Closes { s with received := s.received ++ [m] } t → Dispatched s m t

/-- What becomes of a message. -/
lemma dispatch_dispatched (hle : frame.opcode.isControl m.opcode = true → m.payload.length ≤ 125) :
    Dispatched s m (s.dispatch m) := by
  rw [Session.dispatch]
  dsimp only
  split_ifs with hcontrol hstate
  · rw [Session.processControlFrame]
    dsimp only
    split_ifs with hclosed hother hping hpong hclose
    · exact .ignored rfl fun hopen => nomatch hopen.symm.trans hclosed
    · exact .ignored rfl fun hopen => absurd hopen hother.2
    · have hopen : s.state = .open := by
        by_contra hnot
        exact hother ⟨by rw [hping]; decide, hnot⟩
      refine .ponged hopen hping ?_
      have hprepare : preparePong m.payload = .ok (.new frame.opcode.pong m.payload) :=
        prepareControl_of_le .pong rfl (hle hcontrol)
      rw [Session.pong, hprepare]
      exact if_neg (not_not.mpr hopen)
    · exact .ignored rfl fun _ => ⟨hcontrol, hping, by rw [hpong]; decide⟩
    · exact .closes hclosed hclose (closes_processClose (hle hcontrol) hclosed)
    · exact .ignored rfl fun _ => ⟨hcontrol, hping, hclose⟩
  · exact .ignored rfl fun hopen => absurd hopen hstate
  · exact .handled (not_not.mp hstate) (Bool.eq_false_iff.mpr hcontrol) rfl

/-- What follows an error in what was read. -/
lemma toWs_sendable (ec : processor.Error) :
    Sendable ec.toWs ∧ close.status.terminal ec.toWs = true := by
  cases ec <;> exact ⟨⟨rfl, rfl⟩, rfl⟩

/-- The end of a read that failed. -/
lemma endRead_some (ec : processor.Error) :
    (s.endRead (some ec)).reader = .stopped ∧
      ((s.endRead (some ec)).state = .closed ∧ s.state ≠ .open ∧
          (s.endRead (some ec)) = { s.terminate with reader := .stopped } ∨
        s.state = .open ∧ Closes { s with reader := .stopped } (s.endRead (some ec))) := by
  obtain ⟨hsendable, hterminal⟩ := toWs_sendable ec
  by_cases hstate : s.state = .open
  · have hclose : s.close ec.toWs (Session.bytes ec.message) = s.sendCloseFrame ec.toWs
        ((Session.bytes ec.message).take 123) false true := by
      rw [Session.close, if_neg (not_not.mpr hstate), hterminal]
    have hle : ((Session.bytes ec.message).take 123).length ≤ 123 := by
      rw [List.length_take]
      omega
    have hend : s.endRead (some ec) =
        { (s.sendCloseFrame ec.toWs ((Session.bytes ec.message).take 123) false true).1 with
          reader := .stopped } := by
      simp only [Session.endRead, hclose, sendCloseFrame_of_sendable hsendable hle,
        Bool.false_eq_true, if_false]
    rw [hend, sendCloseFrame_of_sendable hsendable hle]
    exact ⟨rfl, .inr ⟨hstate, ⟨rfl, rfl, rfl, rfl, rfl, rfl⟩, nofun, .inr ⟨_, _, rfl⟩, rfl⟩⟩
  · have hend : s.endRead (some ec) = { s.terminate with reader := .stopped } := by
      simp only [Session.endRead, Session.close, if_pos hstate, if_true]
      rfl
    rw [hend]
    exact ⟨rfl, .inl ⟨rfl, hstate, rfl⟩⟩

end Operations

/-! ### What holds at any time -/

/-- A frame that is well-formed: whole, and of text if it is a text frame. -/
structure Wellformed (m : Outgoing) : Prop where
  bytes : ∃ op : WebSocket.Opcode, m.opcode = op.code ∧ m.bytes = serverFrame true op m.payload
  text : m.opcode = frame.opcode.text → IsText m.payload

/-- The messages that were handled: all up to the first close frame, as long as the connection
was open, and pings are answered. -/
def Handles (s : Session) (before : List Message) : Prop :=
  before <+: s.received ∧ (∀ m ∈ before, m.opcode ≠ frame.opcode.close) ∧
  s.handled = before.filter (fun m => ! frame.opcode.isControl m.opcode) ∧
  (s.writer.pushed.filter (·.opcode = frame.opcode.pong)).map (·.payload) =
    (before.filter (·.opcode = frame.opcode.ping)).map (·.payload) ∧
  (s.state = .open → before = s.received)

/-- What holds of a connection at any time. -/
structure Orderly (s : Session) : Prop where
  messages : ∃ fs part tail messages, s.bytesRead = fs.flatMap Frame.encode ++ tail ∧
    ReceivesAll rules none fs part messages ∧ Ends part tail ∧
    s.received ++ s.reader.inbox = messages.map .of
  handled : ∃ before, Handles s before
  sent : s.writer.written <+: s.writer.pushed
  frames : ∀ m ∈ s.writer.pushed, Wellformed m
  closes : ∀ before m after, s.writer.written = before ++ m :: after →
    m.opcode = frame.opcode.close → after = []
  shutdowns : s.shutdowns = if s.state = .closed then 1 else 0

/-- Where reading stands behind the frames that were received. -/
def Stands (p : Processor) (part : Option WebSocket.Message) (tail : List UInt8) : Reader → Prop
  | .waiting | .handling _ none => Behind p part tail ∧ p.bytesNeeded ≠ 0
  | .handling _ (some _) => Refused part tail
  | .stopped => Ends part tail

/-- What the steps keep. -/
structure Sound (s : Session) : Prop where
  messages : ∃ fs part tail messages, s.bytesRead = fs.flatMap Frame.encode ++ tail ∧
    ReceivesAll rules none fs part messages ∧ Stands s.processor part tail s.reader ∧
    s.received ++ s.reader.inbox = messages.map .of
  handled : ∃ before, Handles s before
  writer : s.writer.Sound
  frames : ∀ m ∈ s.writer.pushed,
    Wellformed m ∧ (m.opcode = frame.opcode.close → m.terminal = true)
  shutdowns : s.shutdowns = if s.state = .closed then 1 else 0

section Invariant

variable {s t : Session} {m : Message} {before : List Message}

lemma Stands.ends {p : Processor} {part : Option WebSocket.Message} {tail : List UInt8}
    {reader : Reader} (h : Stands p part tail reader) : Ends part tail := by
  cases reader with
  | waiting => exact (h.1.unfinished h.2).ends
  | handling inbox failure =>
      cases failure with
      | none => exact (h.1.unfinished h.2).ends
      | some ec => exact Refused.ends h
  | stopped => exact h

/-- **What the steps keep is what holds at any time.** -/
lemma Sound.orderly (h : Sound s) : Orderly s where
  messages := by
    obtain ⟨fs, part, tail, messages, hbytes, hall, hstands, hmessages⟩ := h.messages
    exact ⟨fs, part, tail, messages, hbytes, hall, hstands.ends, hmessages⟩
  handled := h.handled
  sent := by
    rw [← h.writer.pushed]
    exact List.prefix_append _ _
  frames := fun m hm => (h.frames m hm).1
  closes := by
    intro before m after hwritten hclose
    have hm : m ∈ s.writer.pushed := by
      rw [← h.writer.pushed, hwritten]
      simp
    exact h.writer.eq_nil_of_terminal hwritten ((h.frames m hm).2 hclose)
  shutdowns := h.shutdowns

lemma sound_new : Sound {} where
  messages := ⟨[], none, [], [], rfl, .nil none, ⟨.nothing rfl rfl rfl, by decide⟩, rfl⟩
  handled := ⟨[], List.prefix_refl _, by simp, rfl, rfl, fun _ => rfl⟩
  writer := Writer.sound_new
  frames := by simp
  shutdowns := rfl

/-- The messages are short control frames, texts or bytes. -/
lemma kind_of_mem {part part' : Option WebSocket.Message} {fs : List Frame}
    {messages : List WebSocket.Message} (h : ReceivesAll rules part fs part' messages)
    (hpart : ∀ out ∈ part, out.opcode = .text ∨ out.opcode = .binary) :
    ∀ out ∈ messages, out.opcode.isControl = true ∧ out.payload.length ≤ 125 ∨
      out.opcode = .text ∨ out.opcode = .binary := by
  induction h with
  | nil part => simp
  | cons hreceives _ ih =>
      intro out hout
      rw [List.mem_append] at hout
      cases hreceives with
      | control hop hfin hle =>
          obtain hout | hout := hout
          · rw [List.mem_singleton.mp hout]
            exact .inl ⟨hop, hle⟩
          · exact ih hpart out hout
      | whole hop =>
          obtain hout | hout := hout
          · rw [List.mem_singleton.mp hout]
            exact .inr hop
          · exact ih (by simp) out hout
      | first hop =>
          obtain hout | hout := hout
          · cases hout
          · refine ih ?_ out hout
            rintro _ ⟨⟩
            exact hop
      | more hop =>
          obtain hout | hout := hout
          · cases hout
          · refine ih ?_ out hout
            rintro _ ⟨⟩
            have hopcode := hpart _ rfl
            exact hopcode
      | last hop =>
          obtain hout | hout := hout
          · rw [List.mem_singleton.mp hout]
            have hopcode := hpart _ rfl
            exact .inr hopcode
          · exact ih (by simp) out hout

/-- The message that is handled next is a short control frame, a text or bytes. -/
lemma Sound.kind (h : Sound s) {inbox : List Message} {failure : Option processor.Error}
    (hreader : s.reader = .handling (m :: inbox) failure) :
    frame.opcode.isControl m.opcode = true ∧ m.payload.length ≤ 125 ∨
      ∃ op : neuserver.Opcode, m.opcode = Session.opcodeOf op := by
  obtain ⟨fs, part, tail, messages, -, hall, -, hmessages⟩ := h.messages
  have hm : m ∈ messages.map Message.of := by
    rw [← hmessages, hreader]
    simp [Reader.inbox]
  obtain ⟨out, hout, rfl⟩ := List.mem_map.mp hm
  obtain ⟨hcontrol, hle⟩ | hop | hop := kind_of_mem hall (by simp) out hout
  · exact .inl ⟨by rwa [Message.of, frame.isControl_code], hle⟩
  · exact .inr ⟨.text, congrArg WebSocket.Opcode.code hop⟩
  · exact .inr ⟨.binary, congrArg WebSocket.Opcode.code hop⟩

lemma Sound.length_le (h : Sound s) {inbox : List Message} {failure : Option processor.Error}
    (hreader : s.reader = .handling (m :: inbox) failure)
    (hcontrol : frame.opcode.isControl m.opcode = true) : m.payload.length ≤ 125 := by
  obtain ⟨-, hle⟩ | ⟨op, hop⟩ := h.kind hreader
  · exact hle
  · rw [hop] at hcontrol
    cases op <;> cases hcontrol

lemma wellformed_new (op : WebSocket.Opcode) {payload : List UInt8}
    (htext : op = .text → IsText payload) : Wellformed (.new op.code payload) where
  bytes := ⟨op, rfl, bytes_new op payload⟩
  text := fun hop => htext (frame.code_eq_text.mp hop)

lemma wellformed_closeFrame (code : ℕ) (reason : List UInt8) :
    Wellformed (closeFrame code reason) where
  bytes := ⟨.close, rfl, bytes_new .close _⟩
  text := fun hop => nomatch hop

/-- The messages stand where they stood, whichever of them were handled. -/
lemma Stands.handling {p : Processor} {part : Option WebSocket.Message} {tail : List UInt8}
    {inbox inbox' : List Message} {failure : Option processor.Error}
    (h : Stands p part tail (.handling inbox failure)) :
    Stands p part tail (.handling inbox' failure) := by
  cases failure with
  | none => exact h
  | some ec => exact h

/-- Messages that come when the connection is no longer open are not handled. -/
lemma Handles.frozen (h : Handles s before) (hreceived : s.received <+: t.received)
    (hhandled : t.handled = s.handled)
    (hpongs : t.writer.pushed.filter (·.opcode = frame.opcode.pong) =
      s.writer.pushed.filter (·.opcode = frame.opcode.pong))
    (hstate : t.state ≠ .open) : Handles t before := by
  obtain ⟨hstart, hclose, hfilter, hping, -⟩ := h
  refine ⟨hstart.trans hreceived, hclose, ?_, ?_, fun hopen => absurd hopen hstate⟩
  · rw [hhandled, hfilter]
  · rw [hpongs, hping]

/-- A message that comes when the connection is open, and is no close frame. -/
lemma Handles.snoc (h : Handles s before) (hopen : s.state = .open)
    (hclose : m.opcode ≠ frame.opcode.close) (hreceived : t.received = s.received ++ [m])
    (hhandled : t.handled = s.handled ++ [m].filter (fun m => ! frame.opcode.isControl m.opcode))
    (hpongs : (t.writer.pushed.filter (·.opcode = frame.opcode.pong)).map (·.payload) =
      (s.writer.pushed.filter (·.opcode = frame.opcode.pong)).map (·.payload) ++
        ([m].filter (·.opcode = frame.opcode.ping)).map (·.payload)) :
    Handles t t.received := by
  obtain ⟨-, hcloses, hfilter, hping, hall⟩ := h
  obtain rfl := hall hopen
  refine ⟨List.prefix_refl _, ?_, ?_, ?_, fun _ => rfl⟩
  · intro m' hm'
    rw [hreceived, List.mem_append, List.mem_singleton] at hm'
    obtain hm' | rfl := hm'
    · exact hcloses m' hm'
    · exact hclose
  · rw [hhandled, hreceived, List.filter_append, hfilter]
  · rw [hpongs, hreceived, List.filter_append, List.map_append, hping]

/-- A message that is sent and no pong. -/
lemma filter_writePush {w : Writer} {out : Outgoing} (hpong : out.opcode ≠ frame.opcode.pong) :
    (w.writePush out).pushed.filter (·.opcode = frame.opcode.pong) =
      w.pushed.filter (·.opcode = frame.opcode.pong) := by
  rw [Writer.writePush, List.filter_append, List.filter_singleton]
  simp [hpong]

lemma frames_writePush (h : Sound s) {out : Outgoing} (hout : Wellformed out)
    (hclose : out.opcode = frame.opcode.close → out.terminal = true) :
    ∀ m ∈ (s.writer.writePush out).pushed,
      Wellformed m ∧ (m.opcode = frame.opcode.close → m.terminal = true) := by
  intro m hm
  obtain hm | hm := List.mem_append.mp hm
  · exact h.frames m hm
  · rw [List.mem_singleton.mp hm]
    exact ⟨hout, hclose⟩

/-- The connection terminates. -/
lemma Sound.terminate (h : Sound s) : Sound s.terminate where
  messages := h.messages
  handled := by
    obtain ⟨before, hbefore⟩ := h.handled
    exact ⟨before, hbefore.frozen (List.prefix_refl _) rfl rfl nofun⟩
  writer := h.writer
  frames := h.frames
  shutdowns := by
    show (if s.state = .closed then s.shutdowns else s.shutdowns + 1) = 1
    rw [h.shutdowns]
    split_ifs <;> rfl

/-- No more is read, and the connection closes. -/
lemma Sound.stop (h : Sound s) (hinbox : s.reader.inbox = []) :
    Sound { s with reader := .stopped } where
  messages := by
    obtain ⟨fs, part, tail, messages, hbytes, hall, hstands, hmessages⟩ := h.messages
    rw [hinbox] at hmessages
    exact ⟨fs, part, tail, messages, hbytes, hall, hstands.ends, hmessages⟩
  handled := h.handled
  writer := h.writer
  frames := h.frames
  shutdowns := h.shutdowns

lemma Closes.setReader (h : Closes s t) (reader : Reader) :
    Closes { s with reader } { t with reader } := by
  obtain ⟨⟨hprocessor, -, hsending, hbytes, hreceived, hhandled⟩, hstate, hwriter, hshut⟩ := h
  exact ⟨⟨hprocessor, rfl, hsending, hbytes, hreceived, hhandled⟩, hstate, hwriter, hshut⟩

/-- A connection that closes, behind more messages. -/
lemma Sound.of_closes {received : List Message} {reader : Reader} (h : Sound s)
    (hclosed : s.state ≠ .closed) (hstart : s.received <+: received)
    (hmessages : ∃ fs part tail messages, s.bytesRead = fs.flatMap Frame.encode ++ tail ∧
      ReceivesAll rules none fs part messages ∧ Stands s.processor part tail reader ∧
      received ++ reader.inbox = messages.map .of)
    (hcloses : Closes { s with received, reader } t) : Sound t := by
  obtain ⟨⟨hprocessor, hreader, -, hbytes, hreceived, hhandled⟩, hstate, hwriter, hshut⟩ := hcloses
  refine ⟨?_, ?_, ?_, ?_, ?_⟩
  · rw [hprocessor, hreader, hbytes, hreceived]
    exact hmessages
  · obtain ⟨before, hbefore⟩ := h.handled
    refine ⟨before, hbefore.frozen ?_ hhandled ?_ hstate⟩
    · rw [hreceived]
      exact hstart
    · obtain hwriter | ⟨code, reason, hwriter⟩ := hwriter
      · rw [hwriter]
      · rw [hwriter]
        exact filter_writePush (show frame.opcode.close ≠ frame.opcode.pong by decide)
  · obtain hwriter | ⟨code, reason, hwriter⟩ := hwriter
    · rw [hwriter]
      exact h.writer
    · rw [hwriter]
      exact h.writer.writePush _
  · obtain hwriter | ⟨code, reason, hwriter⟩ := hwriter
    · rw [hwriter]
      exact h.frames
    · rw [hwriter]
      exact frames_writePush h (wellformed_closeFrame code reason) fun _ => rfl
  · rw [hshut]
    show s.shutdowns + _ = _
    rw [h.shutdowns, if_neg hclosed, Nat.zero_add]

/-- A message that is handled is one that was received. -/
lemma Sound.messages_dispatch (h : Sound s) {inbox : List Message}
    {failure : Option processor.Error} (hreader : s.reader = .handling (m :: inbox) failure) :
    ∃ fs part tail messages, s.bytesRead = fs.flatMap Frame.encode ++ tail ∧
      ReceivesAll rules none fs part messages ∧
      Stands s.processor part tail (.handling inbox failure) ∧
      s.received ++ [m] ++ inbox = messages.map .of := by
  obtain ⟨fs, part, tail, messages, hbytes, hall, hstands, hmessages⟩ := h.messages
  rw [hreader] at hstands hmessages
  refine ⟨fs, part, tail, messages, hbytes, hall, hstands.handling, ?_⟩
  rw [List.append_assoc]
  exact hmessages

/-- One message. -/
lemma Sound.dispatch (h : Sound s) {inbox : List Message} {failure : Option processor.Error}
    (hreader : s.reader = .handling (m :: inbox) failure) :
    Sound { s.dispatch m with reader := .handling inbox failure } := by
  have hmessages := h.messages_dispatch hreader
  obtain ⟨before, hbefore⟩ := h.handled
  have hcontrolOf {op : UInt8} (hop : m.opcode = op) :
      frame.opcode.isControl m.opcode = frame.opcode.isControl op := by rw [hop]
  cases dispatch_dispatched (s := s) (h.length_le hreader) with
  | handled hopen hcontrol ht =>
      have hclose : m.opcode ≠ frame.opcode.close := by
        intro hop
        cases hcontrol.symm.trans (hcontrolOf hop)
      have hping : m.opcode ≠ frame.opcode.ping := by
        intro hop
        cases hcontrol.symm.trans (hcontrolOf hop)
      rw [ht]
      refine ⟨hmessages, ⟨_, hbefore.snoc hopen hclose rfl ?_ ?_⟩, h.writer, h.frames, h.shutdowns⟩
      · simp [hcontrol]
      · simp [hping]
  | ponged hopen hping ht =>
      have hclose : m.opcode ≠ frame.opcode.close := by
        rw [hping]
        decide
      have hcontrol : frame.opcode.isControl m.opcode = true := hcontrolOf hping
      rw [ht]
      refine ⟨hmessages, ⟨_, hbefore.snoc hopen hclose rfl ?_ ?_⟩, h.writer.writePush _, ?_,
        h.shutdowns⟩
      · simp [hcontrol]
      · simp [hping, Writer.writePush, Outgoing.new, List.filter_append]
      · exact frames_writePush h (wellformed_new .pong nofun) nofun
  | ignored ht hother =>
      rw [ht]
      refine ⟨hmessages, ?_, h.writer, h.frames, h.shutdowns⟩
      by_cases hopen : s.state = .open
      · obtain ⟨hcontrol, hping, hclose⟩ := hother hopen
        refine ⟨_, hbefore.snoc hopen hclose rfl ?_ ?_⟩
        · simp [hcontrol]
        · simp [hping]
      · exact ⟨before, hbefore.frozen (List.prefix_append _ _) rfl rfl hopen⟩
  | closes hclosed hclose hcloses =>
      exact h.of_closes hclosed (List.prefix_append _ _) hmessages (hcloses.setReader _)

/-- The end of a read. -/
lemma Sound.endRead (h : Sound s) {failure : Option processor.Error}
    (hreader : s.reader = .handling [] failure) : Sound (s.endRead failure) := by
  obtain ⟨fs, part, tail, messages, hbytes, hall, hstands, hmessages⟩ := h.messages
  rw [hreader] at hstands hmessages
  cases failure with
  | none =>
      exact ⟨⟨fs, part, tail, messages, hbytes, hall, hstands, hmessages⟩, h.handled, h.writer,
        h.frames, h.shutdowns⟩
  | some ec =>
      obtain ⟨-, ⟨-, -, hend⟩ | ⟨hopen, hcloses⟩⟩ := endRead_some (s := s) ec
      · rw [hend]
        exact h.terminate.stop (by rw [show s.terminate.reader = s.reader from rfl, hreader]; rfl)
      · have hstands' : Stands s.processor part tail .stopped := hstands.ends
        refine h.of_closes ?_ (List.prefix_refl _)
          ⟨fs, part, tail, messages, hbytes, hall, hstands', hmessages⟩ hcloses
        rw [hopen]
        exact nofun

/-- One read. -/
lemma Sound.read (h : Sound s) (hreader : s.reader = .waiting) (chunk : List UInt8) :
    Sound { s with
      bytesRead := s.bytesRead ++ chunk
      processor := (readFrame s.processor chunk).after
      reader := .handling (readFrame s.processor chunk).messages
        (readFrame s.processor chunk).error } := by
  obtain ⟨fs, part, tail, messages, hbytes, hall, hstands, hmessages⟩ := h.messages
  rw [hreader] at hstands hmessages
  have hreceived : s.received = messages.map .of := by
    rw [← hmessages]
    exact (List.append_nil _).symm
  refine ⟨?_, h.handled, h.writer, h.frames, h.shutdowns⟩
  cases readFrame_reads chunk hstands.1 hstands.2 with
  | fails fs' part' tail' messages' herror hall' hmap hmore hrefused =>
      refine ⟨fs ++ fs', part', tail', messages ++ messages', ?_, hall.append hall', ?_, ?_⟩
      · show s.bytesRead ++ chunk = _
        rw [hbytes, List.append_assoc, hmore, List.flatMap_append, List.append_assoc]
      · cases hec : (readFrame s.processor chunk).error with
        | none => exact absurd hec herror
        | some ec => exact hrefused
      · show s.received ++ _ = _
        rw [hreceived, List.map_append, ← hmap]
        rfl
  | stays fs' part' behind messages' hok hneeded hall' hmap hmore hbehind =>
      refine ⟨fs ++ fs', part', behind, messages ++ messages', ?_, hall.append hall', ?_, ?_⟩
      · show s.bytesRead ++ chunk = _
        rw [hbytes, List.append_assoc, hmore, List.flatMap_append, List.append_assoc]
      · rw [hok]
        exact ⟨hbehind, hneeded⟩
      · show s.received ++ _ = _
        rw [hreceived, List.map_append, ← hmap]
        rfl

/-- What the application sends. -/
lemma Sound.endSend (h : Sound s) (payload : List UInt8) (op : neuserver.Opcode) :
    Sound (s.endSend payload op) := by
  obtain ⟨op', hop', hkind⟩ : ∃ op' : WebSocket.Opcode, Session.opcodeOf op = op'.code ∧
      (op' = .text ∨ op' = .binary) := by
    cases op with
    | text => exact ⟨.text, rfl, .inl rfl⟩
    | binary => exact ⟨.binary, rfl, .inr rfl⟩
  have hcontrol : op'.isControl = false := by
    obtain rfl | rfl := hkind <;> rfl
  have hpong : op'.code ≠ frame.opcode.pong ∧ op'.code ≠ frame.opcode.close := by
    obtain rfl | rfl := hkind <;> decide
  rw [Session.endSend, hop', prepareDataFrame, frame.isControl_code, hcontrol]
  simp only [Bool.false_eq_true, if_false]
  split_ifs with hinvalid
  · exact h
  · have htext (hop : op' = .text) : IsText payload := by
      rw [← utf8_validator.validate_iff]
      by_contra hnot
      exact hinvalid ⟨frame.code_eq_text.mpr hop, hnot⟩
    obtain ⟨before, hbefore⟩ := h.handled
    refine ⟨h.messages, ⟨before, hbefore.1, hbefore.2.1, hbefore.2.2.1, ?_, hbefore.2.2.2.2⟩,
      h.writer.writePush _, frames_writePush h (wellformed_new _ htext) ?_, h.shutdowns⟩
    · have hkeep := filter_writePush (w := s.writer)
        (show (Outgoing.new op'.code payload).opcode ≠ frame.opcode.pong from hpong.1)
      rw [← hbefore.2.2.2.1]
      exact congrArg (List.map (·.payload)) hkeep
    · exact fun hclose => absurd hclose hpong.2

/-- What is pushed stays, while it is written. -/
lemma Sound.setWriter {w : Writer} (h : Sound s) (hw : w.Sound)
    (hpushed : w.pushed = s.writer.pushed) : Sound { s with writer := w } := by
  obtain ⟨before, hstart, hclose, hfilter, hping, hall⟩ := h.handled
  refine ⟨h.messages, ⟨before, hstart, hclose, hfilter, ?_, hall⟩, hw, ?_, h.shutdowns⟩
  · show (w.pushed.filter _).map _ = _
    rw [hpushed]
    exact hping
  · show ∀ m ∈ w.pushed, _
    rw [hpushed]
    exact h.frames

/-- A write begins. -/
lemma Sound.writeFrame (h : Sound s) : Sound { s with writer := s.writer.writeFrame } :=
  h.setWriter h.writer.writeFrame Writer.pushed_writeFrame

/-- The end of a write. -/
lemma Sound.written (h : Sound s) (hwriting : s.writer.currentMsgs ≠ []) (failed : Bool) :
    Sound { s with writer := (s.writer.handleWriteFrame failed).1 } :=
  h.setWriter (h.writer.handleWriteFrame hwriting failed) (Writer.pushed_handleWriteFrame failed)

/-- **What one step keeps.** -/
lemma Sound.step {event : SessionEvent} (h : Sound s) (hstep : SessionStep s event t) :
    Sound t := by
  cases hstep with
  | read chunk hreader => exact h.read hreader chunk
  | dispatch m inbox failure hreader => exact h.dispatch hreader
  | endRead failure hreader => exact h.endRead hreader
  | readFailed hreader =>
      exact h.terminate.stop (by rw [show s.terminate.reader = s.reader from rfl, hreader]; rfl)
  | beginSend payload op _ => exact ⟨h.messages, h.handled, h.writer, h.frames, h.shutdowns⟩
  | endSend payload op before after _ =>
      have hsend := h.endSend payload op
      exact ⟨hsend.messages, hsend.handled, hsend.writer, hsend.frames, hsend.shutdowns⟩
  | writeFrame => exact h.writeFrame
  | written failed hwriting =>
      dsimp only
      split_ifs
      · exact (h.written hwriting failed).terminate
      · exact h.written hwriting failed
  | closeTimeout _ => exact h.terminate

end Invariant

/-- **Along every run**, the messages are those of the frames, the handler is called with each of
them up to the first close frame, and what is written is a sequence of whole frames in the order
in which they were sent, of which a close frame is the last.  The connection speaks version 13 of
the protocol, `hybi13`. -/
theorem session_orderly {trace : List (SessionEvent × Session)} (h : Run SessionStep {} trace) :
    ∀ x ∈ trace, Orderly x.2 := fun x hx =>
  (h.invariant (fun _ _ _ hs hstep => hs.step hstep) sound_new x hx).orderly

/-- A connection on which a ping comes in, and is answered. -/
theorem session_orderly_ping : ∃ s, Orderly s ∧ s.received = [⟨0x9, [0x68, 0x69]⟩] ∧
    s.writer.written.map (·.bytes) = [[0x8A, 0x02, 0x68, 0x69]] := by
  let chunk : List UInt8 := [0x89, 0x82, 1, 2, 3, 4, 0x69, 0x6B]
  let ping : Message := ⟨0x9, [0x68, 0x69]⟩
  let s₁ : Session := {
    bytesRead := chunk
    processor := (readFrame {} chunk).after
    reader := .handling (readFrame {} chunk).messages (readFrame {} chunk).error }
  let s₂ : Session := { s₁.dispatch ping with reader := .handling [] none }
  let s₃ : Session := { s₂ with writer := s₂.writer.writeFrame }
  have hread : (readFrame {} chunk).messages = [ping] ∧ (readFrame {} chunk).error = none := by
    decide +kernel
  have hreader : s₁.reader = .handling [ping] none := by
    show Reader.handling _ _ = _
    rw [hread.1, hread.2]
  have hrun : Run SessionStep {} [(.read chunk, s₁), (.dispatch ping, s₂), (.writeFrame, s₃)] :=
    .cons (.read {} chunk rfl) (.cons (.dispatch s₁ ping [] none hreader)
      (.cons (.writeFrame s₂) (.nil s₃)))
  exact ⟨s₃, session_orderly hrun (.writeFrame, s₃) (by simp), by decide +kernel,
    by decide +kernel⟩

end Neutralino.websocketpp.connection
