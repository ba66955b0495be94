import Neutralino.Server.Frames
import Neutralino.Server.Utf8Validator

/-!
The reader of a WebSocket: the messages in the bytes that a client sends, in whatever portions
they come. No extension was negotiated, and the server is the receiver.

* `Processor`, `Processor.round`, `Processor.consume`: the state machine of `hybi13`, one round
  of its loop, and the loop.
* `Processor.getMessage`, `Processor.resetHeaders`: what follows a message.
* `readFrame`: the loop of `handle_read_frame` over the bytes of one read.
* `readAll`: the reads of a connection.
-/

namespace Neutralino.websocketpp.processor

open frame
open utf8_validator (Validator)

/-- The codes in `processor::error` that reading and writing frames give. -/
inductive Error where
  | general
  | messageTooBig
  | invalidPayload
  | invalidOpcode
  | controlTooBig
  | invalidRsvBit
  | fragmentedControl
  | invalidContinuation
  | maskingRequired
  | maskingForbidden
  | nonMinimalEncoding
  | invalidUtf8
  | reservedCloseCode
  | invalidCloseCode
  | reasonRequiresCode
  deriving DecidableEq

namespace Error

/-- `processor_category::message`. -/
def message : Error → String
  | general => "Generic processor error"
  | messageTooBig => "A message was too large"
  | invalidPayload => "A payload contained invalid data"
  | invalidOpcode => "invalid opcode"
  | controlTooBig => "Control messages are limited to fewer than 125 characters"
  | invalidRsvBit => "Invalid use of reserved bits"
  | fragmentedControl => "Control messages cannot be fragmented"
  | invalidContinuation => "Invalid message continuation"
  | maskingRequired => "Clients may not send unmasked frames"
  | maskingForbidden => "Servers may not send masked frames"
  | nonMinimalEncoding => "Payload length was not minimally encoded"
  | invalidUtf8 => "Invalid UTF8 encoding"
  | reservedCloseCode => "Reserved close code used"
  | invalidCloseCode => "Invalid close code used"
  | reasonRequiresCode => "Using a close reason requires a valid close code"

end Error

/-- `state`, without the two that are never entered. -/
inductive State where
  | headerBasic
  | headerExtended
  | application
  | ready
  deriving DecidableEq

/-- A message: its opcode and its raw payload. -/
structure Message where
  opcode : UInt8
  payload : List UInt8 := []
  deriving DecidableEq

/-- `msg_metadata`. -/
structure MsgMetadata where
  msgPtr : Option Message := none
  preparedKey : ℕ := 0
  validator : Validator := {}

/-- `msg_metadata` of a message and a masking key. -/
def MsgMetadata.new (m : Message) (key : WebSocket.Key) : MsgMetadata :=
  { msgPtr := some m, preparedKey := prepareMaskingKey key }

/-- What `m_current_msg` points to. -/
inductive Current where
  | data
  | control
  deriving DecidableEq

/-- `hybi13`. -/
structure Processor where
  state : State := .headerBasic
  bytesNeeded : ℕ := basicHeaderLength
  cursor : ℕ := 0
  basicHeader : BasicHeader := {}
  extendedHeader : ExtendedHeader := {}
  dataMsg : MsgMetadata := {}
  controlMsg : MsgMetadata := {}
  currentMsg : Current := .data

/-- What is left of a buffer, and the error. -/
structure Consumed where
  after : Processor
  rest : List UInt8
  error : Option Error := none

/-- `m_max_message_size`. -/
def maxMessageSize : ℕ := 32000000

/-! ### Headers -/

/-- `validate_incoming_basic_header`. -/
def validateIncomingBasicHeader (h : BasicHeader) (isServer newMsg : Bool) : Option Error :=
  let op := getOpcode h
  if opcode.isControl op ∧ getBasicSize h > limits.payloadSizeBasic then some .controlTooBig
  else if getRsv1 h then some .invalidRsvBit
  else if getRsv2 h ∨ getRsv3 h then some .invalidRsvBit
  else if opcode.reserved op then some .invalidOpcode
  else if opcode.invalid op then some .invalidOpcode
  else if opcode.isControl op ∧ ¬ getFin h then some .fragmentedControl
  else if newMsg ∧ op = opcode.continuation then some .invalidContinuation
  else if ¬ newMsg ∧ ¬ opcode.isControl op ∧ op ≠ opcode.continuation then
    some .invalidContinuation
  else if isServer ∧ ¬ getMasked h then some .maskingRequired
  else if ¬ isServer ∧ getMasked h then some .maskingForbidden
  else none

/-- `validate_incoming_extended_header`. -/
def validateIncomingExtendedHeader (h : BasicHeader) (e : ExtendedHeader) : Option Error :=
  let basicSize := getBasicSize h
  let payloadSize := getPayloadSize h e
  if basicSize = payloadSizeCode16bit ∧ payloadSize ≤ limits.payloadSizeBasic then
    some .nonMinimalEncoding
  else if basicSize = payloadSizeCode64bit ∧ payloadSize ≤ limits.payloadSizeExtended then
    some .nonMinimalEncoding
  else none

namespace Processor

variable (p : Processor)

/-- `reset_headers`. -/
def resetHeaders : Processor :=
  { p with
    state := .headerBasic
    bytesNeeded := basicHeaderLength
    basicHeader := {}
    extendedHeader := {} }

/-- `copy_basic_header_bytes`, with what is left of the buffer. -/
def copyBasicHeaderBytes (buf : List UInt8) : Processor × List UInt8 :=
  match buf with
  | [] => (p, [])
  | b :: rest =>
      if p.bytesNeeded = 0 then (p, b :: rest)
      else if p.bytesNeeded = 2 then
        match rest with
        | b' :: rest =>
            ({ p with basicHeader := ⟨b, b'⟩, bytesNeeded := p.bytesNeeded - 2 }, rest)
        | [] =>
            ({ p with
              basicHeader := { p.basicHeader with b0 := b }
              bytesNeeded := p.bytesNeeded - 1 }, [])
      else
        ({ p with
          basicHeader := { p.basicHeader with b1 := b }
          bytesNeeded := p.bytesNeeded - 1 }, rest)

/-- `copy_extended_header_bytes`, with what is left of the buffer. -/
def copyExtendedHeaderBytes (buf : List UInt8) : Processor × List UInt8 :=
  let bytesToRead := min p.bytesNeeded buf.length
  let bytes := p.extendedHeader.bytes
  ({ p with
    extendedHeader := ⟨bytes.take p.cursor ++
      (buf.take bytesToRead ++ bytes.drop (p.cursor + bytesToRead))⟩
    cursor := p.cursor + bytesToRead
    bytesNeeded := p.bytesNeeded - bytesToRead }, buf.drop bytesToRead)

/-! ### Payloads -/

/-- `*m_current_msg`. -/
def current : MsgMetadata :=
  match p.currentMsg with
  | .data => p.dataMsg
  | .control => p.controlMsg

/-- `*m_current_msg = m`. -/
def setCurrent (m : MsgMetadata) : Processor :=
  match p.currentMsg with
  | .data => { p with dataMsg := m }
  | .control => { p with controlMsg := m }

/-- The message that a frame belongs to, from its headers on. -/
def startPayload : Processor × Option Error :=
  let op := getOpcode p.basicHeader
  let needed := getPayloadSize p.basicHeader p.extendedHeader
  let key := getMaskingKey p.basicHeader p.extendedHeader
  let p := { p with state := .application, bytesNeeded := needed }
  if opcode.isControl op then
    ({ p with controlMsg := .new { opcode := op } key, currentMsg := .control }, none)
  else
    match p.dataMsg.msgPtr with
    | none =>
        if needed > maxMessageSize then (p, some .messageTooBig)
        else ({ p with dataMsg := .new { opcode := op } key, currentMsg := .data }, none)
    | some out =>
        if (out.payload.length + needed) % 2 ^ 64 > maxMessageSize then (p, some .messageTooBig)
        else
          ({ p with
            dataMsg := { p.dataMsg with preparedKey := prepareMaskingKey key }
            currentMsg := .data }, none)

/-- `process_payload_bytes` of all bytes of a buffer. The pointer of the current message is not
null while a payload is read. -/
def processPayloadBytes (buf : List UInt8) : Processor × Option Error :=
  let m := p.current
  let (bytes, key) := if getMasked p.basicHeader then byteMaskCirc buf m.preparedKey
    else (buf, m.preparedKey)
  let msgPtr := m.msgPtr.map fun out => { out with payload := out.payload ++ bytes }
  let m := { m with msgPtr, preparedKey := key }
  if m.msgPtr.any (·.opcode = opcode.text) then
    let (validator, valid) := m.validator.decode bytes
    let p := p.setCurrent { m with validator }
    if valid then ({ p with bytesNeeded := p.bytesNeeded - buf.length }, none)
    else (p, some .invalidUtf8)
  else
    let p := p.setCurrent m
    ({ p with bytesNeeded := p.bytesNeeded - buf.length }, none)

/-- `finalize_message`. -/
def finalizeMessage : Processor × Option Error :=
  if getOpcode p.basicHeader = opcode.text ∧ ¬ p.current.validator.complete then
    (p, some .invalidUtf8)
  else ({ p with state := .ready }, none)

/-- What follows the last byte of a payload. -/
def endPayload : Processor × Option Error :=
  if getFin p.basicHeader then p.finalizeMessage else (p.resetHeaders, none)

/-! ### The loop -/

/-- What follows the last byte of a basic header. -/
def endBasicHeader (rest : List UInt8) : Consumed :=
  match validateIncomingBasicHeader p.basicHeader true p.dataMsg.msgPtr.isNone with
  | some ec => ⟨p, rest, some ec⟩
  | none =>
      ⟨{ p with
        state := .headerExtended
        cursor := 0
        bytesNeeded := getHeaderLen p.basicHeader - basicHeaderLength }, rest, none⟩

/-- The round of `HEADER_BASIC`. -/
def readBasicHeader (buf : List UInt8) : Consumed :=
  let (p, rest) := p.copyBasicHeaderBytes buf
  if p.bytesNeeded > 0 then ⟨p, rest, none⟩ else p.endBasicHeader rest

/-- What follows the last byte of an extended header. -/
def endExtendedHeader (rest : List UInt8) : Consumed :=
  match validateIncomingExtendedHeader p.basicHeader p.extendedHeader with
  | some ec => ⟨p, rest, some ec⟩
  | none => ⟨p.startPayload.1, rest, p.startPayload.2⟩

/-- The round of `HEADER_EXTENDED`. -/
def readExtendedHeader (buf : List UInt8) : Consumed :=
  let (p, rest) := p.copyExtendedHeaderBytes buf
  if p.bytesNeeded > 0 then ⟨p, rest, none⟩ else p.endExtendedHeader rest

/-- What `APPLICATION` makes of the bytes that are there. -/
def takePayload (bytes : List UInt8) : Processor × Option Error :=
  if bytes = [] then (p, none) else p.processPayloadBytes bytes

/-- The round of `APPLICATION`. -/
def readPayload (buf : List UInt8) : Consumed :=
  let bytesToProcess := min p.bytesNeeded buf.length
  let (p, ec) := p.takePayload (buf.take bytesToProcess)
  match ec with
  | some ec => ⟨p, buf, some ec⟩
  | none =>
      if p.bytesNeeded > 0 then ⟨p, buf.drop bytesToProcess, none⟩
      else ⟨p.endPayload.1, buf.drop bytesToProcess, p.endPayload.2⟩

/-- One round of the loop in `consume`. -/
def round (buf : List UInt8) : Consumed :=
  match p.state with
  | .headerBasic => p.readBasicHeader buf
  | .headerExtended => p.readExtendedHeader buf
  | .application => p.readPayload buf
  | .ready => ⟨p, buf, some .general⟩

/-- Whether the loop in `consume` goes on. -/
def Continues (buf : List UInt8) : Prop := p.state ≠ .ready ∧ (buf ≠ [] ∨ p.bytesNeeded = 0)

instance (buf : List UInt8) : Decidable (p.Continues buf) := by
  unfold Continues
  infer_instance

/-- The rounds that may come without a byte. -/
def rank : ℕ :=
  match p.state with
  | .headerBasic => if p.bytesNeeded = 0 then 4 else 0
  | .headerExtended => 3
  | .application => 2
  | .ready => 1

/-- A bound of the rounds to come. -/
def weight (buf : List UInt8) : ℕ := 5 * buf.length + p.rank

variable {p} {buf : List UInt8}

lemma rank_le : p.rank ≤ 4 := by
  rw [rank]
  split
  · split_ifs <;> decide
  all_goals decide

lemma weight_lt_of_length_lt {q : Processor} {rest : List UInt8} (h : rest.length < buf.length) :
    q.weight rest < p.weight buf := by
  have hrank : q.rank ≤ 4 := rank_le
  rw [weight, weight]
  omega

lemma weight_lt_of_rank_lt {q : Processor} {rest : List UInt8} (h : rest.length ≤ buf.length)
    (hrank : q.rank < p.rank) : q.weight rest < p.weight buf := by
  rw [weight, weight]
  omega

/-- Copying takes a byte, if there is one and one is needed. -/
lemma copyBasicHeaderBytes_length (p : Processor) (hbuf : buf ≠ []) (hneeded : p.bytesNeeded ≠ 0) :
    (p.copyBasicHeaderBytes buf).2.length < buf.length := by
  cases buf with
  | nil => exact absurd rfl hbuf
  | cons b rest =>
      simp only [copyBasicHeaderBytes, if_neg hneeded]
      split_ifs with htwo
      · cases rest with
        | nil => exact Nat.zero_lt_one
        | cons b' rest => simp only [List.length_cons]; omega
      · exact Nat.lt_succ_self _

lemma copyBasicHeaderBytes_zero (p : Processor) (hneeded : p.bytesNeeded = 0) :
    p.copyBasicHeaderBytes buf = (p, buf) := by
  cases buf with
  | nil => rfl
  | cons b rest => simp only [copyBasicHeaderBytes, if_pos hneeded]

@[simp] lemma endBasicHeader_rest (p : Processor) (rest : List UInt8) :
    (p.endBasicHeader rest).rest = rest := by
  simp only [endBasicHeader]
  split <;> rfl

@[simp] lemma endExtendedHeader_rest (p : Processor) (rest : List UInt8) :
    (p.endExtendedHeader rest).rest = rest := by
  simp only [endExtendedHeader]
  split <;> rfl

lemma endBasicHeader_rank {rest : List UInt8} (hok : (p.endBasicHeader rest).error = none) :
    (p.endBasicHeader rest).after.rank = 3 := by
  simp only [endBasicHeader] at hok ⊢
  split at hok
  · cases hok
  · rfl

lemma readBasicHeader_weight_lt (hstate : p.state = .headerBasic)
    (h : buf ≠ [] ∨ p.bytesNeeded = 0) (hok : (p.readBasicHeader buf).error = none) :
    (p.readBasicHeader buf).after.weight (p.readBasicHeader buf).rest < p.weight buf := by
  by_cases hneeded : p.bytesNeeded = 0
  · have hrank : p.rank = 4 := by rw [rank, hstate]; exact if_pos hneeded
    simp only [readBasicHeader, copyBasicHeaderBytes_zero p hneeded, hneeded, gt_iff_lt,
      lt_irrefl, if_false] at hok ⊢
    refine weight_lt_of_rank_lt (by rw [endBasicHeader_rest]) ?_
    rw [hrank, endBasicHeader_rank hok]
    exact Nat.lt_succ_self 3
  · refine weight_lt_of_length_lt ?_
    have hrest : (p.readBasicHeader buf).rest = (p.copyBasicHeaderBytes buf).2 := by
      simp only [readBasicHeader]
      split_ifs
      · rfl
      · exact endBasicHeader_rest _ _
    rw [hrest]
    exact copyBasicHeaderBytes_length p (h.resolve_right hneeded) hneeded

lemma startPayload_rank (p : Processor) : p.startPayload.1.rank = 2 := by
  have hstate : p.startPayload.1.state = .application := by
    cases hmsg : p.dataMsg.msgPtr <;> simp only [startPayload, hmsg] <;> split_ifs <;> rfl
  rw [rank, hstate]

lemma length_drop_lt {k : ℕ} (hbuf : buf ≠ []) (hk : k ≠ 0) :
    (buf.drop (min k buf.length)).length < buf.length := by
  have hpos : 0 < buf.length := List.length_pos_iff.mpr hbuf
  rw [List.length_drop]
  omega

lemma endExtendedHeader_rank {rest : List UInt8} (hok : (p.endExtendedHeader rest).error = none) :
    (p.endExtendedHeader rest).after.rank = 2 := by
  simp only [endExtendedHeader] at hok ⊢
  split at hok
  · cases hok
  · exact startPayload_rank p

lemma readExtendedHeader_weight_lt (hstate : p.state = .headerExtended)
    (h : buf ≠ [] ∨ p.bytesNeeded = 0) (hok : (p.readExtendedHeader buf).error = none) :
    (p.readExtendedHeader buf).after.weight (p.readExtendedHeader buf).rest < p.weight buf := by
  have hrest : (p.readExtendedHeader buf).rest = buf.drop (min p.bytesNeeded buf.length) := by
    simp only [readExtendedHeader]
    split_ifs
    · rfl
    · exact endExtendedHeader_rest _ _
  by_cases hneeded : p.bytesNeeded = 0
  · refine weight_lt_of_rank_lt (by rw [hrest, List.length_drop]; omega) ?_
    have hrank : p.rank = 3 := by rw [rank, hstate]
    have hzero : (p.copyExtendedHeaderBytes buf).1.bytesNeeded = 0 := by
      show p.bytesNeeded - _ = 0
      omega
    simp only [readExtendedHeader, hzero, gt_iff_lt, lt_irrefl, if_false] at hok ⊢
    rw [endExtendedHeader_rank hok, hrank]
    exact Nat.lt_succ_self 2
  · refine weight_lt_of_length_lt ?_
    rw [hrest]
    exact length_drop_lt (h.resolve_right hneeded) hneeded

lemma endPayload_rank (p : Processor) (hok : p.endPayload.2 = none) : p.endPayload.1.rank ≤ 1 := by
  simp only [endPayload] at hok ⊢
  split_ifs at hok ⊢
  · simp only [finalizeMessage] at hok ⊢
    split_ifs at hok ⊢
    exact le_rfl
  · exact Nat.zero_le 1

lemma readPayload_weight_lt (hstate : p.state = .application)
    (h : buf ≠ [] ∨ p.bytesNeeded = 0) (hok : (p.readPayload buf).error = none) :
    (p.readPayload buf).after.weight (p.readPayload buf).rest < p.weight buf := by
  by_cases hneeded : p.bytesNeeded = 0
  · have hrank : p.rank = 2 := by rw [rank, hstate]
    have htake : p.takePayload [] = (p, none) := rfl
    simp only [readPayload, hneeded, Nat.zero_min, List.take_zero, htake, gt_iff_lt, lt_irrefl,
      if_false, List.drop_zero] at hok ⊢
    refine weight_lt_of_rank_lt le_rfl ?_
    rw [hrank]
    exact Nat.lt_succ_of_le (endPayload_rank p hok)
  · refine weight_lt_of_length_lt ?_
    have hrest : (p.readPayload buf).rest = buf.drop (min p.bytesNeeded buf.length) := by
      simp only [readPayload] at hok ⊢
      split at hok
      · cases hok
      · split_ifs <;> rfl
    rw [hrest]
    exact length_drop_lt (h.resolve_right hneeded) hneeded

/-- A round without an error takes a byte or comes nearer to the end of a frame. -/
lemma round_weight_lt (h : p.Continues buf) (hok : (p.round buf).error = none) :
    (p.round buf).after.weight (p.round buf).rest < p.weight buf := by
  obtain ⟨hready, hmore⟩ := h
  rw [round] at hok ⊢
  cases hstate : p.state with
  | headerBasic =>
      rw [hstate] at hok
      exact readBasicHeader_weight_lt hstate hmore hok
  | headerExtended =>
      rw [hstate] at hok
      exact readExtendedHeader_weight_lt hstate hmore hok
  | application =>
      rw [hstate] at hok
      exact readPayload_weight_lt hstate hmore hok
  | ready => exact absurd hstate hready

/-- The loop of `consume`. -/
def consume (p : Processor) (buf : List UInt8) : Consumed :=
  if p.Continues buf then
    if (p.round buf).error = none then
      consume (p.round buf).after (p.round buf).rest
    else p.round buf
  else ⟨p, buf, none⟩
termination_by p.weight buf
decreasing_by exact round_weight_lt ‹_› ‹_›

/-- `get_message`, with the processor behind it. -/
def getMessage (p : Processor) : Option Message × Processor :=
  if p.state ≠ .ready then (none, p)
  else
    let ret := p.current.msgPtr
    let p := p.setCurrent { p.current with msgPtr := none }
    if ret.any (opcode.isControl ·.opcode) then
      (ret, { p with controlMsg := { p.controlMsg with msgPtr := none } }.resetHeaders)
    else (ret, { p with dataMsg := { p.dataMsg with msgPtr := none } }.resetHeaders)

lemma consume_weight_le (hok : (p.consume buf).error = none) :
    (p.consume buf).after.weight (p.consume buf).rest ≤ p.weight buf := by
  induction p, buf using consume.induct with
  | case1 p buf h hround ih =>
      rw [consume, if_pos h, if_pos hround] at hok ⊢
      exact (ih hok).trans (round_weight_lt h hround).le
  | case2 p buf h hround =>
      rw [consume, if_pos h, if_neg hround] at hok
      exact absurd hok hround
  | case3 p buf h => rw [consume, if_neg h]

/-- What is not ready behind bytes has taken some. -/
lemma consume_weight_lt (hbuf : buf ≠ []) (hok : (p.consume buf).error = none)
    (hready : (p.consume buf).after.state ≠ .ready) :
    (p.consume buf).after.weight (p.consume buf).rest < p.weight buf := by
  by_cases hstate : p.state = .ready
  · rw [consume, if_neg (fun hcontinues => hcontinues.1 hstate)] at hready
    exact absurd hstate hready
  · have h : p.Continues buf := ⟨hstate, .inl hbuf⟩
    rw [consume, if_pos h] at hok ⊢
    split_ifs at hok ⊢ with hround
    · exact (consume_weight_le hok).trans_lt (round_weight_lt h hround)
    · exact absurd hok hround

/-- A message that is taken leaves fewer rounds. -/
lemma getMessage_weight_lt (hok : (p.consume buf).error = none)
    (hready : (p.consume buf).after.state = .ready) :
    (p.consume buf).after.getMessage.2.weight (p.consume buf).rest < p.weight buf := by
  refine lt_of_lt_of_le (weight_lt_of_rank_lt le_rfl ?_) (consume_weight_le hok)
  rw [show (p.consume buf).after.rank = 1 by rw [rank, hready]]
  simp only [getMessage, hready, ne_eq, not_true_eq_false, if_false]
  split_ifs <;> exact Nat.zero_lt_one

end Processor

/-! ### The reads of a connection -/

/-- What reading leaves: the messages that were dispatched, and the error that ends it. -/
structure Read where
  after : Processor
  messages : List Message := []
  error : Option Error := none

open Processor in
/-- The loop of `handle_read_frame` over the bytes of one read. -/
def readFrame (p : Processor) (buf : List UInt8) : Read :=
  if buf = [] then { after := p }
  else if (p.consume buf).error = none then
    if (p.consume buf).after.state = .ready then
      let msg := (p.consume buf).after.getMessage.1
      let r := readFrame (p.consume buf).after.getMessage.2 (p.consume buf).rest
      { r with messages := msg.toList ++ r.messages }
    else readFrame (p.consume buf).after (p.consume buf).rest
  else { after := (p.consume buf).after, error := (p.consume buf).error }
termination_by p.weight buf
decreasing_by
  · exact getMessage_weight_lt ‹_› ‹_›
  · exact consume_weight_lt ‹_› ‹_› ‹_›

/-- The reads of a connection, of which none follows an error. -/
def readAll (p : Processor) : List (List UInt8) → Read
  | [] => { after := p }
  | buf :: bufs =>
      let r := readFrame p buf
      if r.error.isSome then r
      else
        let r' := readAll r.after bufs
        { r' with messages := r.messages ++ r'.messages }

end Neutralino.websocketpp.processor
