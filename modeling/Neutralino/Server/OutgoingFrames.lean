import Neutralino.Server.FrameReader

/-!
The frames that the server sends, and the codes of a close frame.

* `close.status`, `close.extractCode`, `close.extractReason`: the codes, and what is read of the
  payload of a close frame.
* `Outgoing`, `prepareDataFrame`, `prepareControl`, `preparePong`, `prepareClose`: frames that are
  ready to be written.
* `prepareHeader_new`: **the header of a frame** is that of its length and opcode.
* `prepareControl_of_le`, `prepareClose_of_valid`: what is prepared, and of what.
-/

namespace Neutralino.websocketpp

/-! ### Close codes -/

namespace close

namespace status

/-- `blank`. -/
def blank : ℕ := 0

/-- `normal`. -/
def normal : ℕ := 1000

/-- `protocol_error`. -/
def protocolError : ℕ := 1002

/-- `no_status`. -/
def noStatus : ℕ := 1005

/-- `abnormal_close`. -/
def abnormalClose : ℕ := 1006

/-- `invalid_payload`. -/
def invalidPayload : ℕ := 1007

/-- `policy_violation`. -/
def policyViolation : ℕ := 1008

/-- `message_too_big`. -/
def messageTooBig : ℕ := 1009

/-- `internal_endpoint_error`. -/
def internalEndpointError : ℕ := 1011

/-- `tls_handshake`. -/
def tlsHandshake : ℕ := 1015

/-- `reserved`, with `rsv_start` and `rsv_end`. -/
def reserved (code : ℕ) : Bool := (1016 ≤ code && code ≤ 2999) || code == 1004

/-- `invalid`, with `invalid_low` and `invalid_high`. -/
def invalid (code : ℕ) : Bool :=
  code ≤ 999 || code ≥ 5000 || code == noStatus || code == abnormalClose || code == tlsHandshake

/-- `terminal`. -/
def terminal (code : ℕ) : Bool :=
  code == protocolError || code == invalidPayload || code == policyViolation ||
    code == messageTooBig || code == internalEndpointError

end status

/-- What is wrong with the payload of a close frame. -/
inductive Error where
  | badCloseCode
  | invalidCloseCode
  | reservedCloseCode
  | invalidUtf8
  deriving DecidableEq

/-- `extract_code`. -/
def extractCode (payload : List UInt8) : ℕ × Option Error :=
  if payload.length = 0 then (status.noStatus, none)
  else if payload.length = 1 then (status.protocolError, some .badCloseCode)
  else
    let code := WebSocket.ofBigEndian (payload.take 2)
    (code, if status.reserved code then some .reservedCloseCode
      else if status.invalid code then some .invalidCloseCode
      else none)

/-- `extract_reason`. -/
def extractReason (payload : List UInt8) : List UInt8 × Option Error :=
  let reason := if payload.length > 2 then payload.drop 2 else []
  (reason, if utf8_validator.validate reason then none else some .invalidUtf8)

end close

namespace processor

open frame
open close (status.reserved status.invalid status.noStatus)
open Utf8 (IsText)
open WebSocket (bigEndian firstByte lengthCode lengthBytes serverFrame)

/-- `to_ws`. -/
def Error.toWs : Error → ℕ
  | controlTooBig | invalidOpcode | invalidRsvBit | fragmentedControl | invalidContinuation
  | maskingRequired | maskingForbidden | reservedCloseCode | invalidCloseCode =>
      close.status.protocolError
  | invalidPayload | invalidUtf8 => close.status.invalidPayload
  | messageTooBig => close.status.messageTooBig
  | general | nonMinimalEncoding | reasonRequiresCode => close.status.internalEndpointError

/-! ### Frames -/

/-- A message that is prepared, and whether the connection ends with it. -/
structure Outgoing where
  header : List UInt8
  payload : List UInt8
  opcode : UInt8
  terminal : Bool := false

/-- The bytes that are written. -/
def Outgoing.bytes (m : Outgoing) : List UInt8 := m.header ++ m.payload

/-- A frame that is whole and not masked. -/
def Outgoing.new (op : UInt8) (payload : List UInt8) : Outgoing where
  header := prepareHeader (.new op payload.length true false) (.new payload.length)
  payload := payload
  opcode := op

/-- `prepare_data_frame`. -/
def prepareDataFrame (op : UInt8) (payload : List UInt8) : Except Error Outgoing :=
  if opcode.isControl op then .error .invalidOpcode
  else if op = opcode.text ∧ ¬ utf8_validator.validate payload then .error .invalidPayload
  else .ok (.new op payload)

/-- `prepare_control`. -/
def prepareControl (op : UInt8) (payload : List UInt8) : Except Error Outgoing :=
  if ¬ opcode.isControl op then .error .invalidOpcode
  else if payload.length > limits.payloadSizeBasic then .error .controlTooBig
  else .ok (.new op payload)

/-- `prepare_pong`. -/
def preparePong (payload : List UInt8) : Except Error Outgoing :=
  prepareControl opcode.pong payload

/-- `prepare_close`. -/
def prepareClose (code : ℕ) (reason : List UInt8) : Except Error Outgoing :=
  if status.reserved code then .error .reservedCloseCode
  else if status.invalid code ∧ code ≠ status.noStatus then .error .invalidCloseCode
  else if code = status.noStatus ∧ reason.length > 0 then .error .reasonRequiresCode
  else if reason.length > limits.payloadSizeBasic - 2 then .error .controlTooBig
  else
    prepareControl opcode.close
      (if code ≠ status.noStatus then bigEndian code 2 ++ reason else [])

section

variable {op : WebSocket.Opcode} {payload reason : List UInt8} {code : ℕ}

lemma getHeaderLen_new (op : UInt8) (n : ℕ) :
    getHeaderLen (.new op n true false) - basicHeaderLength = (lengthBytes n).length := by
  have hall : ∀ c < 128, getMasked ⟨0, UInt8.ofNat c⟩ = false ∧
      getBasicSize ⟨0, UInt8.ofNat c⟩ = c := by
    decide +kernel
  have hb1 : (BasicHeader.new op n true false).b1 = UInt8.ofNat (lengthCode n) := UInt8.zero_or
  obtain ⟨hmasked, hsize⟩ := hall _ (lengthCode_lt n)
  have hmasked' : getMasked (.new op n true false) = false := by
    rw [getMasked, hb1]
    exact hmasked
  have hsize' : getBasicSize (.new op n true false) = lengthCode n := by
    rw [getBasicSize, hb1]
    exact hsize
  rw [getHeaderLen, hmasked', getMaskingKeyOffset, hsize', lengthCode, lengthBytes]
  simp only [payloadSizeCode16bit, payloadSizeCode64bit, basicHeaderLength]
  split_ifs <;> simp_all

lemma drop_bigEndian (n : ℕ) : (bigEndian n 8).drop 6 = bigEndian n 2 := rfl

lemma copyPayload_eq (n : ℕ) : copyPayload n = lengthBytes n := by
  have hcopy : copyPayload n =
      (bigEndian n 8).drop (if n ≤ 125 then 8 else if n ≤ 0xFFFF then 6 else 0) := rfl
  rw [hcopy, lengthBytes]
  by_cases h125 : n ≤ 125
  · simp only [if_pos h125]
    rfl
  · by_cases h16 : n ≤ 0xFFFF
    · simp only [if_neg h125, if_pos h16]
      exact drop_bigEndian n
    · simp only [if_neg h125, if_neg h16]
      rfl

/-- **The header of a frame** is that of its length and opcode. -/
lemma prepareHeader_new (op : WebSocket.Opcode) (n : ℕ) :
    prepareHeader (.new op.code n true false) (.new n) =
      firstByte true op :: UInt8.ofNat (lengthCode n) :: lengthBytes n := by
  have hb0 : (BasicHeader.new op.code n true false).b0 = firstByte true op := by
    show 0x80 ||| (op.code &&& 0x0F) = 0x80 ||| op.code
    cases op <;> decide
  have hb1 : (BasicHeader.new op.code n true false).b1 = UInt8.ofNat (lengthCode n) :=
    UInt8.zero_or
  have hbytes : (ExtendedHeader.new n).bytes.take (lengthBytes n).length = lengthBytes n := by
    rw [ExtendedHeader.new]
    show (copyPayload n ++ _).take _ = _
    rw [copyPayload_eq, List.take_left]
  rw [prepareHeader, hb0, hb1, getHeaderLen_new, hbytes]

/-- The bytes of a frame. -/
lemma bytes_new (op : WebSocket.Opcode) (payload : List UInt8) :
    (Outgoing.new op.code payload).bytes = serverFrame true op payload := by
  show prepareHeader _ _ ++ payload = _
  rw [prepareHeader_new]
  rfl

/-- A control frame is prepared, unless it is too long. -/
lemma prepareControl_of_le (op : WebSocket.Opcode) (hop : op.isControl = true)
    (hle : payload.length ≤ 125) :
    prepareControl op.code payload = .ok (.new op.code payload) := by
  have hnot : ¬ payload.length > limits.payloadSizeBasic := Nat.not_lt.mpr hle
  rw [prepareControl, isControl_code, hop, if_neg (not_not.mpr rfl), if_neg hnot]

/-- A close frame with a code that may be sent. -/
lemma prepareClose_of_valid (code : ℕ) (reason : List UInt8)
    (hreserved : status.reserved code = false) (hinvalid : status.invalid code = false)
    (hle : reason.length ≤ 123) :
    prepareClose code reason = .ok (.new opcode.close (bigEndian code 2 ++ reason)) := by
  have hstatus : code ≠ status.noStatus := by
    rintro rfl
    cases hinvalid
  have hlength : ¬ reason.length > limits.payloadSizeBasic - 2 := Nat.not_lt.mpr hle
  have hsize : (bigEndian code 2 ++ reason).length ≤ 125 := by
    rw [List.length_append, WebSocket.length_bigEndian]
    omega
  rw [prepareClose, hreserved, hinvalid]
  simp only [Bool.false_eq_true, if_false, false_and, hstatus, hlength, ne_eq, not_false_eq_true,
    if_true]
  exact prepareControl_of_le .close rfl hsize

end

end processor

end Neutralino.websocketpp
