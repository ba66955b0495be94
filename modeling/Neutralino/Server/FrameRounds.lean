import Neutralino.Server.FrameRefusals

/-!
One round of the reader of a WebSocket.

* `Holds`, `Behind`: what the processor has of a message, and the processor behind the first
  bytes of a frame.
* `Advances`: it refuses the bytes, comes to stand behind more of the frame, or behind all of it.
* `readBasicHeader_advances`, `readExtendedHeader_advances`, `readPayload_advances`: the states.
* `round_advances`: **what one round does.**
-/

namespace Neutralino.websocketpp.processor

open frame
open utf8_validator (Validating)
open Utf8 (IsPrefix acceptAll)
open WebSocket (Frame Opcode Key Receives headBytes mask firstByte lengthCode)

/-! ### The state between two rounds -/

/-- What the processor has of a message. -/
def Holds (m : MsgMetadata) : Option WebSocket.Message → Prop
  | none => m.msgPtr = none
  | some part => m.msgPtr = some (.of part) ∧ part.opcode.isControl = false ∧
      (part.opcode = .text → ∃ q, acceptAll none part.payload = some q ∧ Validating m.validator q)

/-- The processor behind the first bytes of a frame. -/
inductive Behind (p : Processor) (part : Option WebSocket.Message) : List UInt8 → Prop
  | nothing : p.state = .headerBasic → p.bytesNeeded = 2 → Holds p.dataMsg part → Behind p part []
  | byte : p.state = .headerBasic → p.bytesNeeded = 1 → Holds p.dataMsg part →
      Behind p part [p.basicHeader.b0]
  | header (ext zeros : List UInt8) : p.state = .headerExtended →
      validateIncomingBasicHeader p.basicHeader true part.isNone = none →
      p.extendedHeader.bytes = ext ++ zeros → ext.length = p.cursor →
      ext.length + p.bytesNeeded + basicHeaderLength = getHeaderLen p.basicHeader →
      Holds p.dataMsg part → Behind p part (p.basicHeader.b0 :: p.basicHeader.b1 :: ext)
  | control (fin : Bool) (op : Opcode) (key : Key) (n : ℕ) (taken : List UInt8) :
      p.state = .application →
      p.basicHeader = ⟨firstByte fin op, UInt8.ofNat (128 + lengthCode n)⟩ →
      Begins part fin op n → taken.length + p.bytesNeeded = n → op.isControl = true →
      p.currentMsg = .control → p.controlMsg.msgPtr = some ⟨op.code, taken⟩ →
      Prepared key taken.length p.controlMsg.preparedKey → Holds p.dataMsg part →
      Behind p part (headBytes fin op key n ++ mask key 0 taken)
  | data (fin : Bool) (op : Opcode) (key : Key) (n : ℕ) (taken : List UInt8) :
      p.state = .application →
      p.basicHeader = ⟨firstByte fin op, UInt8.ofNat (128 + lengthCode n)⟩ →
      Begins part fin op n → taken.length + p.bytesNeeded = n → op.isControl = false →
      p.currentMsg = .data → Prepared key taken.length p.dataMsg.preparedKey →
      Holds p.dataMsg (some (grown part op taken)) →
      Behind p part (headBytes fin op key n ++ mask key 0 taken)

/-! ### One round -/

/-- What a round or several make of the bytes behind those of a frame: they refuse the bytes,
come to stand behind more of the frame, or behind all of it. -/
inductive Advances (part : Option WebSocket.Message) (behind buf : List UInt8) (c : Consumed) :
    Prop
  | fails : c.error ≠ none → Refused part (behind ++ buf) → Advances part behind buf c
  | stays (behind' : List UInt8) : c.error = none → Behind c.after part behind' →
      behind ++ buf = behind' ++ c.rest → Advances part behind buf c
  | frame (f : Frame) (part' : Option WebSocket.Message) : c.error = none →
      Receives rules part f part' [] → Behind c.after part' [] →
      behind ++ buf = f.encode ++ c.rest → Advances part behind buf c
  | message (f : Frame) (part' : Option WebSocket.Message) (m : WebSocket.Message) :
      c.error = none → c.after.state = .ready → Receives rules part f part' [m] →
      c.after.getMessage.1 = some (.of m) → Behind c.after.getMessage.2 part' [] →
      behind ++ buf = f.encode ++ c.rest → Advances part behind buf c

section Rounds

variable {p : Processor} {part : Option WebSocket.Message} {behind buf rest : List UInt8}

lemma Holds.isNone {m : MsgMetadata} (h : Holds m part) : m.msgPtr.isNone = part.isNone := by
  cases part with
  | none => rw [show m.msgPtr = none from h]; rfl
  | some m => rw [h.1]; rfl

lemma Holds.setKey {m : MsgMetadata} (h : Holds m part) (preparedKey : ℕ) :
    Holds { m with preparedKey } part := by
  cases part with
  | none => exact h
  | some out => exact h

lemma Advances.congr {c : Consumed} {behind' buf' : List UInt8}
    (h : Advances part behind buf c) (heq : behind ++ buf = behind' ++ buf') :
    Advances part behind' buf' c := by
  cases h with
  | fails herror hrefused => exact .fails herror (heq ▸ hrefused)
  | stays behind'' hok hbehind hbytes => exact .stays behind'' hok hbehind (heq ▸ hbytes)
  | frame f part' hok hreceives hbehind hbytes =>
      exact .frame f part' hok hreceives hbehind (heq ▸ hbytes)
  | message f part' m hok hready hreceives hmessage hbehind hbytes =>
      exact .message f part' m hok hready hreceives hmessage hbehind (heq ▸ hbytes)

/-- The end of a basic header. -/
lemma endBasicHeader_advances (hholds : Holds p.dataMsg part) :
    Advances part [p.basicHeader.b0, p.basicHeader.b1] rest (p.endBasicHeader rest) := by
  rw [Processor.endBasicHeader, hholds.isNone]
  cases hvalid : validateIncomingBasicHeader p.basicHeader true part.isNone with
  | some ec =>
      refine .fails (by simp) (.append (refused_of_basicHeader ?_) rest)
      rw [hvalid]
      exact Option.some_ne_none ec
  | none =>
      have hlength : basicHeaderLength ≤ getHeaderLen p.basicHeader := by
        rw [getHeaderLen]
        omega
      have hneeded : 0 + (getHeaderLen p.basicHeader - basicHeaderLength) + basicHeaderLength =
          getHeaderLen p.basicHeader := by omega
      exact .stays _ rfl (.header [] p.extendedHeader.bytes rfl hvalid rfl rfl hneeded hholds) rfl

/-- A round of `HEADER_BASIC`. -/
lemma readBasicHeader_advances (hstate : p.state = .headerBasic) (hbuf : buf ≠ [])
    (h : Behind p part behind) : Advances part behind buf (p.readBasicHeader buf) := by
  obtain ⟨b, rest, rfl⟩ := List.exists_cons_of_ne_nil hbuf
  cases h with
  | nothing _ hneeded hholds =>
      cases rest with
      | nil =>
          simp only [Processor.readBasicHeader, Processor.copyBasicHeaderBytes, hneeded]
          exact .stays [b] rfl (.byte hstate rfl hholds) rfl
      | cons b' rest =>
          let q : Processor := { p with basicHeader := ⟨b, b'⟩, bytesNeeded := 0 }
          have hread : p.readBasicHeader (b :: b' :: rest) = q.endBasicHeader rest := by
            simp [Processor.readBasicHeader, Processor.copyBasicHeaderBytes, hneeded, q]
          rw [hread]
          exact (endBasicHeader_advances (p := q) hholds).congr rfl
  | byte _ hneeded hholds =>
      let q : Processor := { p with basicHeader := ⟨p.basicHeader.b0, b⟩, bytesNeeded := 0 }
      have hread : p.readBasicHeader (b :: rest) = q.endBasicHeader rest := by
        simp [Processor.readBasicHeader, Processor.copyBasicHeaderBytes, hneeded, q]
      rw [hread]
      exact (endBasicHeader_advances (p := q) hholds).congr rfl
  | header _ _ hstate' => cases hstate.symm.trans hstate'
  | control _ _ _ _ _ hstate' => cases hstate.symm.trans hstate'
  | data _ _ _ _ _ hstate' => cases hstate.symm.trans hstate'

lemma fits_none_iff {n : ℕ} (hn : n < 2 ^ 64) :
    rules.fits (received none).length n ↔ n ≤ maxMessageSize := by
  show (([] : List UInt8).length + n) % 2 ^ 64 ≤ maxMessageSize ↔ _
  rw [List.length_nil, Nat.zero_add, Nat.mod_eq_of_lt hn]

lemma fits_some_iff {n : ℕ} (m : WebSocket.Message) : rules.fits (received (some m)).length n ↔
    (m.payload.length + n) % 2 ^ 64 ≤ maxMessageSize := Iff.rfl

/-- The messages that a frame may begin, or go on. -/
lemma startPayload_advances {key : Key} {fin : Bool} {op : Opcode} {n : ℕ}
    (hheader : p.basicHeader = ⟨firstByte fin op, UInt8.ofNat (128 + lengthCode n)⟩)
    (hsize : getPayloadSize p.basicHeader p.extendedHeader = n)
    (hkey : getMaskingKey p.basicHeader p.extendedHeader = key)
    (hbegins : (op.isControl = false → rules.fits (received part).length n) →
      Begins part fin op n)
    (hlt : n < 2 ^ 64) (hholds : Holds p.dataMsg part) :
    Advances part (headBytes fin op key n) rest ⟨p.startPayload.1, rest, p.startPayload.2⟩ := by
  have hop : getOpcode p.basicHeader = op.code := by
    rw [hheader]
    exact (first_byte fin op _).2.2.2.2
  have hprepared : Prepared key ([] : List UInt8).length (prepareMaskingKey key) :=
    prepared_prepareMaskingKey key
  have hnil : headBytes fin op key n = headBytes fin op key n ++ mask key 0 [] :=
    (List.append_nil _).symm
  cases hcontrol : op.isControl with
  | true =>
      have hstart : p.startPayload = ({ p with
          state := .application
          bytesNeeded := n
          controlMsg := .new { opcode := op.code } key
          currentMsg := .control }, none) := by
        simp [Processor.startPayload, hop, isControl_code, hcontrol, hsize, hkey]
      rw [hstart]
      refine .stays _ rfl ?_ (congrArg (· ++ rest) hnil)
      have hcontrol' : op.isControl = false → rules.fits (received part).length n := fun hfalse =>
        absurd (hcontrol.symm.trans hfalse) (by decide)
      exact .control fin op key n [] rfl hheader (hbegins hcontrol') (Nat.zero_add n) hcontrol rfl
        rfl hprepared hholds
  | false =>
      by_cases hfits : rules.fits (received part).length n
      · have hb := hbegins fun _ => hfits
        cases part with
        | none =>
            have hle : ¬ n > maxMessageSize := Nat.not_lt.mpr ((fits_none_iff hlt).mp hfits)
            have hstart : p.startPayload = ({ p with
                state := .application
                bytesNeeded := n
                dataMsg := .new { opcode := op.code } key
                currentMsg := .data }, none) := by
              simp [Processor.startPayload, hop, isControl_code, hcontrol, hsize, hkey, hle,
                show p.dataMsg.msgPtr = none from hholds]
            rw [hstart]
            refine .stays _ rfl ?_ (congrArg (· ++ rest) hnil)
            exact .data fin op key n [] rfl hheader hb (Nat.zero_add n) hcontrol rfl hprepared
              ⟨rfl, hcontrol, fun _ => ⟨none, rfl, utf8_validator.validating_new⟩⟩
        | some m =>
            have hle : ¬ (m.payload.length + n) % 2 ^ 64 > maxMessageSize :=
              Nat.not_lt.mpr ((fits_some_iff m).mp hfits)
            have hstart : p.startPayload = ({ p with
                state := .application
                bytesNeeded := n
                dataMsg := { p.dataMsg with preparedKey := prepareMaskingKey key }
                currentMsg := .data }, none) := by
              simp only [Processor.startPayload, hop, isControl_code, hcontrol, hsize, hkey,
                hholds.1, Message.of, if_neg hle]
              rfl
            rw [hstart]
            refine .stays _ rfl ?_ (congrArg (· ++ rest) hnil)
            have hgrown : grown (some m) op [] = m := by
              rw [grown, received]
              simp
            refine .data fin op key n [] rfl hheader hb (Nat.zero_add n) hcontrol rfl hprepared ?_
            rw [hgrown]
            exact hholds.setKey _
      · refine .fails ?_ (.append (refused_of_not_begins hlt fun hb => hfits (hb.fits hcontrol)) _)
        cases part with
        | none =>
            have hgt : n > maxMessageSize :=
              Nat.not_le.mp fun hle => hfits ((fits_none_iff hlt).mpr hle)
            simp [Processor.startPayload, hop, isControl_code, hcontrol, hsize, hgt,
              show p.dataMsg.msgPtr = none from hholds]
        | some m =>
            have hgt : (m.payload.length + n) % 2 ^ 64 > maxMessageSize :=
              Nat.not_le.mp fun hle => hfits ((fits_some_iff m).mpr hle)
            simp only [Processor.startPayload, hop, isControl_code, hcontrol, hsize, hholds.1,
              Message.of, if_pos hgt]
            exact Option.some_ne_none _

/-- The end of an extended header. -/
lemma endExtendedHeader_advances {ext zeros : List UInt8}
    (hvalid : validateIncomingBasicHeader p.basicHeader true part.isNone = none)
    (he : p.extendedHeader.bytes = ext ++ zeros)
    (hlength : ext.length + basicHeaderLength = getHeaderLen p.basicHeader)
    (hholds : Holds p.dataMsg part) :
    Advances part (p.basicHeader.b0 :: p.basicHeader.b1 :: ext) rest
      (p.endExtendedHeader rest) := by
  rw [Processor.endExtendedHeader]
  cases hext : validateIncomingExtendedHeader p.basicHeader p.extendedHeader with
  | some ec =>
      refine .fails (by simp) (.append (refused_of_extendedHeader hlength he ?_) rest)
      rw [hext]
      exact Option.some_ne_none ec
  | none =>
      obtain ⟨hcontrol, ⟨h1, h2, h3⟩, hreserved, hcont, hmasked⟩ :=
        validateIncomingBasicHeader_iff.mp hvalid
      obtain ⟨op, hop, hb0⟩ := exists_firstByte h1 h2 h3 hreserved
      obtain ⟨hb1, -⟩ := exists_secondByte p.basicHeader hmasked
      rw [validateIncomingExtendedHeader] at hext
      simp only [error_else_eq_none_iff, not_and, not_le] at hext
      obtain ⟨hlt, hsize, hbytes⟩ := exists_headBytes hmasked he hlength hext.1 hext.2.1
      have hheader : p.basicHeader = ⟨firstByte (getFin p.basicHeader) op, UInt8.ofNat
          (128 + lengthCode (getPayloadSize p.basicHeader p.extendedHeader))⟩ := by
        rw [← hb0, ← hsize, ← hb1]
      refine (startPayload_advances hheader rfl rfl (fun hfits => ⟨hlt, ?_, ?_, hfits⟩) hlt
        hholds).congr ?_
      · intro hop'
        rw [← isControl_code, hop] at hop'
        obtain ⟨hfin, hle⟩ := hcontrol hop'
        rw [hsize] at hle
        exact ⟨hfin, (lengthCode_le _).mp hle⟩
      · intro hop'
        rw [← isControl_code, hop] at hop'
        rw [← code_eq_continuation, hop, hcont hop']
        cases part <;> simp
      · rw [headBytes, ← hb0, ← hsize, ← hb1, ← hbytes]

/-- A round of `HEADER_EXTENDED`. -/
lemma readExtendedHeader_advances (hstate : p.state = .headerExtended)
    (h : Behind p part behind) : Advances part behind buf (p.readExtendedHeader buf) := by
  cases h with
  | nothing hstate' => cases hstate.symm.trans hstate'
  | byte hstate' => cases hstate.symm.trans hstate'
  | header ext zeros _ hvalid he hcursor hlength hholds =>
      have hread := List.length_take_le p.bytesNeeded buf
      have he' : (p.copyExtendedHeaderBytes buf).1.extendedHeader.bytes =
          (ext ++ buf.take (min p.bytesNeeded buf.length)) ++
            p.extendedHeader.bytes.drop (p.cursor + min p.bytesNeeded buf.length) := by
        show p.extendedHeader.bytes.take p.cursor ++ _ = _
        rw [he, ← hcursor, List.take_left, List.append_assoc]
      have hbytes : (p.basicHeader.b0 :: p.basicHeader.b1 :: ext) ++ buf =
          (p.basicHeader.b0 :: p.basicHeader.b1 ::
            (ext ++ buf.take (min p.bytesNeeded buf.length))) ++
              buf.drop (min p.bytesNeeded buf.length) := by
        simp
      rw [Processor.readExtendedHeader]
      by_cases hmore : (p.copyExtendedHeaderBytes buf).1.bytesNeeded > 0
      · simp only [if_pos hmore]
        refine .stays _ rfl (.header _ _ hstate hvalid he' ?_ ?_ hholds) hbytes
        · show _ = p.cursor + min p.bytesNeeded buf.length
          rw [List.length_append, List.length_take, hcursor]
          omega
        · show _ + (p.bytesNeeded - min p.bytesNeeded buf.length) + _ = getHeaderLen p.basicHeader
          rw [List.length_append, List.length_take]
          omega
      · simp only [if_neg hmore]
        have hzero : p.bytesNeeded - min p.bytesNeeded buf.length = 0 :=
          Nat.eq_zero_of_not_pos hmore
        refine (endExtendedHeader_advances (p := (p.copyExtendedHeaderBytes buf).1) hvalid he' ?_
          hholds).congr hbytes.symm
        show _ = getHeaderLen p.basicHeader
        rw [List.length_append, List.length_take]
        omega
  | control _ _ _ _ _ hstate' => cases hstate.symm.trans hstate'
  | data _ _ _ _ _ hstate' => cases hstate.symm.trans hstate'

end Rounds

/-! ### Payloads -/

section Payloads

variable {p : Processor} {part : Option WebSocket.Message} {behind buf rest bytes : List UInt8}
  {fin : Bool} {op : Opcode} {key : Key} {n : ℕ} {taken : List UInt8}

/-- The bytes of a payload, masked again. -/
lemma headBytes_append_mask (bytes : List UInt8) :
    headBytes fin op key n ++ mask key 0 taken ++ bytes =
      headBytes fin op key n ++ mask key 0 (taken ++ mask key taken.length bytes) := by
  rw [WebSocket.mask_append, Nat.zero_add, WebSocket.mask_mask, List.append_assoc]

/-- What a processor in the middle of a payload makes of more of it. -/
structure Takes (p q : Processor) (part : Option WebSocket.Message) (behind bytes : List UInt8)
    (ec : Option Error) : Prop where
  refused : ec ≠ none → Refused part (behind ++ bytes)
  behind : ec = none → Behind q part (behind ++ bytes)
  state : ec = none → q.state = .application
  bytesNeeded : ec = none → q.bytesNeeded = p.bytesNeeded - bytes.length

lemma takePayload_nil (hstate : p.state = .application) (h : Behind p part behind) :
    Takes p (p.takePayload []).1 part behind [] (p.takePayload []).2 where
  refused hec := absurd rfl hec
  behind _ := by
    rw [List.append_nil]
    exact h
  state _ := hstate
  bytesNeeded _ := rfl

lemma getMasked_frame (hheader : p.basicHeader =
    ⟨firstByte fin op, UInt8.ofNat (128 + lengthCode n)⟩) : getMasked p.basicHeader = true := by
  rw [hheader]
  exact (second_byte _ (lengthCode_lt n)).1

/-- More of the payload of a control frame. -/
lemma processPayloadBytes_control (hstate : p.state = .application)
    (hheader : p.basicHeader = ⟨firstByte fin op, UInt8.ofNat (128 + lengthCode n)⟩)
    (hbegins : Begins part fin op n) (hneeded : taken.length + p.bytesNeeded = n)
    (hop : op.isControl = true) (hcurrent : p.currentMsg = .control)
    (hmessage : p.controlMsg.msgPtr = some ⟨op.code, taken⟩)
    (hprepared : Prepared key taken.length p.controlMsg.preparedKey)
    (hholds : Holds p.dataMsg part) (hbytes : bytes.length ≤ p.bytesNeeded) :
    Takes p (p.processPayloadBytes bytes).1 part (headBytes fin op key n ++ mask key 0 taken)
      bytes (p.processPayloadBytes bytes).2 := by
  obtain ⟨hmask, hprepared'⟩ := byteMaskCirc_eq hprepared bytes
  have htext : op.code ≠ opcode.text := by
    intro hcode
    rw [code_eq_text.mp hcode] at hop
    cases hop
  have hprocess : p.processPayloadBytes bytes = ({ p with
      controlMsg := { p.controlMsg with
        msgPtr := some ⟨op.code, taken ++ mask key taken.length bytes⟩
        preparedKey := (byteMaskCirc bytes p.controlMsg.preparedKey).2 }
      bytesNeeded := p.bytesNeeded - bytes.length }, none) := by
    simp [Processor.processPayloadBytes, Processor.current, Processor.setCurrent,
      getMasked_frame hheader, hcurrent, hmessage, hmask, htext]
  rw [hprocess]
  refine ⟨fun hec => absurd rfl hec, fun _ => ?_, fun _ => hstate, fun _ => rfl⟩
  rw [headBytes_append_mask]
  refine .control fin op key n _ hstate hheader hbegins ?_ hop hcurrent rfl ?_ hholds
  · rw [List.length_append, WebSocket.length_mask]
    show _ + (p.bytesNeeded - bytes.length) = n
    omega
  · rw [List.length_append, WebSocket.length_mask]
    exact hprepared'

/-- More of the payload of a data frame. -/
lemma processPayloadBytes_data (hstate : p.state = .application)
    (hheader : p.basicHeader = ⟨firstByte fin op, UInt8.ofNat (128 + lengthCode n)⟩)
    (hbegins : Begins part fin op n) (hneeded : taken.length + p.bytesNeeded = n)
    (hop : op.isControl = false) (hcurrent : p.currentMsg = .data)
    (hprepared : Prepared key taken.length p.dataMsg.preparedKey)
    (hholds : Holds p.dataMsg (some (grown part op taken)))
    (hbytes : bytes.length ≤ p.bytesNeeded) :
    Takes p (p.processPayloadBytes bytes).1 part (headBytes fin op key n ++ mask key 0 taken)
      bytes (p.processPayloadBytes bytes).2 := by
  obtain ⟨hmask, hprepared'⟩ := byteMaskCirc_eq hprepared bytes
  obtain ⟨hmessage, hcontrol, hvalidating⟩ := hholds
  have hgrown : (grown part op taken).payload ++ mask key taken.length bytes =
      (grown part op (taken ++ mask key taken.length bytes)).payload :=
    List.append_assoc _ _ _
  have hlength : (taken ++ mask key taken.length bytes).length = taken.length + bytes.length := by
    rw [List.length_append, WebSocket.length_mask]
  by_cases htext : (grown part op taken).opcode = .text
  · obtain ⟨q, hq, hvalid⟩ := hvalidating htext
    have hcode : (grown part op taken).opcode.code = opcode.text := code_eq_text.mpr htext
    cases haccept : acceptAll q (mask key taken.length bytes) with
    | none =>
        have hfalse := utf8_validator.decode_of_rejected hvalid haccept
        have herror : (p.processPayloadBytes bytes).2 = some .invalidUtf8 := by
          simp [Processor.processPayloadBytes, Processor.current, getMasked_frame hheader,
            hcurrent, hmessage, hmask, hcode, hfalse, Message.of]
        rw [herror]
        refine ⟨fun _ => ?_, nofun, nofun, nofun⟩
        rw [headBytes_append_mask]
        refine refused_of_text hbegins.lt (by omega) hop htext ?_
        rw [← List.append_assoc, Utf8.acceptAll_append]
        rw [show acceptAll none (received part ++ taken) = some q from hq]
        exact haccept
    | some q' =>
        obtain ⟨htrue, hvalid'⟩ := utf8_validator.decode_of_accepted hvalid haccept
        have hprocess : p.processPayloadBytes bytes = ({ p with
            dataMsg := {
              msgPtr := some ⟨(grown part op taken).opcode.code,
                (grown part op taken).payload ++ mask key taken.length bytes⟩
              preparedKey := (byteMaskCirc bytes p.dataMsg.preparedKey).2
              validator := (p.dataMsg.validator.decode (mask key taken.length bytes)).1 }
            bytesNeeded := p.bytesNeeded - bytes.length }, none) := by
          simp [Processor.processPayloadBytes, Processor.current, Processor.setCurrent,
            getMasked_frame hheader, hcurrent, hmessage, hmask, hcode, htrue, Message.of]
        rw [hprocess]
        refine ⟨fun hec => absurd rfl hec, fun _ => ?_, fun _ => hstate, fun _ => rfl⟩
        rw [headBytes_append_mask]
        refine .data fin op key n _ hstate hheader hbegins ?_ hop hcurrent ?_ ⟨?_, hcontrol, ?_⟩
        · rw [hlength]
          show _ + (p.bytesNeeded - bytes.length) = n
          omega
        · rw [hlength]
          exact hprepared'
        · rw [hgrown]
          rfl
        · intro _
          refine ⟨q', ?_, hvalid'⟩
          rw [← hgrown, Utf8.acceptAll_append, hq]
          exact haccept
  · have hcode : (grown part op taken).opcode.code ≠ opcode.text :=
      fun hcode => htext (code_eq_text.mp hcode)
    have hprocess : p.processPayloadBytes bytes = ({ p with
        dataMsg := { p.dataMsg with
          msgPtr := some ⟨(grown part op taken).opcode.code,
            (grown part op taken).payload ++ mask key taken.length bytes⟩
          preparedKey := (byteMaskCirc bytes p.dataMsg.preparedKey).2 }
        bytesNeeded := p.bytesNeeded - bytes.length }, none) := by
      simp [Processor.processPayloadBytes, Processor.current, Processor.setCurrent,
        getMasked_frame hheader, hcurrent, hmessage, hmask, hcode, Message.of]
    rw [hprocess]
    refine ⟨fun hec => absurd rfl hec, fun _ => ?_, fun _ => hstate, fun _ => rfl⟩
    rw [headBytes_append_mask]
    refine .data fin op key n _ hstate hheader hbegins ?_ hop hcurrent ?_ ⟨?_, hcontrol, ?_⟩
    · rw [hlength]
      show _ + (p.bytesNeeded - bytes.length) = n
      omega
    · rw [hlength]
      exact hprepared'
    · rw [hgrown]
      rfl
    · exact fun h => absurd h htext

/-- More of a payload. -/
lemma takePayload_takes (hstate : p.state = .application) (h : Behind p part behind)
    (hbytes : bytes.length ≤ p.bytesNeeded) :
    Takes p (p.takePayload bytes).1 part behind bytes (p.takePayload bytes).2 := by
  by_cases hnil : bytes = []
  · rw [hnil]
    exact takePayload_nil hstate h
  · rw [Processor.takePayload, if_neg hnil]
    cases h with
    | nothing hstate' => cases hstate.symm.trans hstate'
    | byte hstate' => cases hstate.symm.trans hstate'
    | header _ _ hstate' => cases hstate.symm.trans hstate'
    | control fin op key n taken _ hheader hbegins hneeded hop hcurrent hmessage hprepared hholds =>
        exact processPayloadBytes_control hstate hheader hbegins hneeded hop hcurrent hmessage
          hprepared hholds hbytes
    | data fin op key n taken _ hheader hbegins hneeded hop hcurrent hprepared hholds =>
        exact processPayloadBytes_data hstate hheader hbegins hneeded hop hcurrent hprepared
          hholds hbytes

lemma getOpcode_frame (hheader : p.basicHeader =
    ⟨firstByte fin op, UInt8.ofNat (128 + lengthCode n)⟩) :
    getFin p.basicHeader = fin ∧ getOpcode p.basicHeader = op.code := by
  rw [hheader]
  obtain ⟨hfin, -, -, -, hop⟩ := first_byte fin op (UInt8.ofNat (128 + lengthCode n))
  exact ⟨hfin, hop⟩

/-- The end of a control frame. -/
lemma endPayload_control
    (hheader : p.basicHeader = ⟨firstByte fin op, UInt8.ofNat (128 + lengthCode n)⟩)
    (hbegins : Begins part fin op n) (hlength : taken.length = n)
    (hop : op.isControl = true) (hcurrent : p.currentMsg = .control)
    (hmessage : p.controlMsg.msgPtr = some ⟨op.code, taken⟩) (hholds : Holds p.dataMsg part) :
    Advances part (headBytes fin op key n ++ mask key 0 taken) rest
      ⟨p.endPayload.1, rest, p.endPayload.2⟩ := by
  obtain ⟨hfin, hcode⟩ := getOpcode_frame hheader
  obtain ⟨rfl, hle⟩ := hbegins.control hop
  subst hlength
  have htext : op.code ≠ opcode.text := by
    intro hcode
    rw [code_eq_text.mp hcode] at hop
    cases hop
  have hend : p.endPayload = ({ p with state := .ready }, none) := by
    simp [Processor.endPayload, Processor.finalizeMessage, hfin, hcode, htext]
  have hcontrol : opcode.isControl op.code = true := by rw [isControl_code, hop]
  have hget : Processor.getMessage { p with state := .ready } = (some ⟨op.code, taken⟩,
      Processor.resetHeaders { p with
        state := .ready
        controlMsg := { p.controlMsg with msgPtr := none } }) := by
    simp [Processor.getMessage, Processor.current, Processor.setCurrent, hcurrent, hmessage,
      hcontrol]
  rw [hend]
  refine .message ⟨true, op, key, taken, hbegins.lt⟩ part ⟨op, taken⟩ rfl rfl
    (.control hop rfl hle) ?_ ?_ rfl
  · rw [hget]
    rfl
  · rw [hget]
    exact .nothing rfl rfl hholds

/-- The end of a data frame that is not the last one of its message. -/
lemma endPayload_part
    (hheader : p.basicHeader = ⟨firstByte false op, UInt8.ofNat (128 + lengthCode n)⟩)
    (hbegins : Begins part false op n) (hlength : taken.length = n) (hop : op.isControl = false)
    (hholds : Holds p.dataMsg (some (grown part op taken))) :
    Advances part (headBytes false op key n ++ mask key 0 taken) rest
      ⟨p.endPayload.1, rest, p.endPayload.2⟩ := by
  obtain ⟨hfin, -⟩ := getOpcode_frame hheader
  subst hlength
  have hend : p.endPayload = (p.resetHeaders, none) := by
    simp [Processor.endPayload, hfin]
  have hprefix (htext : (grown part op taken).opcode = .text) :
      IsPrefix (received part ++ taken) := by
    obtain ⟨q, hq, -⟩ := hholds.2.2 htext
    exact Utf8.acceptAll_isSome_iff.mp ⟨q, hq⟩
  have hreceives : Receives rules part ⟨false, op, key, taken, hbegins.lt⟩
      (some (grown part op taken)) [] := by
    cases part with
    | none =>
        have hdata : op = .text ∨ op = .binary := by
          have hcont := (hbegins.continuation hop).mp
          cases op <;> simp_all [Opcode.isControl]
        exact .first hdata rfl (hbegins.fits hop) hprefix
    | some m =>
        have hcont : op = .continuation := (hbegins.continuation hop).mpr (Option.some_ne_none m)
        exact .more hcont rfl (hbegins.fits hop) hprefix
  rw [hend]
  exact .frame _ _ rfl hreceives (.nothing rfl rfl hholds) rfl

/-- The end of the last frame of a message. -/
lemma endPayload_last
    (hheader : p.basicHeader = ⟨firstByte true op, UInt8.ofNat (128 + lengthCode n)⟩)
    (hbegins : Begins part true op n) (hlength : taken.length = n) (hop : op.isControl = false)
    (hcurrent : p.currentMsg = .data) (hholds : Holds p.dataMsg (some (grown part op taken))) :
    Advances part (headBytes true op key n ++ mask key 0 taken) rest
      ⟨p.endPayload.1, rest, p.endPayload.2⟩ := by
  obtain ⟨hfin, hcode⟩ := getOpcode_frame hheader
  obtain ⟨hmessage, hcontrol, hvalidating⟩ := hholds
  have hnone (htext : op = .text) : part = none := by
    by_contra hpart
    cases htext.symm.trans ((hbegins.continuation hop).mpr hpart)
  by_cases hincomplete : op = .text ∧ p.dataMsg.validator.complete = false
  · -- The text of the frame ends within a character.
    obtain ⟨rfl, hnot⟩ := hincomplete
    obtain rfl := hnone rfl
    obtain ⟨q, hq, hvalid⟩ := hvalidating rfl
    refine .fails ?_ (.append (refused_of_incomplete hbegins.lt hlength ?_) rest)
    · have hcodeText : getOpcode p.basicHeader = opcode.text := hcode
      simp [Processor.endPayload, Processor.finalizeMessage, Processor.current, hfin, hcodeText,
        hcurrent, hnot]
    · intro hcomplete
      rw [show acceptAll none taken = some q from hq, Option.some.injEq] at hcomplete
      rw [hvalid.complete_iff.mpr hcomplete] at hnot
      cases hnot
  · subst hlength
    have hend : p.endPayload = ({ p with state := .ready }, none) := by
      have hnot : ¬ (getOpcode p.basicHeader = opcode.text ∧ ¬ p.current.validator.complete) := by
        rintro ⟨htext, hnot⟩
        rw [hcode] at htext
        rw [Processor.current, hcurrent] at hnot
        exact hincomplete ⟨code_eq_text.mp htext, Bool.eq_false_iff.mpr hnot⟩
      rw [Processor.endPayload, if_pos hfin, Processor.finalizeMessage, if_neg hnot]
    have hdata : opcode.isControl (grown part op taken).opcode.code = false := by
      rw [isControl_code, hcontrol]
    have hget : Processor.getMessage { p with state := .ready } =
        (some (.of (grown part op taken)), Processor.resetHeaders { p with
          state := .ready
          dataMsg := { p.dataMsg with msgPtr := none } }) := by
      simp [Processor.getMessage, Processor.current, Processor.setCurrent, hcurrent, hmessage,
        Message.of, hdata]
    have hreceives : Receives rules part ⟨true, op, key, taken, hbegins.lt⟩ none
        [grown part op taken] := by
      cases part with
      | none =>
          have hkind : op = .text ∨ op = .binary := by
            have hcont := (hbegins.continuation hop).mp
            cases op <;> simp_all [Opcode.isControl]
          refine .whole hkind rfl (hbegins.fits hop) fun htext => ?_
          obtain ⟨q, hq, hvalid⟩ := hvalidating htext
          have hcomplete : p.dataMsg.validator.complete = true := by
            by_contra hnot
            exact hincomplete ⟨htext, Bool.eq_false_iff.mpr hnot⟩
          rw [hvalid.complete_iff.mp hcomplete] at hq
          exact Utf8.acceptAll_eq_none_iff.mp hq
      | some m =>
          have hcont : op = .continuation :=
            (hbegins.continuation hop).mpr (Option.some_ne_none m)
          refine .last hcont rfl (hbegins.fits hop) fun htext => ?_
          obtain ⟨q, hq, -⟩ := hvalidating htext
          exact Utf8.acceptAll_isSome_iff.mp ⟨q, hq⟩
    rw [hend]
    refine .message _ none _ rfl rfl hreceives ?_ ?_ rfl
    · rw [hget]
    · rw [hget]
      exact .nothing rfl rfl rfl

/-- The end of a payload. -/
lemma endPayload_advances (hstate : p.state = .application) (hneeded : p.bytesNeeded = 0)
    (h : Behind p part behind) :
    Advances part behind rest ⟨p.endPayload.1, rest, p.endPayload.2⟩ := by
  cases h with
  | nothing hstate' => cases hstate.symm.trans hstate'
  | byte hstate' => cases hstate.symm.trans hstate'
  | header _ _ hstate' => cases hstate.symm.trans hstate'
  | control fin op key n taken _ hheader hbegins hlength hop hcurrent hmessage _ hholds =>
      rw [hneeded] at hlength
      exact endPayload_control hheader hbegins hlength hop hcurrent hmessage hholds
  | data fin op key n taken _ hheader hbegins hlength hop hcurrent _ hholds =>
      rw [hneeded] at hlength
      cases fin with
      | false => exact endPayload_part hheader hbegins hlength hop hholds
      | true => exact endPayload_last hheader hbegins hlength hop hcurrent hholds

/-- A round of `APPLICATION`. -/
lemma readPayload_advances (hstate : p.state = .application) (h : Behind p part behind) :
    Advances part behind buf (p.readPayload buf) := by
  have hlength :
      (buf.take (min p.bytesNeeded buf.length)).length = min p.bytesNeeded buf.length := by
    rw [List.length_take]
    omega
  have htakes := takePayload_takes hstate h
    (show (buf.take (min p.bytesNeeded buf.length)).length ≤ p.bytesNeeded by omega)
  have hsplit : behind ++ buf = (behind ++ buf.take (min p.bytesNeeded buf.length)) ++
      buf.drop (min p.bytesNeeded buf.length) := by
    rw [List.append_assoc, List.take_append_drop]
  simp only [Processor.readPayload]
  cases hec : (p.takePayload (buf.take (min p.bytesNeeded buf.length))).2 with
  | some ec =>
      refine .fails (Option.some_ne_none ec) ?_
      rw [hsplit]
      exact (htakes.refused (by rw [hec]; exact Option.some_ne_none ec)).append _
  | none =>
      simp only
      split_ifs with hmore
      · exact .stays _ rfl (htakes.behind hec) hsplit
      · exact (endPayload_advances (htakes.state hec) (Nat.eq_zero_of_not_pos hmore)
          (htakes.behind hec)).congr hsplit.symm

end Payloads

section

variable {p : Processor} {part : Option WebSocket.Message} {behind buf : List UInt8}

lemma Behind.not_ready (h : Behind p part behind) : p.state ≠ .ready := by
  cases h <;> simp_all

/-- **What one round does.** -/
lemma round_advances (h : Behind p part behind) (hcontinues : p.Continues buf) :
    Advances part behind buf (p.round buf) := by
  rw [Processor.round]
  cases hstate : p.state with
  | headerBasic =>
      refine readBasicHeader_advances hstate (hcontinues.2.resolve_right fun hzero => ?_) h
      cases h with
      | nothing _ hneeded => cases hneeded.symm.trans hzero
      | byte _ hneeded => cases hneeded.symm.trans hzero
      | header _ _ hstate' => cases hstate.symm.trans hstate'
      | control _ _ _ _ _ hstate' => cases hstate.symm.trans hstate'
      | data _ _ _ _ _ hstate' => cases hstate.symm.trans hstate'
  | headerExtended => exact readExtendedHeader_advances hstate h
  | application => exact readPayload_advances hstate h
  | ready => exact absurd hstate hcontinues.1

end

end Neutralino.websocketpp.processor
