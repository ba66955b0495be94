import Neutralino.Server.FrameReader

/-!
The frames that the reader of a WebSocket receives, and the bytes that it refuses.

* `rules`: the frames that are received.
* `Begins`: the head of a frame that may follow what was received of a message.
* `Refused`: bytes that no frame begins with, which is received.
* `validateIncomingBasicHeader_iff`: the basic headers that pass.
* `refused_of_basicHeader` to `refused_of_incomplete`: **what the reader finds wrong is refused.**
-/

namespace Neutralino.websocketpp.processor

open frame
open Utf8 (IsText IsPrefix acceptAll)
open WebSocket (Frame Opcode Key Rules Receives headBytes mask firstByte lengthCode lengthBytes)

/-! ### What is received -/

/-- The frames that are received: what a message has is counted in 64 bits, and of a text in
several frames the last character may be incomplete. -/
def rules : Rules where
  fits received needed := (received + needed) % 2 ^ 64 ≤ maxMessageSize
  whole := IsText
  part := IsPrefix
  last := IsPrefix

/-- A message of the protocol. -/
def Message.of (m : WebSocket.Message) : Message := ⟨m.opcode.code, m.payload⟩

/-- The bytes that were received of a message. -/
def received (part : Option WebSocket.Message) : List UInt8 := (part.map (·.payload)).getD []

/-- The message with more of its payload. -/
def grown (part : Option WebSocket.Message) (op : Opcode) (taken : List UInt8) :
    WebSocket.Message :=
  ⟨(part.map (·.opcode)).getD op, received part ++ taken⟩

/-- The head of a frame that may follow what was received. -/
structure Begins (part : Option WebSocket.Message) (fin : Bool) (op : Opcode) (n : ℕ) : Prop where
  lt : n < 2 ^ 64
  control : op.isControl = true → fin = true ∧ n ≤ 125
  continuation : op.isControl = false → (op = .continuation ↔ part ≠ none)
  fits : op.isControl = false → rules.fits (received part).length n

/-- Bytes that no frame begins with, which is received, whatever follows. -/
def Refused (part : Option WebSocket.Message) (bytes : List UInt8) : Prop :=
  ∀ f part' messages more more', bytes ++ more = f.encode ++ more' →
    ¬ Receives rules part f part' messages

/-! ### Frames that are received -/

section Received

variable {part part' part'' : Option WebSocket.Message} {f : Frame} {bytes : List UInt8}
  {messages messages' : List WebSocket.Message} {fin : Bool} {op : Opcode} {n : ℕ}

lemma Refused.append (h : Refused part bytes) (more : List UInt8) :
    Refused part (bytes ++ more) := by
  intro f part' messages more' more'' heq
  rw [List.append_assoc] at heq
  exact h f part' messages _ _ heq

/-- The head of a frame that is received. -/
lemma begins_of_receives (h : Receives rules part f part' messages) :
    Begins part f.fin f.opcode f.payload.length := by
  refine ⟨f.length_lt, ?_, ?_, ?_⟩ <;> intro hop
  · cases h with
    | control _ hfin hlength => exact ⟨hfin, hlength⟩
    | whole hdata => obtain hdata | hdata := hdata <;> rw [hdata] at hop <;> cases hop
    | first hdata => obtain hdata | hdata := hdata <;> rw [hdata] at hop <;> cases hop
    | more hcont => rw [hcont] at hop; cases hop
    | last hcont => rw [hcont] at hop; cases hop
  · cases h with
    | control hcontrol => rw [hcontrol] at hop; cases hop
    | whole hdata => obtain hdata | hdata := hdata <;> simp [hdata]
    | first hdata => obtain hdata | hdata := hdata <;> simp [hdata]
    | more hcont => simp [hcont]
    | last hcont => simp [hcont]
  · cases h with
    | control hcontrol => rw [hcontrol] at hop; cases hop
    | whole _ _ hfits => exact hfits
    | first _ _ hfits => exact hfits
    | more _ _ hfits => exact hfits
    | last _ _ hfits => exact hfits

/-- The text of a frame that is received begins a text, with what was received before. -/
lemma isPrefix_of_receives (h : Receives rules part f part' messages)
    (hop : f.opcode.isControl = false) (htext : (grown part f.opcode []).opcode = .text) :
    IsPrefix (received part ++ f.payload) := by
  cases h with
  | control hcontrol => rw [hcontrol] at hop; cases hop
  | whole _ _ _ hwhole => exact (hwhole htext).isPrefix
  | first _ _ _ hpart => exact hpart htext
  | more _ _ _ hpart => exact hpart htext
  | last _ _ _ hlast => exact hlast htext

/-- Receiving leaves nothing open. -/
lemma receives_unique {part'' : Option WebSocket.Message}
    (h : Receives rules part f part' messages) (h' : Receives rules part f part'' messages') :
    part' = part'' ∧ messages = messages' := by
  cases h <;> cases h' <;> simp_all [Opcode.isControl]

end Received

/-! ### Headers -/

section Headers

variable {part part' : Option WebSocket.Message} {fin : Bool} {op : Opcode} {n : ℕ}
  {h : BasicHeader} {e : ExtendedHeader} {newMsg : Bool}

lemma invalid_getOpcode (h : BasicHeader) : opcode.invalid (getOpcode h) = false := by
  have hall : ∀ n < 256, opcode.invalid (UInt8.ofNat n &&& 0x0F) = false := by decide +kernel
  have hb := hall h.b0.toNat h.b0.toNat_lt
  rw [UInt8.ofNat_toNat] at hb
  exact hb

lemma error_else_eq_none_iff {c : Prop} [Decidable c] {ec : Error} {rest : Option Error} :
    (if c then some ec else rest) = none ↔ ¬ c ∧ rest = none := by
  split_ifs with hc <;> simp [hc]

/-- The basic headers that pass. -/
lemma validateIncomingBasicHeader_iff : validateIncomingBasicHeader h true newMsg = none ↔
    (opcode.isControl (getOpcode h) = true →
      getFin h = true ∧ getBasicSize h ≤ limits.payloadSizeBasic) ∧
    (getRsv1 h = false ∧ getRsv2 h = false ∧ getRsv3 h = false) ∧
    opcode.reserved (getOpcode h) = false ∧
    (opcode.isControl (getOpcode h) = false →
      (getOpcode h = opcode.continuation ↔ newMsg = false)) ∧
    getMasked h = true := by
  have hcont : getOpcode h = opcode.continuation → opcode.isControl (getOpcode h) = false := by
    intro hop
    rw [hop]
    decide
  simp only [validateIncomingBasicHeader, error_else_eq_none_iff, invalid_getOpcode]
  grind

lemma lengthCode_le (n : ℕ) : lengthCode n ≤ 125 ↔ n ≤ 125 := by
  rw [lengthCode]
  split_ifs <;> omega

/-- The basic header of a frame that may follow passes. -/
lemma Begins.validate (h : Begins part fin op n) : validateIncomingBasicHeader
    ⟨firstByte fin op, UInt8.ofNat (128 + lengthCode n)⟩ true part.isNone = none := by
  obtain ⟨hfin, h1, h2, h3, hop⟩ := first_byte fin op (UInt8.ofNat (128 + lengthCode n))
  obtain ⟨hmasked, hsize⟩ := second_byte (firstByte fin op) (lengthCode_lt n)
  rw [validateIncomingBasicHeader_iff, hfin, hop, hsize, hmasked, isControl_code,
    code_eq_continuation]
  refine ⟨fun hcontrol => ⟨(h.control hcontrol).1, ?_⟩, ⟨h1, h2, h3⟩, ?_, ?_, rfl⟩
  · exact (lengthCode_le n).mpr (h.control hcontrol).2
  · cases op <;> decide
  · intro hdata
    rw [h.continuation hdata]
    cases part <;> simp

/-- The extended header of a frame passes. -/
lemma validateIncomingExtendedHeader_frame {key : Key} {zeros : List UInt8} (b0 : UInt8)
    (hn : n < 2 ^ 64) (he : e.bytes = lengthBytes n ++ (List.ofFn key ++ zeros)) :
    validateIncomingExtendedHeader ⟨b0, UInt8.ofNat (128 + lengthCode n)⟩ e = none := by
  obtain ⟨-, hsize⟩ := second_byte b0 (lengthCode_lt n)
  rw [validateIncomingExtendedHeader, getPayloadSize_eq b0 hn key he, hsize, lengthCode]
  simp only [payloadSizeCode16bit, payloadSizeCode64bit, limits.payloadSizeBasic,
    limits.payloadSizeExtended]
  split_ifs <;> first | rfl | omega

end Headers

/-! ### Bytes that are refused -/

section Refusals

variable {part part' : Option WebSocket.Message} {fin : Bool} {op : Opcode} {key : Key} {n : ℕ}
  {h : BasicHeader} {e : ExtendedHeader} {f : Frame} {taken ext zeros more more' : List UInt8}
  {messages : List WebSocket.Message}

/-- The two bytes of a basic header, in a frame. -/
lemma basicHeader_of_frame (heq : h.b0 :: h.b1 :: more = f.encode ++ more') :
    h = ⟨firstByte f.fin f.opcode, UInt8.ofNat (128 + lengthCode f.payload.length)⟩ ∧
      more = (lengthBytes f.payload.length ++ List.ofFn f.key) ++
        (mask f.key 0 f.payload ++ more') := by
  rw [Frame.encode, List.append_assoc] at heq
  obtain ⟨hb0, hrest⟩ := List.cons.inj heq
  obtain ⟨hb1, hmore⟩ := List.cons.inj hrest
  refine ⟨?_, hmore⟩
  obtain ⟨b0, b1⟩ := h
  rw [show b0 = _ from hb0, show b1 = _ from hb1]

/-- A basic header that does not pass. -/
lemma refused_of_basicHeader (hinvalid : validateIncomingBasicHeader h true part.isNone ≠ none) :
    Refused part [h.b0, h.b1] := by
  intro f part' messages more more' heq hreceives
  obtain ⟨rfl, -⟩ := basicHeader_of_frame heq
  exact hinvalid (begins_of_receives hreceives).validate

/-- An extended header that does not pass. -/
lemma refused_of_extendedHeader (hlength : ext.length + basicHeaderLength = getHeaderLen h)
    (he : e.bytes = ext ++ zeros) (hinvalid : validateIncomingExtendedHeader h e ≠ none) :
    Refused part (h.b0 :: h.b1 :: ext) := by
  intro f part' messages more more' heq hreceives
  obtain ⟨rfl, hmore⟩ := basicHeader_of_frame heq
  rw [getHeaderLen_eq, basicHeaderLength] at hlength
  have hext : ext = lengthBytes f.payload.length ++ List.ofFn f.key :=
    (List.append_inj hmore (by simp; omega)).1
  rw [hext, List.append_assoc] at he
  exact hinvalid (validateIncomingExtendedHeader_frame _ f.length_lt he)

/-- A head that may not follow. -/
lemma refused_of_not_begins (hn : n < 2 ^ 64) (hnot : ¬ Begins part fin op n) :
    Refused part (headBytes fin op key n) := by
  intro f part' messages more more' heq hreceives
  rw [Frame.encode, List.append_assoc] at heq
  obtain ⟨rfl, rfl, -, rfl, -⟩ := headBytes_append_inj hn f.length_lt heq
  exact hnot (begins_of_receives hreceives)

/-- The frame that begins with a head and a part of its payload. -/
lemma frame_of_headBytes (hn : n < 2 ^ 64) (htaken : taken.length ≤ n)
    (heq : headBytes fin op key n ++ mask key 0 taken ++ more = f.encode ++ more') :
    f.fin = fin ∧ f.opcode = op ∧ f.payload.length = n ∧ ∃ rest, f.payload = taken ++ rest := by
  rw [Frame.encode, List.append_assoc, List.append_assoc] at heq
  obtain ⟨rfl, rfl, rfl, rfl, hrest⟩ := headBytes_append_inj hn f.length_lt heq
  refine ⟨rfl, rfl, rfl, f.payload.drop taken.length, ?_⟩
  rw [← List.take_append_drop taken.length f.payload, WebSocket.mask_append,
    List.append_assoc] at hrest
  have hmask : mask f.key 0 taken = mask f.key 0 (f.payload.take taken.length) :=
    (List.append_inj hrest (by simp [htaken])).1
  have htake : taken = f.payload.take taken.length := by
    calc taken = mask f.key 0 (mask f.key 0 taken) := WebSocket.mask_mask.symm
      _ = mask f.key 0 (mask f.key 0 (f.payload.take taken.length)) := by rw [hmask]
      _ = f.payload.take taken.length := WebSocket.mask_mask
  calc f.payload = f.payload.take taken.length ++ f.payload.drop taken.length :=
        (List.take_append_drop _ _).symm
    _ = taken ++ f.payload.drop taken.length := by rw [← htake]

lemma isPrefix_of_append {x y : List UInt8} (hxy : IsPrefix (x ++ y)) : IsPrefix x := by
  obtain ⟨z, hz⟩ := hxy
  exact ⟨y ++ z, by rwa [← List.append_assoc]⟩

/-- A text that does not begin one. -/
lemma refused_of_text (hn : n < 2 ^ 64) (htaken : taken.length ≤ n) (hop : op.isControl = false)
    (htext : (grown part op []).opcode = .text)
    (hnot : acceptAll none (received part ++ taken) = none) :
    Refused part (headBytes fin op key n ++ mask key 0 taken) := by
  intro f part' messages more more' heq hreceives
  obtain ⟨-, rfl, -, rest, hpayload⟩ := frame_of_headBytes hn htaken heq
  have hprefix := isPrefix_of_receives hreceives hop htext
  rw [hpayload, ← List.append_assoc] at hprefix
  obtain ⟨q, hq⟩ := Utf8.acceptAll_isSome_iff.mpr (isPrefix_of_append hprefix)
  cases hnot.symm.trans hq

/-- A text in one frame whose last character is incomplete. -/
lemma refused_of_incomplete (hn : n < 2 ^ 64) (htaken : taken.length = n)
    (hnot : acceptAll none taken ≠ some none) :
    Refused part (headBytes true .text key n ++ mask key 0 taken) := by
  intro f part' messages more more' heq hreceives
  obtain ⟨hfin, hop, hlength, rest, hpayload⟩ := frame_of_headBytes hn htaken.le heq
  have hrest : rest = [] := by
    rw [← List.length_eq_zero_iff]
    have hsum := congrArg List.length hpayload
    rw [List.length_append] at hsum
    omega
  rw [hrest, List.append_nil] at hpayload
  cases hreceives with
  | control hcontrol => rw [hop] at hcontrol; cases hcontrol
  | whole _ _ _ hwhole =>
      refine hnot (Utf8.acceptAll_eq_none_iff.mpr ?_)
      rw [← hpayload]
      exact hwhole hop
  | first _ hfin' => cases hfin.symm.trans hfin'
  | more hcont => cases hop.symm.trans hcont
  | last hcont => cases hop.symm.trans hcont

end Refusals

end Neutralino.websocketpp.processor
