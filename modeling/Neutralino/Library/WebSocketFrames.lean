import Mathlib.Algebra.Order.Ring.Nat
import Mathlib.Data.List.Basic
import Mathlib.Tactic.Ring

/-!
The frames of the WebSocket protocol, and the messages they make up.

* `Opcode`, `Frame`: a frame as a client sends it, with its masking key.
* `mask`, `headBytes`, `Frame.encode`: its bytes; `serverFrame`: those of a frame of a server.
* `mask_mask`: **masking twice changes nothing.**
* `ofBigEndian`, `bigEndian_ofBigEndian`: the numbers in the headers.
* `Message`, `Rules`, `Receives`: what a receiver makes of a frame, given the part of a
  message that it has, and the frames it accepts.
* `ReceivesAll`: a sequence of frames.
-/

namespace WebSocket

/-! ### Frames -/

/-- The opcodes in use. -/
inductive Opcode where
  | continuation
  | text
  | binary
  | close
  | ping
  | pong
  deriving DecidableEq

namespace Opcode

/-- The number of an opcode. -/
def code : Opcode → UInt8
  | continuation => 0x0
  | text => 0x1
  | binary => 0x2
  | close => 0x8
  | ping => 0x9
  | pong => 0xA

/-- The opcodes of the frames that stand between the parts of a message. -/
def isControl : Opcode → Bool
  | close | ping | pong => true
  | _ => false

end Opcode

/-- The four bytes that a payload is masked with. -/
abbrev Key := Fin 4 → UInt8

/-- The byte of a key for a place in the payload. -/
def Key.byte (key : Key) (i : ℕ) : UInt8 := key (Fin.ofNat 4 i)

/-- A frame of a client. -/
structure Frame where
  fin : Bool
  opcode : Opcode
  key : Key
  payload : List UInt8
  length_lt : payload.length < 2 ^ 64

/-- A payload from the place `i` on, masked. -/
def mask (key : Key) : ℕ → List UInt8 → List UInt8
  | _, [] => []
  | i, b :: bytes => (b ^^^ key.byte i) :: mask key (i + 1) bytes

/-- The bytes of a number, the highest first. -/
def bigEndian (n : ℕ) : ℕ → List UInt8
  | 0 => []
  | k + 1 => UInt8.ofNat (n / 256 ^ k) :: bigEndian n k

/-- The seven bits that stand for a length. -/
def lengthCode (n : ℕ) : ℕ := if n ≤ 125 then n else if n ≤ 0xFFFF then 126 else 127

/-- The bytes of a length behind these bits. -/
def lengthBytes (n : ℕ) : List UInt8 :=
  if n ≤ 125 then [] else if n ≤ 0xFFFF then bigEndian n 2 else bigEndian n 8

/-- The first byte of a frame. -/
def firstByte (fin : Bool) (opcode : Opcode) : UInt8 := (if fin then 0x80 else 0) ||| opcode.code

/-- The bytes of a frame before its payload, which is of the length `n`. -/
def headBytes (fin : Bool) (opcode : Opcode) (key : Key) (n : ℕ) : List UInt8 :=
  firstByte fin opcode :: UInt8.ofNat (128 + lengthCode n) :: (lengthBytes n ++ List.ofFn key)

/-- The bytes of a frame. -/
def Frame.encode (f : Frame) : List UInt8 :=
  headBytes f.fin f.opcode f.key f.payload.length ++ mask f.key 0 f.payload

/-- The bytes of a frame of a server, which is not masked. -/
def serverFrame (fin : Bool) (opcode : Opcode) (payload : List UInt8) : List UInt8 :=
  firstByte fin opcode :: UInt8.ofNat (lengthCode payload.length) ::
    (lengthBytes payload.length ++ payload)

/-! ### Masks -/

section Masks

variable {key : Key} {i : ℕ} {bytes : List UInt8}

@[simp] lemma length_mask : (mask key i bytes).length = bytes.length := by
  induction bytes generalizing i with
  | nil => rfl
  | cons b bytes ih => rw [mask, List.length_cons, List.length_cons, ih]

lemma mask_append (bytes' : List UInt8) :
    mask key i (bytes ++ bytes') = mask key i bytes ++ mask key (i + bytes.length) bytes' := by
  induction bytes generalizing i with
  | nil => rfl
  | cons b bytes ih =>
      rw [List.cons_append, mask, mask, ih, List.length_cons, List.cons_append, Nat.add_right_comm,
        Nat.add_assoc]

/-- **Masking twice changes nothing.** -/
theorem mask_mask : mask key i (mask key i bytes) = bytes := by
  induction bytes generalizing i with
  | nil => rfl
  | cons b bytes ih => rw [mask, mask, ih, UInt8.xor_assoc, UInt8.xor_self, UInt8.xor_zero]

end Masks

/-! ### Numbers -/

@[simp] lemma length_bigEndian (n k : ℕ) : (bigEndian n k).length = k := by
  induction k with
  | zero => rfl
  | succ k ih => rw [bigEndian, List.length_cons, ih]

/-- The number of bytes, the highest first. -/
def ofBigEndian (bytes : List UInt8) : ℕ := bytes.foldl (fun n b => n * 256 + b.toNat) 0

lemma foldl_bigEndian (n k m : ℕ) :
    (bigEndian n k).foldl (fun n b => n * 256 + b.toNat) m = m * 256 ^ k + n % 256 ^ k := by
  induction k generalizing m with
  | zero => simp [bigEndian, Nat.mod_one]
  | succ k ih =>
      have hbyte : (UInt8.ofNat (n / 256 ^ k)).toNat = n / 256 ^ k % 256 := by
        rw [UInt8.toNat_ofNat']
      have hsplit : n % 256 ^ (k + 1) = n % 256 ^ k + 256 ^ k * (n / 256 ^ k % 256) :=
        Nat.mod_pow_succ
      rw [bigEndian, List.foldl_cons, ih, hbyte, hsplit, pow_succ]
      ring

lemma ofBigEndian_bigEndian {n k : ℕ} (h : n < 256 ^ k) : ofBigEndian (bigEndian n k) = n := by
  rw [ofBigEndian, foldl_bigEndian, Nat.zero_mul, Nat.zero_add, Nat.mod_eq_of_lt h]

lemma foldl_ofBigEndian (bytes : List UInt8) (m : ℕ) :
    bytes.foldl (fun n b => n * 256 + b.toNat) m = m * 256 ^ bytes.length + ofBigEndian bytes := by
  induction bytes generalizing m with
  | nil => simp [ofBigEndian]
  | cons b bytes ih =>
      rw [ofBigEndian, List.foldl_cons, List.foldl_cons, ih, ih (0 * 256 + b.toNat),
        List.length_cons,
        pow_succ]
      ring

lemma ofBigEndian_cons (b : UInt8) (bytes : List UInt8) :
    ofBigEndian (b :: bytes) = b.toNat * 256 ^ bytes.length + ofBigEndian bytes := by
  show bytes.foldl (fun n b => n * 256 + b.toNat) (0 * 256 + b.toNat) = _
  rw [foldl_ofBigEndian, Nat.zero_mul, Nat.zero_add]

lemma ofBigEndian_lt (bytes : List UInt8) : ofBigEndian bytes < 256 ^ bytes.length := by
  induction bytes with
  | nil => decide
  | cons b bytes ih =>
      have hb : b.toNat + 1 ≤ 256 := b.toNat_lt
      rw [ofBigEndian_cons, List.length_cons, pow_succ]
      calc b.toNat * 256 ^ bytes.length + ofBigEndian bytes
          < b.toNat * 256 ^ bytes.length + 256 ^ bytes.length := Nat.add_lt_add_left ih _
        _ = (b.toNat + 1) * 256 ^ bytes.length := by ring
        _ ≤ 256 * 256 ^ bytes.length := Nat.mul_le_mul_right _ hb
        _ = 256 ^ bytes.length * 256 := Nat.mul_comm _ _

lemma bigEndian_add_mul (n m k : ℕ) : bigEndian (n + m * 256 ^ k) k = bigEndian n k := by
  induction k generalizing m with
  | zero => rfl
  | succ k ih =>
      have hdiv : (n + m * 256 ^ (k + 1)) / 256 ^ k = n / 256 ^ k + 256 * m := by
        rw [pow_succ, show m * (256 ^ k * 256) = 256 ^ k * (256 * m) by ring,
          Nat.add_mul_div_left _ _ (Nat.pow_pos (by decide))]
      have hbyte : UInt8.ofNat (n / 256 ^ k + 256 * m) = UInt8.ofNat (n / 256 ^ k) := by
        refine UInt8.toNat_inj.mp ?_
        rw [UInt8.toNat_ofNat', UInt8.toNat_ofNat', Nat.add_mul_mod_self_left]
      have hrest : m * 256 ^ (k + 1) = m * 256 * 256 ^ k := by ring
      rw [bigEndian, bigEndian, hdiv, hbyte, hrest, ih]

/-- Bytes are those of their number. -/
lemma bigEndian_ofBigEndian (bytes : List UInt8) :
    bigEndian (ofBigEndian bytes) bytes.length = bytes := by
  induction bytes with
  | nil => rfl
  | cons b bytes ih =>
      have hlt := ofBigEndian_lt bytes
      have hdiv : ofBigEndian (b :: bytes) / 256 ^ bytes.length = b.toNat := by
        rw [ofBigEndian_cons, Nat.add_comm, Nat.add_mul_div_right _ _ (Nat.pow_pos (by decide)),
          Nat.div_eq_of_lt hlt, Nat.zero_add]
      rw [List.length_cons, bigEndian, hdiv, UInt8.ofNat_toNat, ofBigEndian_cons, Nat.add_comm,
        bigEndian_add_mul, ih]

/-! ### Receiving -/

/-- A message, or the part of one that was received. -/
structure Message where
  opcode : Opcode
  payload : List UInt8

/-- What a receiver accepts: so many bytes behind so many others, and of a text a message in
one frame, a part of a message, and a message whose last part has come. -/
structure Rules where
  fits : ℕ → ℕ → Prop
  whole : List UInt8 → Prop
  part : List UInt8 → Prop
  last : List UInt8 → Prop

/-- What a receiver makes of a frame: the part of a message that it has then, and the
messages that are complete. -/
inductive Receives (rules : Rules) :
    Option Message → Frame → Option Message → List Message → Prop
  | control {part : Option Message} {f : Frame} : f.opcode.isControl = true → f.fin = true →
      f.payload.length ≤ 125 → Receives rules part f part [⟨f.opcode, f.payload⟩]
  | whole {f : Frame} : f.opcode = .text ∨ f.opcode = .binary → f.fin = true →
      rules.fits 0 f.payload.length → (f.opcode = .text → rules.whole f.payload) →
      Receives rules none f none [⟨f.opcode, f.payload⟩]
  | first {f : Frame} : f.opcode = .text ∨ f.opcode = .binary → f.fin = false →
      rules.fits 0 f.payload.length → (f.opcode = .text → rules.part f.payload) →
      Receives rules none f (some ⟨f.opcode, f.payload⟩) []
  | more {part : Message} {f : Frame} : f.opcode = .continuation → f.fin = false →
      rules.fits part.payload.length f.payload.length →
      (part.opcode = .text → rules.part (part.payload ++ f.payload)) →
      Receives rules (some part) f (some ⟨part.opcode, part.payload ++ f.payload⟩) []
  | last {part : Message} {f : Frame} : f.opcode = .continuation → f.fin = true →
      rules.fits part.payload.length f.payload.length →
      (part.opcode = .text → rules.last (part.payload ++ f.payload)) →
      Receives rules (some part) f none [⟨part.opcode, part.payload ++ f.payload⟩]

/-- What a receiver makes of a sequence of frames. -/
inductive ReceivesAll (rules : Rules) :
    Option Message → List Frame → Option Message → List Message → Prop
  | nil (part : Option Message) : ReceivesAll rules part [] part []
  | cons {part part' part'' : Option Message} {f : Frame} {fs : List Frame}
      {messages messages' : List Message} : Receives rules part f part' messages →
      ReceivesAll rules part' fs part'' messages' →
      ReceivesAll rules part (f :: fs) part'' (messages ++ messages')

lemma ReceivesAll.append {rules : Rules} {part part' part'' : Option Message}
    {fs fs' : List Frame} {messages messages' : List Message}
    (h : ReceivesAll rules part fs part' messages)
    (h' : ReceivesAll rules part' fs' part'' messages') :
    ReceivesAll rules part (fs ++ fs') part'' (messages ++ messages') := by
  induction h with
  | nil part => exact h'
  | cons hreceives _ ih =>
      rw [List.append_assoc]
      exact .cons hreceives (ih h')

lemma ReceivesAll.single {rules : Rules} {part part' : Option Message} {f : Frame}
    {messages : List Message} (h : Receives rules part f part' messages) :
    ReceivesAll rules part [f] part' messages := by
  rw [← List.append_nil messages]
  exact .cons h (.nil part')

end WebSocket
