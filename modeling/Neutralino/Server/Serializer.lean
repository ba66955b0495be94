import Neutralino.Config.GlobalVars
import Neutralino.Library.Utf8

/-!
The bytes of a JSON value, as the library of the framework writes them: `dump` with
`error_handler_t::replace`, which is what `jsonToString` calls.

* `utf8d`, `decode`: the table of the decoder, and what it makes of a byte.
* `Dump`, `dumpByte`, `dumpEscaped`: a string, byte by byte.
* `dump`: a value.
* `Follows`: the loop follows a decoder that repairs what is not text.
* `dump_eq`: **what is written is the text of the repaired value.**
-/

namespace Neutralino.serializer

open Utf8 (encode)
open Quoted (escapeChar)

/-! ### One byte -/

/-- `UTF8_ACCEPT`. -/
def utf8Accept : ℕ := 0

/-- `UTF8_REJECT`. -/
def utf8Reject : ℕ := 1

/-- `utf8d`: the classes of the bytes, and from 256 on the next states. -/
def utf8d : List ℕ := [
    0, 0, 0, 0, 0, 0, 0, 0, 0, 0, 0, 0, 0, 0, 0, 0, 0, 0, 0, 0, 0, 0, 0, 0, 0, 0, 0, 0, 0, 0, 0, 0,
    0, 0, 0, 0, 0, 0, 0, 0, 0, 0, 0, 0, 0, 0, 0, 0, 0, 0, 0, 0, 0, 0, 0, 0, 0, 0, 0, 0, 0, 0, 0, 0,
    0, 0, 0, 0, 0, 0, 0, 0, 0, 0, 0, 0, 0, 0, 0, 0, 0, 0, 0, 0, 0, 0, 0, 0, 0, 0, 0, 0, 0, 0, 0, 0,
    0, 0, 0, 0, 0, 0, 0, 0, 0, 0, 0, 0, 0, 0, 0, 0, 0, 0, 0, 0, 0, 0, 0, 0, 0, 0, 0, 0, 0, 0, 0, 0,
    1, 1, 1, 1, 1, 1, 1, 1, 1, 1, 1, 1, 1, 1, 1, 1, 9, 9, 9, 9, 9, 9, 9, 9, 9, 9, 9, 9, 9, 9, 9, 9,
    7, 7, 7, 7, 7, 7, 7, 7, 7, 7, 7, 7, 7, 7, 7, 7, 7, 7, 7, 7, 7, 7, 7, 7, 7, 7, 7, 7, 7, 7, 7, 7,
    8, 8, 2, 2, 2, 2, 2, 2, 2, 2, 2, 2, 2, 2, 2, 2, 2, 2, 2, 2, 2, 2, 2, 2, 2, 2, 2, 2, 2, 2, 2, 2,
    10, 3, 3, 3, 3, 3, 3, 3, 3, 3, 3, 3, 3, 4, 3, 3, 11, 6, 6, 6, 5, 8, 8, 8, 8, 8, 8, 8, 8, 8, 8, 8,
    0, 1, 2, 3, 5, 8, 7, 1, 1, 1, 4, 6, 1, 1, 1, 1, 1, 1, 1, 1, 1, 1, 1, 1, 1, 1, 1, 1, 1, 1, 1, 1,
    1, 0, 1, 1, 1, 1, 1, 0, 1, 0, 1, 1, 1, 1, 1, 1, 1, 2, 1, 1, 1, 1, 1, 2, 1, 2, 1, 1, 1, 1, 1, 1,
    1, 1, 1, 1, 1, 1, 1, 2, 1, 1, 1, 1, 1, 1, 1, 1, 1, 2, 1, 1, 1, 1, 1, 1, 1, 2, 1, 1, 1, 1, 1, 1,
    1, 1, 1, 1, 1, 1, 1, 3, 1, 3, 1, 1, 1, 1, 1, 1, 1, 3, 1, 1, 1, 1, 1, 3, 1, 3, 1, 1, 1, 1, 1, 1,
    1, 3, 1, 1, 1, 1, 1, 1, 1, 1, 1, 1, 1, 1, 1, 1]

/-- `decode`: the state and the code point after a byte. -/
def decode (state codep : ℕ) (byte : UInt8) : ℕ × ℕ :=
  let type := utf8d.getD byte.toNat 0
  let codep :=
    if state ≠ utf8Accept then (byte.toNat &&& 0x3F) ||| (codep <<< 6) % 2 ^ 32
    else (0xFF >>> type) &&& byte.toNat
  (utf8d.getD (256 + state * 16 + type) 0, codep)

/-- The digits of `%04x`. -/
def hex4 (n : ℕ) : Str :=
  [Quoted.hexDigit (n / 4096 % 16), Quoted.hexDigit (n / 256 % 16), Quoted.hexDigit (n / 16 % 16),
    Quoted.hexDigit (n % 16)]

/-- What is written for a code point, of which this is the last byte. -/
def escapeCodepoint (codepoint : ℕ) (byte : UInt8) : List UInt8 :=
  match codepoint with
  | 0x08 => encode "\\b".toList
  | 0x09 => encode "\\t".toList
  | 0x0A => encode "\\n".toList
  | 0x0C => encode "\\f".toList
  | 0x0D => encode "\\r".toList
  | 0x22 => encode "\\\"".toList
  | 0x5C => encode "\\\\".toList
  | codepoint => if codepoint ≤ 0x1F then encode ("\\u".toList ++ hex4 codepoint) else [byte]

/-! ### Strings -/

/-- The variables of `dump_escaped`; the buffer holds what was written so far, as
the output is only moved on in portions. -/
structure Dump where
  codepoint : ℕ := 0
  state : ℕ := utf8Accept
  buffer : List UInt8 := []
  bytesAfterLastAccept : ℕ := 0
  undumpedChars : ℕ := 0

/-- What one round of the loop makes of a byte, and whether it is read again. -/
def dumpByte (d : Dump) (byte : UInt8) : Dump × Bool :=
  let (state, codepoint) := decode d.state d.codepoint byte
  if state = utf8Accept then
    let buffer := d.buffer ++ escapeCodepoint codepoint byte
    ({ codepoint, state, buffer, bytesAfterLastAccept := buffer.length }, false)
  else if state = utf8Reject then
    let buffer := d.buffer.take d.bytesAfterLastAccept ++ [0xEF, 0xBF, 0xBD]
    ({ codepoint, state := utf8Accept, buffer, bytesAfterLastAccept := buffer.length },
      decide (0 < d.undumpedChars))
  else
    ({ d with
      codepoint, state
      buffer := d.buffer ++ [byte]
      undumpedChars := d.undumpedChars + 1 }, false)

/-- The rounds that a byte takes: no byte is read a third time, since nothing is
undumped the second time. -/
def dumpRounds (d : Dump) (byte : UInt8) : Dump :=
  let round := dumpByte d byte
  if round.2 then (dumpByte round.1 byte).1 else round.1

/-- `dump_escaped`. -/
def dumpEscaped (s : List UInt8) : List UInt8 :=
  let d := s.foldl dumpRounds {}
  if d.state = utf8Accept then d.buffer
  else d.buffer.take d.bytesAfterLastAccept ++ [0xEF, 0xBF, 0xBD]

/-! ### Values -/

/-- The bytes of a string, one for each `char`. -/
def bytesOf (s : Str) : List UInt8 := s.map fun c => UInt8.ofNat c.toNat

/-- A string in its quotes. -/
def dumpString (s : Str) : List UInt8 :=
  encode "\"".toList ++ (dumpEscaped (bytesOf s) ++ encode "\"".toList)

mutual

/-- `dump` without indentation. -/
def dump : Json → List UInt8
  | .null => encode "null".toList
  | .bool b => encode (if b then "true".toList else "false".toList)
  | .num n => encode (decimal n)
  | .str s => dumpString s
  | .arr xs =>
      encode "[".toList ++
        (List.intercalate (encode ",".toList) (dumpElements xs) ++ encode "]".toList)
  | .obj members =>
      encode "\x7b".toList ++
        (List.intercalate (encode ",".toList) (dumpMembers members) ++ encode "\x7d".toList)

def dumpElements : List Json → List (List UInt8)
  | [] => []
  | x :: xs => dump x :: dumpElements xs

def dumpMembers : List (Str × Json) → List (List UInt8)
  | [] => []
  | (key, x) :: members =>
      (dumpString key ++ (encode ":".toList ++ dump x)) :: dumpMembers members

end

/-- The text that a string is taken for. -/
def repairString (s : Str) : Str := Utf8.repair (bytesOf s)

mutual

/-- A value with its strings repaired. -/
def repaired : Json → Json
  | .null => .null
  | .bool b => .bool b
  | .num n => .num n
  | .str s => .str (repairString s)
  | .arr xs => .arr (repairedElements xs)
  | .obj members => .obj (repairedMembers members)

def repairedElements : List Json → List Json
  | [] => []
  | x :: xs => repaired x :: repairedElements xs

def repairedMembers : List (Str × Json) → List (Str × Json)
  | [] => []
  | (key, x) :: members => (repairString key, repaired x) :: repairedMembers members

end

/-! ### The decoder behind the table -/

section Decoder

variable {b : UInt8} {p : Utf8.Partial} {c : Char}

open Utf8 (Shape Partial Outcome)

/-- The state of a character that was read in part. -/
def stateOf : Shape → ℕ
  | .tail1 => 2
  | .tail2 => 3
  | .afterE0 => 4
  | .afterED => 5
  | .afterF0 => 6
  | .tail3 => 7
  | .afterF4 => 8

/-- A bound of the bits that were read. -/
def valueBound : Shape → ℕ
  | .tail1 => 2 ^ 15
  | .tail2 | .afterE0 | .afterED => 2 ^ 9
  | .afterF0 | .tail3 | .afterF4 => 2 ^ 3

lemma valueBound_next {shape shape' : Shape} (h : shape.next = some shape') :
    valueBound shape * 64 ≤ valueBound shape' := by
  cases shape <;> cases h <;> decide

/-- A state and a code point are those of an outcome. -/
def Agrees (outcome : Outcome) (decoded : ℕ × ℕ) : Prop :=
  match outcome with
  | .char c => decoded = (utf8Accept, c.toNat)
  | .more p => decoded = (stateOf p.shape, p.value) ∧ p.value < valueBound p.shape
  | .bad => decoded.1 = utf8Reject

instance (outcome : Outcome) (decoded : ℕ × ℕ) : Decidable (Agrees outcome decoded) := by
  cases outcome <;> unfold Agrees <;> infer_instance

/-- A byte that is to begin a character. -/
lemma decode_first (codep : ℕ) (b : UInt8) : Agrees (Utf8.first b) (decode utf8Accept codep b) := by
  have hall : ∀ n < 256, Agrees (Utf8.first (UInt8.ofNat n)) (decode utf8Accept 0 (UInt8.ofNat n)) := by
    decide +kernel
  have hb := hall b.toNat b.toNat_lt
  rw [UInt8.ofNat_toNat] at hb
  exact hb

/-- The classes of the bytes that continue a character. -/
lemma tail_classes (b : UInt8) :
    utf8d.getD b.toNat 0 < 16 ∧
      (utf8d.getD b.toNat 0 = 1 ↔ 0x80 ≤ b.toNat ∧ b.toNat ≤ 0x8F) ∧
      (utf8d.getD b.toNat 0 = 9 ↔ 0x90 ≤ b.toNat ∧ b.toNat ≤ 0x9F) ∧
      (utf8d.getD b.toNat 0 = 7 ↔ 0xA0 ≤ b.toNat ∧ b.toNat ≤ 0xBF) := by
  have hall : ∀ n < 256, utf8d.getD n 0 < 16 ∧
      (utf8d.getD n 0 = 1 ↔ 0x80 ≤ n ∧ n ≤ 0x8F) ∧ (utf8d.getD n 0 = 9 ↔ 0x90 ≤ n ∧ n ≤ 0x9F) ∧
      (utf8d.getD n 0 = 7 ↔ 0xA0 ≤ n ∧ n ≤ 0xBF) := by
    decide +kernel
  exact hall b.toNat b.toNat_lt

/-- The row of a state: it leads on for the classes of the bytes within its bounds. -/
lemma utf8d_row (shape : Shape) : ∀ type < 16, utf8d.getD (256 + stateOf shape * 16 + type) 0 =
    if type = 1 ∧ shape.low = 0x80 ∨ type = 9 ∧ shape.low ≤ 0x90 ∧ 0x9F ≤ shape.high ∨
        type = 7 ∧ shape.high = 0xBF then
      (shape.next.map stateOf).getD utf8Accept
    else utf8Reject := by
  cases shape <;> decide +kernel

/-- The next state of a character that was read in part. -/
lemma decode_state (shape : Shape) (codep : ℕ) (b : UInt8) : (decode (stateOf shape) codep b).1 =
    if shape.low ≤ b.toNat ∧ b.toNat ≤ shape.high then (shape.next.map stateOf).getD utf8Accept
    else utf8Reject := by
  obtain ⟨hlt, h1, h9, h7⟩ := tail_classes b
  show utf8d.getD (256 + stateOf shape * 16 + utf8d.getD b.toNat 0) 0 = _
  rw [utf8d_row shape _ hlt]
  refine if_congr ?_ rfl rfl
  rw [h1, h9, h7]
  cases shape <;> simp [Shape.low, Shape.high] <;> omega

lemma and_63_or {n v : ℕ} (hn : 0x80 ≤ n ∧ n ≤ 0xBF) (hv : v * 64 < 2 ^ 32) :
    (n &&& 0x3F) ||| (v <<< 6) % 2 ^ 32 = v * 64 + (n - 0x80) := by
  have hand : n &&& 0x3F = n - 0x80 := by
    rw [show 0x3F = 2 ^ 6 - 1 from rfl, Nat.and_two_pow_sub_one_eq_mod]
    omega
  have hlt : n - 0x80 < 2 ^ 6 := by omega
  rw [hand, Nat.shiftLeft_eq, Nat.mod_eq_of_lt hv, Nat.or_comm, Nat.mul_comm,
    show 64 = 2 ^ 6 from rfl, ← Nat.two_pow_add_eq_or_of_lt hlt]

/-- A byte that is to continue a character. -/
lemma decode_next (hp : p.value < valueBound p.shape) (b : UInt8) :
    match p.next b with
    | .char _ => decode (stateOf p.shape) p.value b = (utf8Accept, p.value * 64 + (b.toNat - 0x80))
    | .more p' => Agrees (.more p') (decode (stateOf p.shape) p.value b)
    | .bad => (decode (stateOf p.shape) p.value b).1 = utf8Reject := by
  have hstate := decode_state p.shape p.value b
  have hcodep (hwithin : p.Within b) :
      (decode (stateOf p.shape) p.value b).2 = p.value * 64 + (b.toNat - 0x80) := by
    have hne : stateOf p.shape ≠ utf8Accept := by cases p.shape <;> decide
    have hbound : valueBound p.shape ≤ 2 ^ 15 := by cases p.shape <;> decide
    show (if stateOf p.shape ≠ utf8Accept then _ else _) = _
    rw [if_pos hne, and_63_or (Utf8.isTail_iff.mp hwithin.isTail) (by omega)]
  cases hnext : p.next b with
  | char c =>
      obtain ⟨hwithin, hnone, -⟩ := Utf8.next_eq_char_iff.mp hnext
      rw [hnone] at hstate
      exact Prod.ext (hstate.trans (if_pos hwithin)) (hcodep hwithin)
  | more p' =>
      obtain ⟨hwithin, hsome, hvalue⟩ := Utf8.next_eq_more_iff.mp hnext
      rw [hsome] at hstate
      refine ⟨Prod.ext (hstate.trans (if_pos hwithin)) ((hcodep hwithin).trans hvalue.symm), ?_⟩
      have hb := Utf8.isTail_iff.mp hwithin.isTail
      have hbounds := valueBound_next hsome
      omega
  | bad =>
      have hnot : ¬ p.Within b := by
        intro hwithin
        cases hshape : p.shape.next with
        | none => cases hnext.symm.trans (Utf8.next_eq_char_iff.mpr ⟨hwithin, hshape, rfl⟩)
        | some shape =>
            have hmore : p.next b = .more ⟨shape, p.value * 64 + (b.toNat - 0x80)⟩ :=
              Utf8.next_eq_more_iff.mpr ⟨hwithin, hshape, rfl⟩
            cases hnext.symm.trans hmore
      exact hstate.trans (if_neg hnot)

end Decoder

/-! ### The loop -/

section Loop

variable {b : UInt8} {c : Char} {d : Dump} {out : List Char} {p : Option Utf8.Partial}
  {pending : List UInt8}

/-- A string as the text of its characters, escaped. -/
def written (text : List Char) : List UInt8 := encode (text.flatMap escapeChar)

lemma written_append (text text' : List Char) :
    written (text ++ text') = written text ++ written text' := by
  rw [written, List.flatMap_append, Utf8.encode_append]
  rfl

lemma written_replacement : written [Utf8.replacement] = [0xEF, 0xBF, 0xBD] := by decide

/-- The loop follows the decoder: what was accepted is the text so far, and the
bytes of the pending character are undumped. -/
structure Follows (d : Dump) (out : List Char) (p : Option Utf8.Partial) (pending : List UInt8) :
    Prop where
  buffer : d.buffer = written out ++ pending
  accepted : d.bytesAfterLastAccept = (written out).length
  undumped : d.undumpedChars = pending.length
  start : p = none → d.state = utf8Accept ∧ pending = []
  inside : ∀ q, p = some q → d.state = stateOf q.shape ∧ d.codepoint = q.value ∧
    q.value < valueBound q.shape ∧ pending ≠ [] ∧
      ∀ bytes c, Utf8.Completes q bytes c → String.utf8EncodeChar c = pending ++ bytes

lemma Follows.take (h : Follows d out p pending) :
    d.buffer.take d.bytesAfterLastAccept = written out := by
  rw [h.buffer, h.accepted, List.take_left]

/-- What is written for a character of one byte. -/
lemma escapeCodepoint_first (h : Utf8.first b = .char c) :
    escapeCodepoint c.toNat b = written [c] := by
  have hall : ∀ n < 128, escapeCodepoint (Char.ofNat n).toNat (UInt8.ofNat n) =
      written [Char.ofNat n] := by
    decide +kernel
  obtain ⟨hb, rfl⟩ := Utf8.first_eq_char h
  have hwritten := hall b.toNat (by omega)
  rwa [UInt8.ofNat_toNat] at hwritten

/-- What is written for a character of more bytes. -/
lemma escapeCodepoint_of_le {codepoint : ℕ} (h : 0x80 ≤ codepoint) :
    escapeCodepoint codepoint b = [b] := by
  unfold escapeCodepoint
  split
  all_goals first | omega | exact if_neg (by omega)

/-- A character beyond ASCII is not escaped. -/
lemma written_of_le (h : 0x80 ≤ c.toNat) : written [c] = String.utf8EncodeChar c := by
  have hplain : Quoted.IsPlain c := by
    refine ⟨?_, ?_, by omega⟩
    · rintro rfl
      exact absurd h (by decide)
    · rintro rfl
      exact absurd h (by decide)
  rw [written, List.flatMap_singleton, Quoted.escapeChar_of_plain hplain, Utf8.encode_cons,
    Utf8.encode_nil, List.append_nil]

variable {codepoint state : ℕ}

lemma dumpByte_accept (h : decode d.state d.codepoint b = (utf8Accept, codepoint)) :
    (dumpByte d b).2 = false ∧ (dumpByte d b).1.state = utf8Accept ∧
      (dumpByte d b).1.buffer = d.buffer ++ escapeCodepoint codepoint b ∧
      (dumpByte d b).1.bytesAfterLastAccept = (d.buffer ++ escapeCodepoint codepoint b).length ∧
      (dumpByte d b).1.undumpedChars = 0 := by
  unfold dumpByte
  rw [h]
  exact ⟨rfl, rfl, rfl, rfl, rfl⟩

lemma dumpByte_reject (h : (decode d.state d.codepoint b).1 = utf8Reject) :
    (dumpByte d b).2 = decide (0 < d.undumpedChars) ∧ (dumpByte d b).1.state = utf8Accept ∧
      (dumpByte d b).1.buffer =
        d.buffer.take d.bytesAfterLastAccept ++ written [Utf8.replacement] ∧
      (dumpByte d b).1.bytesAfterLastAccept =
        (d.buffer.take d.bytesAfterLastAccept ++ written [Utf8.replacement]).length ∧
      (dumpByte d b).1.undumpedChars = 0 := by
  obtain ⟨codepoint, h⟩ : ∃ codepoint, decode d.state d.codepoint b = (utf8Reject, codepoint) :=
    ⟨_, Prod.ext h rfl⟩
  unfold dumpByte
  rw [h, written_replacement]
  exact ⟨rfl, rfl, rfl, rfl, rfl⟩

lemma dumpByte_more {shape : Utf8.Shape}
    (h : decode d.state d.codepoint b = (stateOf shape, codepoint)) :
    dumpByte d b = ({ d with
      codepoint := codepoint, state := stateOf shape, buffer := d.buffer ++ [b]
      undumpedChars := d.undumpedChars + 1 }, false) := by
  unfold dumpByte
  rw [h]
  cases shape <;> rfl

/-- The loop between two characters. -/
lemma Follows.of_accept (hstate : d.state = utf8Accept) (hbuffer : d.buffer = written out)
    (haccepted : d.bytesAfterLastAccept = (written out).length) (hundumped : d.undumpedChars = 0) :
    Follows d out none [] where
  buffer := by rw [hbuffer, List.append_nil]
  accepted := haccepted
  undumped := hundumped
  start _ := ⟨hstate, rfl⟩
  inside := nofun

/-- A byte that ends a character. -/
lemma dumpByte_char (hdecode : decode d.state d.codepoint b = (utf8Accept, codepoint))
    (hwritten : d.buffer ++ escapeCodepoint codepoint b = written (out ++ [c])) :
    (dumpByte d b).2 = false ∧ Follows (dumpByte d b).1 (out ++ [c]) none [] := by
  obtain ⟨hagain, hstate, hbuffer, haccepted, hundumped⟩ := dumpByte_accept hdecode
  rw [hwritten] at hbuffer haccepted
  exact ⟨hagain, .of_accept hstate hbuffer haccepted hundumped⟩

/-- A byte that goes with no character: what is pending is replaced, and the byte is read
again if something was. -/
lemma dumpByte_bad (h : Follows d out p pending)
    (hdecode : (decode d.state d.codepoint b).1 = utf8Reject) :
    (dumpByte d b).2 = decide (0 < pending.length) ∧
      Follows (dumpByte d b).1 (out ++ [Utf8.replacement]) none [] := by
  obtain ⟨hagain, hstate, hbuffer, haccepted, hundumped⟩ := dumpByte_reject hdecode
  rw [h.take, ← written_append] at hbuffer haccepted
  rw [h.undumped] at hagain
  exact ⟨hagain, .of_accept hstate hbuffer haccepted hundumped⟩

/-- A byte that is read as the beginning of a character. -/
lemma dumpByte_fresh (h : Follows d out none pending) (b : UInt8) :
    (dumpByte d b).2 = false ∧
      ∃ pending', Follows (dumpByte d b).1 (out ++ (Utf8.fresh b).1) (Utf8.fresh b).2 pending' := by
  obtain ⟨hstate, rfl⟩ := h.start rfl
  have hdecode := decode_first d.codepoint b
  rw [← hstate] at hdecode
  rw [Utf8.fresh]
  cases hfirst : Utf8.first b with
  | char c =>
      rw [hfirst] at hdecode
      have hwritten : d.buffer ++ escapeCodepoint c.toNat b = written (out ++ [c]) := by
        rw [h.buffer, List.append_nil, escapeCodepoint_first hfirst, ← written_append]
      obtain ⟨hagain, hfollows⟩ := dumpByte_char hdecode hwritten
      exact ⟨hagain, [], hfollows⟩
  | more p =>
      rw [hfirst] at hdecode
      rw [dumpByte_more hdecode.1, List.append_nil]
      refine ⟨rfl, [b], ?_, h.accepted, ?_, fun hnone => absurd hnone (Option.some_ne_none _), ?_⟩
      · rw [h.buffer, List.append_nil]
      · rw [h.undumped]
        rfl
      · intro q hq
        obtain rfl := Option.some.inj hq
        exact ⟨rfl, rfl, hdecode.2, by simp, fun bytes c hcompletes =>
          Utf8.reads_iff_encode.mp (.several hfirst hcompletes)⟩
  | bad =>
      rw [hfirst] at hdecode
      obtain ⟨hagain, hfollows⟩ := dumpByte_bad h hdecode
      exact ⟨hagain, [], hfollows⟩

/-- What is written where a pending character is completed. -/
lemma written_of_next {p : Utf8.Partial} (h : Follows d out (some p) pending)
    (hnext : p.next b = .char c) :
    d.buffer ++ escapeCodepoint (p.value * 64 + (b.toNat - 0x80)) b = written (out ++ [c]) := by
  obtain ⟨-, -, -, hpending, hcompletes⟩ := h.inside p rfl
  have hbytes := hcompletes [b] c (.last hnext)
  have hlength : 2 ≤ (String.utf8EncodeChar c).length := by
    have := List.length_pos_iff.mpr hpending
    rw [hbytes, List.length_append, List.length_singleton]
    omega
  have hc := Utf8.le_toNat_of_length hlength
  have hcodepoint : 0x80 ≤ p.value * 64 + (b.toNat - 0x80) := by
    obtain ⟨-, -, hchar⟩ := Utf8.next_eq_char_iff.mp hnext
    by_contra hlt
    rw [hchar, Utf8.toNat_ofNat (.inl (by omega))] at hc
    exact hlt hc
  rw [h.buffer, escapeCodepoint_of_le hcodepoint, List.append_assoc, ← hbytes, ← written_of_le hc,
    ← written_append]

/-- The rounds of a byte follow the step of the decoder. -/
lemma dumpRounds_follows (h : Follows d out p pending) (b : UInt8) :
    ∃ pending', Follows (dumpRounds d b) (out ++ (Utf8.step p b).1) (Utf8.step p b).2 pending' := by
  cases p with
  | none =>
      obtain ⟨hagain, hfollows⟩ := dumpByte_fresh h b
      rw [dumpRounds, hagain]
      exact hfollows
  | some p =>
      obtain ⟨hstate, hcodepoint, hvalue, hpending, hcompletes⟩ := h.inside p rfl
      have hdecode := decode_next hvalue b
      rw [← hstate, ← hcodepoint] at hdecode
      rw [dumpRounds, Utf8.step]
      cases hnext : p.next b with
      | char c =>
          rw [hnext] at hdecode
          obtain ⟨hagain, hfollows⟩ := dumpByte_char hdecode (hcodepoint ▸ written_of_next h hnext)
          rw [hagain]
          exact ⟨[], hfollows⟩
      | more p' =>
          rw [hnext] at hdecode
          rw [dumpByte_more hdecode.1, List.append_nil]
          refine ⟨pending ++ [b], ?_, h.accepted, ?_,
            fun hnone => absurd hnone (Option.some_ne_none _), ?_⟩
          · show d.buffer ++ [b] = _
            rw [h.buffer, List.append_assoc]
          · show d.undumpedChars + 1 = _
            rw [h.undumped, List.length_append, List.length_singleton]
          · intro q hq
            obtain rfl := Option.some.inj hq
            refine ⟨rfl, rfl, hdecode.2, by simp, fun bytes c hrest => ?_⟩
            rw [hcompletes _ c (.more hnext hrest), List.append_assoc]
            rfl
      | bad =>
          -- the replacement is written, and the byte begins a character of its own
          rw [hnext] at hdecode
          obtain ⟨hagain, hfollows⟩ := dumpByte_bad h hdecode
          obtain ⟨-, hfresh⟩ := dumpByte_fresh hfollows b
          rw [hagain, decide_eq_true (List.length_pos_iff.mpr hpending), if_pos rfl]
          simpa using hfresh

/-- The loop follows the decoder to the end of a string. -/
lemma foldl_follows (h : Follows d out p pending) (s : List UInt8) :
    (let d := s.foldl dumpRounds d
      if d.state = utf8Accept then d.buffer
      else d.buffer.take d.bytesAfterLastAccept ++ [0xEF, 0xBF, 0xBD]) =
        written (out ++ Utf8.readFrom p s) := by
  induction s generalizing d out p pending with
  | nil =>
      rw [List.foldl_nil, Utf8.readFrom]
      cases p with
      | none =>
          obtain ⟨hstate, rfl⟩ := h.start rfl
          simp only [hstate, if_true, h.buffer, Option.isSome_none, Bool.false_eq_true, if_false,
            List.append_nil]
      | some p =>
          have hne : d.state ≠ utf8Accept := by
            rw [(h.inside p rfl).1]
            cases p.shape <;> decide
          simp only [hne, if_false, h.take, Option.isSome_some, if_true, written_append,
            written_replacement]
  | cons b s ih =>
      obtain ⟨pending', hnext⟩ := dumpRounds_follows h b
      rw [List.foldl_cons, ih hnext, Utf8.readFrom, List.append_assoc]

/-- **What is written of a string** is its repaired text, escaped. -/
theorem dumpEscaped_eq (s : List UInt8) : dumpEscaped s = written (Utf8.repair s) := by
  have hstart : Follows {} [] none [] := ⟨rfl, rfl, rfl, fun _ => ⟨rfl, rfl⟩, nofun⟩
  exact foldl_follows hstart s

end Loop

/-! ### What is written -/

lemma encode_intercalate (sep : Str) (texts : List Str) :
    encode (List.intercalate sep texts) = List.intercalate (encode sep) (texts.map encode) :=
  JsonText.flatMap_intercalate String.utf8EncodeChar sep texts

lemma dumpString_eq (s : Str) : dumpString s = encode (JsonText.quote (repairString s)) := by
  rw [dumpString, dumpEscaped_eq, written, ← Utf8.encode_append, ← Utf8.encode_append]
  rfl

mutual

/-- **What is written of a value** is the text of the repaired value. -/
theorem dump_eq : ∀ j : Json, dump j = encode (JsonText.dump (repaired j).value)
  | .null => rfl
  | .bool b => by cases b <;> rfl
  | .num n => rfl
  | .str s => dumpString_eq s
  | .arr xs => by
      rw [dump, repaired, Json.value, JsonText.dump, dumpElements_eq xs, ← encode_intercalate,
        ← Utf8.encode_append, ← Utf8.encode_append]
      rfl
  | .obj members => by
      rw [dump, repaired, Json.value, JsonText.dump, dumpMembers_eq members, ← encode_intercalate,
        ← Utf8.encode_append, ← Utf8.encode_append]
      rfl

lemma dumpElements_eq : ∀ xs : List Json,
    dumpElements xs = (JsonText.dumpList (Json.values (repairedElements xs))).map encode
  | [] => rfl
  | x :: xs => by
      rw [dumpElements, dump_eq x, dumpElements_eq xs]
      rfl

lemma dumpMembers_eq : ∀ members : List (Str × Json),
    dumpMembers members =
      (JsonText.dumpMembers (Json.memberValues (repairedMembers members))).map encode
  | [] => rfl
  | (key, x) :: members => by
      rw [dumpMembers, dump_eq x, dumpMembers_eq members, dumpString_eq, ← Utf8.encode_append,
        ← Utf8.encode_append]
      rfl

end

end Neutralino.serializer
