import Neutralino.Library.Utf8Prefix
import Neutralino.Server.Serializer

/-!
The validator of the texts that come over a WebSocket. Its table is that of `serializer.utf8d`,
and so is the step, `serializer.decode`.

* `Validator`, `Validator.decode`, `Validator.complete`, `validate`: the validator of the source.
* `Validating`: the validator stands behind what is pending of a character.
* `decode_of_accepted`, `decode_of_rejected`: **what it makes of more bytes.**
* `validate_iff`: it holds of exactly the bytes of a text.
-/

namespace Neutralino.websocketpp.utf8_validator

open Utf8 (Partial accept acceptAll IsText)
open serializer (utf8Accept utf8Reject)

/-- `validator`. -/
structure Validator where
  state : ℕ := utf8Accept
  codepoint : ℕ := 0

namespace Validator

/-- `validator::decode`: whether the bytes are still those of a text. -/
def decode : Validator → List UInt8 → Validator × Bool
  | v, [] => (v, true)
  | v, byte :: bytes =>
      let (state, codepoint) := serializer.decode v.state v.codepoint byte
      if state = utf8Reject then ({ state, codepoint }, false)
      else decode { state, codepoint } bytes

/-- `validator::complete`. -/
def complete (v : Validator) : Bool := v.state == utf8Accept

end Validator

/-- `validate`. -/
def validate (s : List UInt8) : Bool :=
  let (v, valid) := Validator.decode {} s
  valid && v.complete

/-! ### What is pending -/

/-- The validator stands behind what is pending of a character. -/
def Validating (v : Validator) : Option Partial → Prop
  | none => v.state = utf8Accept
  | some q => v.state = serializer.stateOf q.shape ∧ v.codepoint = q.value ∧
      q.value < serializer.valueBound q.shape

section

variable {v : Validator} {p p' : Option Partial} {b : UInt8} {bytes : List UInt8}

lemma validating_new : Validating {} none := rfl

lemma stateOf_ne (shape : Utf8.Shape) :
    serializer.stateOf shape ≠ utf8Accept ∧ serializer.stateOf shape ≠ utf8Reject := by
  cases shape <;> decide

/-- The validator is complete exactly if nothing is pending. -/
lemma Validating.complete_iff (h : Validating v p) : v.complete = true ↔ p = none := by
  rw [Validator.complete, beq_iff_eq]
  cases p with
  | none => exact iff_of_true h rfl
  | some q => exact iff_of_false (fun hv => (stateOf_ne q.shape).1 (h.1.symm.trans hv)) (by simp)

/-- One byte, accepted. -/
lemma Validating.step (h : Validating v p) (hp : accept p b = some p') :
    (serializer.decode v.state v.codepoint b).1 ≠ utf8Reject ∧
      Validating ⟨(serializer.decode v.state v.codepoint b).1,
        (serializer.decode v.state v.codepoint b).2⟩ p' := by
  cases p with
  | none =>
      have hfirst := serializer.decode_first v.codepoint b
      rw [accept] at hp
      rw [show v.state = utf8Accept from h]
      cases hb : Utf8.first b with
      | char c =>
          rw [hb] at hp hfirst
          cases hp
          rw [show serializer.decode utf8Accept v.codepoint b = (utf8Accept, c.toNat) from hfirst]
          exact ⟨Nat.zero_ne_one, rfl⟩
      | more q =>
          rw [hb] at hp hfirst
          cases hp
          obtain ⟨hdecode, hvalue⟩ := hfirst
          rw [hdecode]
          exact ⟨(stateOf_ne q.shape).2, rfl, rfl, hvalue⟩
      | bad =>
          rw [hb] at hp
          cases hp
  | some q =>
      obtain ⟨hstate, hcodepoint, hvalue⟩ := h
      have hnext := serializer.decode_next hvalue b
      rw [accept] at hp
      rw [hstate, hcodepoint]
      cases hb : q.next b with
      | char c =>
          rw [hb] at hp hnext
          cases hp
          simp only at hnext
          rw [hnext]
          exact ⟨Nat.zero_ne_one, rfl⟩
      | more q' =>
          rw [hb] at hp hnext
          cases hp
          obtain ⟨hdecode, hvalue'⟩ := hnext
          rw [hdecode]
          exact ⟨(stateOf_ne q'.shape).2, rfl, rfl, hvalue'⟩
      | bad =>
          rw [hb] at hp
          cases hp

/-- One byte, rejected. -/
lemma Validating.reject (h : Validating v p) (hp : accept p b = none) :
    (serializer.decode v.state v.codepoint b).1 = utf8Reject := by
  cases p with
  | none =>
      have hfirst := serializer.decode_first v.codepoint b
      rw [accept] at hp
      rw [show v.state = utf8Accept from h]
      cases hb : Utf8.first b <;> rw [hb] at hp hfirst
      case bad => exact hfirst
      all_goals cases hp
  | some q =>
      obtain ⟨hstate, hcodepoint, hvalue⟩ := h
      have hnext := serializer.decode_next hvalue b
      rw [accept] at hp
      rw [hstate, hcodepoint]
      cases hb : q.next b <;> rw [hb] at hp hnext
      case bad => exact hnext
      all_goals cases hp

/-- **Bytes that go with what is pending** are valid, and leave what is pending then. -/
lemma decode_of_accepted (h : Validating v p) (hp : acceptAll p bytes = some p') :
    (v.decode bytes).2 = true ∧ Validating (v.decode bytes).1 p' := by
  induction bytes generalizing v p with
  | nil =>
      cases hp
      exact ⟨rfl, h⟩
  | cons b bytes ih =>
      rw [Utf8.acceptAll_cons] at hp
      obtain ⟨q, hq, hrest⟩ := Option.bind_eq_some_iff.mp hp
      obtain ⟨hstate, hvalidating⟩ := h.step hq
      rw [Validator.decode]
      simp only [if_neg hstate]
      exact ih hvalidating hrest

/-- **Bytes that do not go with what is pending** are not valid. -/
lemma decode_of_rejected (h : Validating v p) (hp : acceptAll p bytes = none) :
    (v.decode bytes).2 = false := by
  induction bytes generalizing v p with
  | nil => cases hp
  | cons b bytes ih =>
      rw [Validator.decode]
      cases hq : accept p b with
      | none => simp only [if_pos (h.reject hq)]
      | some q =>
          rw [Utf8.acceptAll_cons, hq] at hp
          obtain ⟨hstate, hvalidating⟩ := h.step hq
          simp only [if_neg hstate]
          exact ih hvalidating hp

/-- `validate` holds of exactly the bytes of a text. -/
lemma validate_iff : validate bytes = true ↔ IsText bytes := by
  rw [← Utf8.acceptAll_eq_none_iff, validate]
  cases hp : acceptAll none bytes with
  | none => simp [decode_of_rejected validating_new hp]
  | some p =>
      obtain ⟨hvalid, hvalidating⟩ := decode_of_accepted validating_new hp
      simp [hvalid, hvalidating.complete_iff]

end

end Neutralino.websocketpp.utf8_validator
