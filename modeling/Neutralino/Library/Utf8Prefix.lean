import Neutralino.Library.Utf8

/-!
Bytes that are text, or the beginning of one.

* `IsText`, `IsPrefix`: the bytes of a text, and those that more bytes make a text of.
* `accept`: a byte behind what is pending, absent where nothing goes with it.
* `acceptAll_eq_none_iff`, `acceptAll_isSome_iff`: **bytes are accepted exactly if they begin
  a text**, and nothing is pending behind them exactly if they are one.
-/

namespace Utf8

/-- The bytes of a text. -/
def IsText (bytes : List UInt8) : Prop := ∃ text, bytes = encode text

/-- Bytes that a text begins with. -/
def IsPrefix (bytes : List UInt8) : Prop := ∃ more, IsText (bytes ++ more)

/-- What is pending behind a byte. -/
def accept : Option Partial → UInt8 → Option (Option Partial)
  | none, b =>
      match first b with
      | .char _ => some none
      | .more p => some (some p)
      | .bad => none
  | some p, b =>
      match p.next b with
      | .char _ => some none
      | .more p => some (some p)
      | .bad => none

/-- What is pending behind bytes. -/
def acceptAll (p : Option Partial) (bytes : List UInt8) : Option (Option Partial) :=
  bytes.foldlM accept p

/-- The bytes that complete what is pending, and a text behind them. -/
def CompletesText : Option Partial → List UInt8 → Prop
  | none, bytes => IsText bytes
  | some p, bytes => ∃ tail c text, Completes p tail c ∧ bytes = tail ++ encode text

section

variable {p : Option Partial} {b : UInt8} {bytes : List UInt8}

lemma acceptAll_cons : acceptAll p (b :: bytes) = (accept p b).bind (acceptAll · bytes) := by
  rw [acceptAll, List.foldlM_cons]
  rfl

lemma acceptAll_append (bytes' : List UInt8) :
    acceptAll p (bytes ++ bytes') = (acceptAll p bytes).bind (acceptAll · bytes') := by
  rw [acceptAll, List.foldlM_append]
  rfl

lemma isText_nil : IsText [] := ⟨[], rfl⟩

/-- A text is empty or begins with a character. -/
lemma isText_cons_iff : IsText (b :: bytes) ↔
    ∃ c tail text, Reads (b :: tail) c ∧ bytes = tail ++ encode text := by
  constructor
  · rintro ⟨text, h⟩
    cases text with
    | nil => cases h
    | cons c text =>
        obtain ⟨x, tail, hc, -⟩ := utf8EncodeChar_eq_cons c
        rw [encode_cons, hc, List.cons_append] at h
        obtain ⟨rfl, rfl⟩ := List.cons.inj h
        exact ⟨c, tail, text, reads_iff_encode.mpr hc, rfl⟩
  · rintro ⟨c, tail, text, hreads, rfl⟩
    exact ⟨c :: text, by rw [encode_cons, reads_iff_encode.mp hreads, List.cons_append]⟩

/-- One more byte of a text. -/
lemma completesText_cons_iff : CompletesText p (b :: bytes) ↔
    ∃ p', accept p b = some p' ∧ CompletesText p' bytes := by
  cases p with
  | none =>
      rw [CompletesText, isText_cons_iff, accept]
      cases hfirst : first b with
      | char c =>
          constructor
          · rintro ⟨c', tail, text, hreads, rfl⟩
            obtain ⟨rfl, -⟩ := hreads.eq_of_char hfirst
            exact ⟨none, rfl, text, rfl⟩
          · rintro ⟨p', hp', hrest⟩
            cases hp'
            obtain ⟨text, rfl⟩ := hrest
            exact ⟨c, [], text, .single hfirst, rfl⟩
      | more q =>
          constructor
          · rintro ⟨c', tail, text, hreads, rfl⟩
            cases hreads with
            | single h => cases hfirst.symm.trans h
            | several h hcompletes =>
                cases hfirst.symm.trans h
                exact ⟨some q, rfl, tail, c', text, hcompletes, rfl⟩
          · rintro ⟨p', hp', hrest⟩
            cases hp'
            obtain ⟨tail, c, text, hcompletes, rfl⟩ := hrest
            exact ⟨c, tail, text, .several hfirst hcompletes, rfl⟩
      | bad =>
          refine iff_of_false ?_ (by simp)
          rintro ⟨c', tail, text, hreads, -⟩
          cases hreads with
          | single h => cases hfirst.symm.trans h
          | several h _ => cases hfirst.symm.trans h
  | some q =>
      rw [accept]
      cases hnext : q.next b with
      | char c =>
          constructor
          · rintro ⟨tail, c', text, hcompletes, h⟩
            cases hcompletes with
            | last h' =>
                obtain ⟨rfl, rfl⟩ := List.cons.inj h
                exact ⟨none, rfl, text, rfl⟩
            | more h' _ =>
                obtain ⟨rfl, -⟩ := List.cons.inj h
                cases hnext.symm.trans h'
          · rintro ⟨p', hp', hrest⟩
            cases hp'
            obtain ⟨text, rfl⟩ := hrest
            exact ⟨[b], c, text, .last hnext, rfl⟩
      | more q' =>
          constructor
          · rintro ⟨tail, c', text, hcompletes, h⟩
            cases hcompletes with
            | last h' =>
                obtain ⟨rfl, rfl⟩ := List.cons.inj h
                cases hnext.symm.trans h'
            | more h' hrest =>
                obtain ⟨rfl, rfl⟩ := List.cons.inj h
                cases hnext.symm.trans h'
                exact ⟨some q', rfl, _, c', text, hrest, rfl⟩
          · rintro ⟨p', hp', hrest⟩
            cases hp'
            obtain ⟨tail, c, text, hcompletes, rfl⟩ := hrest
            exact ⟨b :: tail, c, text, .more hnext hcompletes, rfl⟩
      | bad =>
          refine iff_of_false ?_ (by simp)
          rintro ⟨tail, c', text, hcompletes, h⟩
          cases hcompletes with
          | last h' =>
              obtain ⟨rfl, -⟩ := List.cons.inj h
              cases hnext.symm.trans h'
          | more h' _ =>
              obtain ⟨rfl, -⟩ := List.cons.inj h
              cases hnext.symm.trans h'

/-- Nothing is pending behind the bytes that complete a text. -/
lemma completesText_iff : CompletesText p bytes ↔ acceptAll p bytes = some none := by
  induction bytes generalizing p with
  | nil =>
      cases p with
      | none => exact iff_of_true isText_nil rfl
      | some q =>
          refine iff_of_false ?_ (by simp [acceptAll, pure])
          rintro ⟨tail, c, text, hcompletes, h⟩
          cases hcompletes <;> cases h
  | cons b bytes ih =>
      rw [completesText_cons_iff, acceptAll_cons]
      cases accept p b with
      | none => simp
      | some p' => simpa using ih

/-- **Nothing is pending behind the bytes of a text.** -/
theorem acceptAll_eq_none_iff : acceptAll none bytes = some none ↔ IsText bytes :=
  completesText_iff.symm

/-- A byte goes with everything that is pending. -/
lemma exists_within (q : Partial) : ∃ b, q.Within b := by
  have hlow : ∀ shape : Shape,
      (UInt8.ofNat shape.low).toNat = shape.low ∧ shape.low ≤ shape.high := by
    rintro (_ | _) <;> decide
  obtain ⟨heq, hle⟩ := hlow q.shape
  exact ⟨UInt8.ofNat q.shape.low, heq.ge, heq.le.trans hle⟩

/-- What is pending can be completed. -/
lemma exists_completes (q : Partial) : ∃ tail c, Completes q tail c := by
  have hlast : ∀ q : Partial, q.shape.next = none → ∃ tail c, Completes q tail c := by
    intro q hnext
    obtain ⟨b, hb⟩ := exists_within q
    exact ⟨[b], _, (completes_last hnext).mpr ⟨b, rfl, hb, rfl⟩⟩
  have hmore : ∀ (q : Partial) (shape : Shape), q.shape.next = some shape →
      (∀ v, ∃ tail c, Completes ⟨shape, v⟩ tail c) → ∃ tail c, Completes q tail c := by
    intro q shape hnext hshape
    obtain ⟨b, hb⟩ := exists_within q
    obtain ⟨tail, c, hcompletes⟩ := hshape (q.value * 64 + (b.toNat - 0x80))
    exact ⟨b :: tail, c, (completes_more hnext).mpr ⟨b, tail, rfl, hb, hcompletes⟩⟩
  have htail1 : ∀ v, ∃ tail c, Completes ⟨.tail1, v⟩ tail c := fun v => hlast _ rfl
  have htail2 : ∀ v, ∃ tail c, Completes ⟨.tail2, v⟩ tail c := fun v => hmore _ .tail1 rfl htail1
  cases hnext : q.shape.next with
  | none => exact hlast q hnext
  | some shape =>
      refine hmore q shape hnext ?_
      cases hshape : q.shape <;> rw [hshape] at hnext <;> cases hnext
      all_goals first | exact htail1 | exact htail2

lemma exists_completesText (p : Option Partial) : ∃ bytes, CompletesText p bytes := by
  cases p with
  | none => exact ⟨[], isText_nil⟩
  | some q =>
      obtain ⟨tail, c, hcompletes⟩ := exists_completes q
      exact ⟨tail, tail, c, [], hcompletes, (List.append_nil _).symm⟩

/-- **Bytes are accepted exactly if a text begins with them.** -/
theorem acceptAll_isSome_iff : (∃ p, acceptAll none bytes = some p) ↔ IsPrefix bytes := by
  constructor
  · rintro ⟨p, hp⟩
    obtain ⟨more, hmore⟩ := exists_completesText p
    refine ⟨more, acceptAll_eq_none_iff.mp ?_⟩
    rw [acceptAll_append, hp]
    exact completesText_iff.mp hmore
  · rintro ⟨more, htext⟩
    have haccept := acceptAll_eq_none_iff.mpr htext
    rw [acceptAll_append] at haccept
    obtain ⟨p, hp, -⟩ := Option.bind_eq_some_iff.mp haccept
    exact ⟨p, hp⟩

lemma IsText.isPrefix (h : IsText bytes) : IsPrefix bytes := ⟨[], by rwa [List.append_nil]⟩

end

end Utf8
