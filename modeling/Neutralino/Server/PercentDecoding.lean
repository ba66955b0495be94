import Mathlib.Tactic.IntervalCases
import Neutralino.Server.RequestPath

/-!
`urldecode` on the memory that it reads and writes.

* `CText`: a NUL-terminated text in memory; `load`, `Buffer.store`: reading and
  writing, undefined out of bounds.
* `urldecodeRounds`: the loop, on signed bytes.
* `Decodes`: what is decoded to what; `Encodes`: the percent-encodings of a text.
* `returns_of_decodes`: the loop ends, and stays in both allocations.
* `urldecode_inverts`: **percent-encodings are inverted**, and what is malformed is
  copied.
* `urldecode_textOf`: the texts of the other modules are decoded alike.
-/

namespace Neutralino.helpers.memory

/-! ### Memory -/

/-- The `char` of a character; it is signed. -/
def char (c : Char) : Int8 := Int8.ofNat c.toNat

/-- A NUL-terminated text, in an allocation that ends with its terminator. -/
structure CText where
  bytes : List Int8
  nul_not_mem : 0 ∉ bytes

/-- The bytes of the allocation. -/
def CText.allocation (t : CText) : List Int8 := t.bytes ++ [0]

/-- A byte read from an allocation. -/
def load (mem : List Int8) (p : ℕ) : Except Fault Int8 :=
  match mem[p]? with
  | some c => .ok c
  | none => .error .undefinedBehaviour

/-- An allocation that is written from its beginning. -/
structure Buffer where
  capacity : ℕ
  written : List Int8 := []

/-- `*dst++ = c`. -/
def Buffer.store (dst : Buffer) (c : Int8) : Except Fault Buffer :=
  if dst.written.length < dst.capacity then .ok { dst with written := dst.written ++ [c] }
  else .error .undefinedBehaviour

/-! ### The loop -/

/-- `isxdigit` of the `int` that a `char` is converted to; a negative one is no digit. -/
def isxdigit (c : ℤ) : Bool :=
  (48 ≤ c && c ≤ 57) || (65 ≤ c && c ≤ 70) || (97 ≤ c && c ≤ 102)

/-- What the branches of `urldecode` make of a digit: first to upper case, then to its
value. -/
def digit (a : Int8) : Int8 :=
  let a := if char 'a' ≤ a then a - (char 'a' - char 'A') else a
  if char 'A' ≤ a then a - (char 'A' - 10) else a - char '0'

/-- The condition of the branch: the two characters after a `%`, each read only if the
one before it was not the terminator. -/
def escapeAt (mem : List Int8) (src : ℕ) : Except Fault (Option (Int8 × Int8)) := do
  let c ← load mem src
  if c = char '%' then
    let a ← load mem (src + 1)
    if a = 0 then return none
    let b ← load mem (src + 2)
    if b = 0 then return none
    return if isxdigit a.toInt && isxdigit b.toInt then some (a, b) else none
  else return none

/-- The loop of `urldecode`, for a number of rounds, and the terminator it writes. -/
def urldecodeRounds (mem : List Int8) : ℕ → ℕ → Buffer → Except Fault Buffer
  | 0, _, _ => .error .endlessLoop
  | rounds + 1, src, dst => do
      let c ← load mem src
      if c = 0 then dst.store 0
      else
        match ← escapeAt mem src with
        | some (a, b) =>
            let dst ← dst.store (Int8.ofInt (16 * (digit a).toInt + (digit b).toInt))
            urldecodeRounds mem rounds (src + 3) dst
        | none =>
            let dst ← dst.store c
            urldecodeRounds mem rounds (src + 1) dst

/-- `urldecode`: what it writes into an allocation of a capacity. -/
def urldecode (rounds capacity : ℕ) (mem : List Int8) : Except Fault (List Int8) := do
  let dst ← urldecodeRounds mem rounds 0 { capacity := capacity }
  return dst.written

/-! ### Hexadecimal digits -/

/-- The digits of a value, in either case. -/
def hexDigits (v : Fin 16) : List Int8 :=
  [char (Nat.digitChar v), char (Nat.digitChar v).toUpper]

/-- A hexadecimal digit. -/
def IsHexDigit (a : Int8) : Prop := ∃ v, a ∈ hexDigits v

/-- A check of both digits of each value. -/
lemma forall_hexDigits {P : Fin 16 → Int8 → Prop} [∀ v a, Decidable (P v a)]
    (h : ∀ v, (hexDigits v).all (fun a => decide (P v a)) = true) : ∀ v, ∀ a ∈ hexDigits v, P v a :=
  fun v a ha => of_decide_eq_true (List.all_eq_true.mp (h v) a ha)

lemma digit_of_mem : ∀ v, ∀ a ∈ hexDigits v, digit a = Int8.ofNat v := forall_hexDigits (by decide)

lemma isxdigit_of_mem : ∀ v, ∀ a ∈ hexDigits v, isxdigit a.toInt = true :=
  forall_hexDigits (by decide)

/-- `isxdigit` accepts the hexadecimal digits. -/
lemma isxdigit_iff (a : Int8) : isxdigit a.toInt = true ↔ IsHexDigit a := by
  constructor
  · intro h
    simp only [isxdigit, Bool.or_eq_true, Bool.and_eq_true, decide_eq_true_eq] at h
    rw [← Int8.ofInt_toInt a]
    generalize a.toInt = n at h
    rcases h with (⟨hlo, hhi⟩ | ⟨hlo, hhi⟩) | ⟨hlo, hhi⟩
    · exact ⟨Fin.ofNat 16 (n.toNat - 48), by interval_cases n <;> decide⟩
    · exact ⟨Fin.ofNat 16 (n.toNat - 55), by interval_cases n <;> decide⟩
    · exact ⟨Fin.ofNat 16 (n.toNat - 87), by interval_cases n <;> decide⟩
  · rintro ⟨v, hv⟩
    exact isxdigit_of_mem v a hv

/-- The byte that is written for two digits. -/
lemma byte_of_digits : ∀ hi lo : Fin 16, Int8.ofInt (16 * (Int8.ofNat hi).toInt + (Int8.ofNat lo).toInt) =
    Int8.ofNat (16 * hi + lo) := by decide

/-! ### Decoding -/

/-- A text begins with two hexadecimal digits. -/
def TwoDigits (s : List Int8) : Prop :=
  ∃ a b t, s = a :: b :: t ∧ IsHexDigit a ∧ IsHexDigit b

/-- What is decoded to what: a `%` with two digits to the byte they name, any other
byte to itself. -/
inductive Decodes : List Int8 → List Int8 → Prop
  | nil : Decodes [] []
  | escape {hi lo : Fin 16} {a b : Int8} {s out : List Int8} :
      a ∈ hexDigits hi → b ∈ hexDigits lo → Decodes s out →
        Decodes (char '%' :: a :: b :: s) (Int8.ofNat (16 * hi + lo) :: out)
  | copy {c : Int8} {s out : List Int8} :
      (c = char '%' → ¬ TwoDigits s) → Decodes s out → Decodes (c :: s) (c :: out)

section Loop

variable {pre s : List Int8} {c : Int8}

lemma load_append (pre s : List Int8) (i : ℕ) : load (pre ++ s) (pre.length + i) = load s i := by
  rw [load, load, List.getElem?_append_right (Nat.le_add_right _ _), Nat.add_sub_cancel_left]

/-- The bytes behind a `%`. -/
lemma escapeAt_percent (h : 0 ∉ s) :
    escapeAt (pre ++ (char '%' :: (s ++ [0]))) pre.length =
      .ok (match s with
        | a :: b :: _ => if isxdigit a.toInt && isxdigit b.toInt then some (a, b) else none
        | _ => none) := by
  have hload : ∀ i, load (pre ++ (char '%' :: (s ++ [0]))) (pre.length + i) =
      load (char '%' :: (s ++ [0])) i := load_append pre _
  rw [escapeAt, ← Nat.add_zero pre.length, Nat.add_assoc, Nat.add_assoc, hload, hload, hload]
  match s, h with
  | [], _ => rfl
  | [a], _ => simp [load]
  | a :: b :: s, h =>
      have ha : a ≠ 0 := fun ha => h (by simp [ha])
      have hb : b ≠ 0 := fun hb => h (by simp [hb])
      simp [load, ha, hb]
      rfl

lemma escapeAt_of_ne (hc : c ≠ char '%') : escapeAt (pre ++ (c :: s)) pre.length = .ok none := by
  rw [escapeAt, ← Nat.add_zero pre.length, load_append]
  simp [load, hc]
  rfl

/-- A byte is written where there is room for it. -/
lemma Buffer.store_of_lt {dst : Buffer} (h : dst.written.length < dst.capacity) (c : Int8) :
    dst.store c = .ok { dst with written := dst.written ++ [c] } := if_pos h

/-- A round on an escape. -/
lemma urldecodeRounds_escape (hc : c ≠ 0) {a b : Int8}
    (hescape : escapeAt (pre ++ (c :: s)) pre.length = .ok (some (a, b))) (rounds : ℕ)
    {dst : Buffer} (hroom : dst.written.length < dst.capacity) :
    urldecodeRounds (pre ++ (c :: s)) (rounds + 1) pre.length dst =
      urldecodeRounds (pre ++ (c :: s)) rounds (pre.length + 3) { dst with written :=
        dst.written ++ [Int8.ofInt (16 * (digit a).toInt + (digit b).toInt)] } := by
  have hload : load (pre ++ (c :: s)) pre.length = .ok c := load_append pre (c :: s) 0
  rw [urldecodeRounds, hload, ok_bind, if_neg hc, hescape, ok_bind]
  simp only [dst.store_of_lt hroom, ok_bind]

/-- A round on any other byte. -/
lemma urldecodeRounds_copy (hc : c ≠ 0)
    (hescape : escapeAt (pre ++ (c :: s)) pre.length = .ok none) (rounds : ℕ)
    {dst : Buffer} (hroom : dst.written.length < dst.capacity) :
    urldecodeRounds (pre ++ (c :: s)) (rounds + 1) pre.length dst =
      urldecodeRounds (pre ++ (c :: s)) rounds (pre.length + 1)
        { dst with written := dst.written ++ [c] } := by
  have hload : load (pre ++ (c :: s)) pre.length = .ok c := load_append pre (c :: s) 0
  rw [urldecodeRounds, hload, ok_bind, if_neg hc, hescape, ok_bind]
  simp only [dst.store_of_lt hroom, ok_bind]

/-- **The loop decodes** what is left of the text, in one round more than that has bytes
at most, and writes the terminator. -/
lemma rounds_of_decodes {rest out : List Int8} (h : Decodes rest out) (hnul : 0 ∉ rest)
    (pre : List Int8) {rounds : ℕ} (hrounds : rest.length < rounds) {dst : Buffer}
    (hroom : dst.written.length + rest.length < dst.capacity) :
    urldecodeRounds (pre ++ (rest ++ [0])) rounds pre.length dst =
      .ok { dst with written := dst.written ++ (out ++ [0]) } := by
  induction h generalizing pre rounds dst with
  | nil =>
      obtain ⟨rounds, rfl⟩ := Nat.exists_eq_succ_of_ne_zero (Nat.ne_of_gt hrounds)
      have hload : load (pre ++ ([] ++ [0])) pre.length = .ok 0 := load_append pre [0] 0
      rw [urldecodeRounds, hload, ok_bind, if_pos rfl, dst.store_of_lt hroom]
      rfl
  | @escape hi lo a b s out ha hb _ ih =>
      obtain ⟨rounds, rfl⟩ := Nat.exists_eq_succ_of_ne_zero (Nat.ne_of_gt (Nat.zero_lt_of_lt hrounds))
      obtain ⟨-, hab⟩ := not_or.mp (mt List.mem_cons.mpr hnul)
      have hs : 0 ∉ s := fun h => hab (by simp [h])
      have hescape : escapeAt (pre ++ (char '%' :: (a :: b :: s ++ [0]))) pre.length =
          .ok (some (a, b)) := by
        rw [escapeAt_percent hab]
        simp [isxdigit_of_mem hi a ha, isxdigit_of_mem lo b hb]
      simp only [List.length_cons] at hrounds hroom
      have hpre : pre ++ (char '%' :: (a :: b :: s ++ [0])) =
          (pre ++ [char '%', a, b]) ++ (s ++ [0]) := by simp
      have hlength : pre.length + 3 = (pre ++ [char '%', a, b]).length := by simp
      rw [List.cons_append, urldecodeRounds_escape (by decide) hescape rounds (by omega),
        digit_of_mem hi a ha, digit_of_mem lo b hb, byte_of_digits, hpre, hlength,
        ih hs _ (by omega) (by simp; omega)]
      simp
  | @copy c s out hc _ ih =>
      obtain ⟨rounds, rfl⟩ := Nat.exists_eq_succ_of_ne_zero (Nat.ne_of_gt (Nat.zero_lt_of_lt hrounds))
      obtain ⟨hc0, hs⟩ := not_or.mp (mt List.mem_cons.mpr hnul)
      have hescape : escapeAt (pre ++ (c :: (s ++ [0]))) pre.length = .ok none := by
        by_cases hpercent : c = char '%'
        · subst hpercent
          rw [escapeAt_percent hs]
          have hdigits := hc rfl
          match s with
          | [] => rfl
          | [a] => rfl
          | a :: b :: t =>
              refine congrArg _ (if_neg fun hab => hdigits ?_)
              rw [Bool.and_eq_true, isxdigit_iff, isxdigit_iff] at hab
              exact ⟨a, b, t, rfl, hab.1, hab.2⟩
        · exact escapeAt_of_ne hpercent
      simp only [List.length_cons] at hrounds hroom
      have hpre : pre ++ (c :: (s ++ [0])) = (pre ++ [c]) ++ (s ++ [0]) := by simp
      have hlength : pre.length + 1 = (pre ++ [c]).length := by simp
      rw [List.cons_append, urldecodeRounds_copy (Ne.symm hc0) hescape rounds (by omega),
        hpre, hlength, ih hs _ (by omega) (by simp; omega)]
      simp

end Loop

/-! ### What comes out -/

/-- `urldecode` comes to an end on a text, in an allocation of one byte more than the
text has, and leaves a text and its terminator there. -/
def Returns (t : CText) (out : List Int8) : Prop :=
  ∀ rounds, t.bytes.length < rounds →
    urldecode rounds (t.bytes.length + 1) t.allocation = .ok (out ++ [0])

lemma returns_of_decodes {t : CText} {out : List Int8} (h : Decodes t.bytes out) :
    Returns t out := by
  intro rounds hrounds
  have hroom : ({ capacity := t.bytes.length + 1 } : Buffer).written.length + t.bytes.length <
      t.bytes.length + 1 := by simp
  have hloop := rounds_of_decodes h t.nul_not_mem [] hrounds hroom
  rw [List.nil_append, List.length_nil] at hloop
  rw [urldecode, CText.allocation, hloop]
  rfl

/-- Every text is decoded, to a text that is not longer. -/
lemma exists_decodes (s : List Int8) : ∃ out, Decodes s out ∧ out.length ≤ s.length := by
  induction hn : s.length using Nat.strong_induction_on generalizing s with
  | _ n ih =>
      cases s with
      | nil => exact ⟨[], .nil, Nat.zero_le _⟩
      | cons c s =>
          rw [List.length_cons] at hn
          by_cases hescape : c = char '%' ∧ TwoDigits s
          · obtain ⟨rfl, a, b, t, rfl, ⟨hi, ha⟩, lo, hb⟩ := hescape
            simp only [List.length_cons] at hn
            obtain ⟨out, hout, hlength⟩ := ih t.length (by omega) t rfl
            exact ⟨_, .escape ha hb hout, by rw [List.length_cons]; omega⟩
          · obtain ⟨out, hout, hlength⟩ := ih s.length (by omega) s rfl
            exact ⟨c :: out, .copy (fun hc hdigits => hescape ⟨hc, hdigits⟩) hout,
              by rw [List.length_cons]; omega⟩

/-- What is left in memory is what the text decodes to. -/
lemma decodes_of_returns {t : CText} {out : List Int8} (h : Returns t out) :
    Decodes t.bytes out := by
  obtain ⟨out', hdecodes, -⟩ := exists_decodes t.bytes
  have hout := returns_of_decodes hdecodes _ (Nat.lt_succ_self _)
  rw [h _ (Nat.lt_succ_self _)] at hout
  rwa [List.append_cancel_right (Except.ok.inj hout)]

/-- What does not begin with a digit is decoded by itself. -/
lemma Decodes.append {s out e out' : List Int8} (h : Decodes s out) (he : Decodes e out')
    (hhead : ∀ c ∈ e.head?, ¬ IsHexDigit c) : Decodes (s ++ e) (out ++ out') := by
  induction h with
  | nil => exact he
  | escape ha hb _ ih => exact .escape ha hb ih
  | @copy c s out hc _ ih =>
      refine .copy (fun hpercent => ?_) ih
      rintro ⟨a, b, t, ht, ha, hb⟩
      match s, ht with
      | [], ht => exact hhead a (by rw [show e = a :: b :: t from ht]; rfl) ha
      | [a'], ht =>
          obtain ⟨rfl, rfl⟩ : a' = a ∧ e = b :: t := by simpa using ht
          exact hhead b rfl hb
      | a' :: b' :: s, ht =>
          obtain ⟨rfl, rfl, -⟩ : a' = a ∧ b' = b ∧ s ++ e = t := by simpa using ht
          exact hc hpercent ⟨a', b', s, rfl, ha, hb⟩

/-! ### Encodings -/

/-- Some of the bytes of a text, and every `%`, are written as a `%` with two digits, in
either case. -/
inductive Encodes : List Int8 → List Int8 → Prop
  | nil : Encodes [] []
  | plain {c : Int8} {s enc : List Int8} :
      c ≠ char '%' → Encodes s enc → Encodes (c :: s) (c :: enc)
  | escaped {hi lo : Fin 16} {a b : Int8} {s enc : List Int8} :
      a ∈ hexDigits hi → b ∈ hexDigits lo → Encodes s enc →
        Encodes (Int8.ofNat (16 * hi + lo) :: s) (char '%' :: a :: b :: enc)

lemma decodes_of_encodes {s enc : List Int8} (h : Encodes s enc) : Decodes enc s := by
  induction h with
  | nil => exact .nil
  | plain hc _ ih => exact .copy (fun hpercent => absurd hpercent hc) ih
  | escaped ha hb _ ih => exact .escape ha hb ih

lemma zero_not_mem_hexDigits : ∀ v, 0 ∉ hexDigits v := by decide

lemma nul_not_mem_of_encodes {s enc : List Int8} (h : Encodes s enc) (hs : 0 ∉ s) : 0 ∉ enc := by
  induction h with
  | nil => exact hs
  | plain _ _ ih =>
      obtain ⟨hc, hs⟩ := not_or.mp (mt List.mem_cons.mpr hs)
      exact mt List.mem_cons.mp (not_or.mpr ⟨hc, ih hs⟩)
  | @escaped hi lo a b s enc ha hb _ ih =>
      obtain ⟨-, hs⟩ := not_or.mp (mt List.mem_cons.mpr hs)
      have ha0 : 0 ≠ a := fun h => zero_not_mem_hexDigits hi (h ▸ ha)
      have hb0 : 0 ≠ b := fun h => zero_not_mem_hexDigits lo (h ▸ hb)
      simpa [ha0, hb0, ih hs] using (by decide : (0 : Int8) ≠ char '%')

/-- **Percent-encodings are inverted**.  On every text `urldecode` ends, reads up to the
terminator and writes no more than the text has bytes and a terminator; a `%` that is
not followed by two digits is copied. -/
theorem urldecode_inverts :
    (∀ (s : CText) (enc : List Int8), Encodes s.bytes enc →
      ∃ t : CText, t.bytes = enc ∧ Returns t s.bytes) ∧
    (∀ t : CText, ∃ out, out.length ≤ t.bytes.length ∧ Returns t out) ∧
    ∀ t u v : CText, t.bytes = u.bytes ++ char '%' :: v.bytes → ¬ TwoDigits v.bytes →
      ∀ x y, Returns u x → Returns v y → Returns t (x ++ char '%' :: y) := by
  refine ⟨fun s enc h => ?_, fun t => ?_, fun t u v ht hv x y hx hy => ?_⟩
  · exact ⟨⟨enc, nul_not_mem_of_encodes h s.nul_not_mem⟩, rfl,
      returns_of_decodes (decodes_of_encodes h)⟩
  · obtain ⟨out, hout, hlength⟩ := exists_decodes t.bytes
    exact ⟨out, hlength, returns_of_decodes hout⟩
  · have hpercent : ¬ IsHexDigit (char '%') := by
      rw [← isxdigit_iff]
      decide
    refine returns_of_decodes (ht ▸ (decodes_of_returns hx).append ?_ ?_)
    · exact .copy (fun _ => hv) (decodes_of_returns hy)
    · rintro c hc
      rwa [← Option.some.inj hc]

/-- The bytes of `%2f%`, with the second `%` encoded. -/
theorem slash_and_percent_decoded :
    ∃ t : CText, t.bytes = "%2f%25".toList.map char ∧ Returns t ("/%".toList.map char) :=
  urldecode_inverts.1 ⟨"/%".toList.map char, by decide⟩ _
    (@Encodes.escaped 2 15 (char '2') (char 'f') _ _ (by decide) (by decide)
      (@Encodes.escaped 2 5 (char '2') (char '5') _ _ (by decide) (by decide) .nil))

/-! ### Texts -/

/-- The character of a byte. -/
def charOf (b : Int8) : Char := Char.ofNat b.toUInt8.toNat

/-- The text of bytes. -/
def textOf (s : List Int8) : Str := s.map charOf

/-- What holds of the bytes of all pairs of digits holds of all bytes. -/
lemma forall_byte {P : Int8 → Prop} (h : ∀ hi lo : Fin 16, P (Int8.ofNat (16 * hi + lo)))
    (b : Int8) : P b := by
  have hlt := b.toUInt8.toNat_lt
  have hb : Int8.ofNat (16 * (b.toUInt8.toNat / 16) + b.toUInt8.toNat % 16) = b := by
    rw [Nat.div_add_mod, ← UInt8.toInt8_ofNat', UInt8.ofNat_toNat, Int8.toInt8_toUInt8]
  exact hb ▸ h ⟨b.toUInt8.toNat / 16, by omega⟩ ⟨b.toUInt8.toNat % 16, by omega⟩

lemma isxdigit_charOf : ∀ b : Int8, helpers.isxdigit (charOf b) = isxdigit b.toInt :=
  forall_byte (by decide)

lemma charOf_eq_percent_iff : ∀ b : Int8, charOf b = '%' ↔ b = char '%' := forall_byte (by decide)

lemma xdigitValue_charOf : ∀ v, ∀ a ∈ hexDigits v, xdigitValue (charOf a) = v :=
  forall_hexDigits (by decide)

lemma charOf_ofNat : ∀ hi lo : Fin 16,
    charOf (Int8.ofNat (16 * hi + lo)) = Char.ofNat (16 * hi + lo) := by decide

lemma urldecode_of_decodes {s out : List Int8} (h : Decodes s out) :
    helpers.urldecode (textOf s) = textOf out := by
  induction h with
  | nil => rfl
  | @escape hi lo a b s out ha hb _ ih =>
      have hda : helpers.isxdigit (charOf a) = true :=
        (isxdigit_charOf a).trans (isxdigit_of_mem hi a ha)
      have hdb : helpers.isxdigit (charOf b) = true :=
        (isxdigit_charOf b).trans (isxdigit_of_mem lo b hb)
      calc helpers.urldecode (textOf (char '%' :: a :: b :: s))
          = helpers.urldecode ('%' :: charOf a :: charOf b :: textOf s) := rfl
        _ = Char.ofNat (16 * hi + lo) :: textOf out := by
            rw [urldecode_escape hda hdb, xdigitValue_charOf hi a ha, xdigitValue_charOf lo b hb, ih]
        _ = textOf (Int8.ofNat (16 * hi + lo) :: out) := by
            rw [← charOf_ofNat]
            rfl
  | @copy c s out hc _ ih =>
      have hcopy : helpers.urldecode (charOf c :: textOf s) =
          charOf c :: helpers.urldecode (textOf s) := by
        by_cases hpercent : c = char '%'
        · subst hpercent
          refine urldecode_percent fun a b t ht hab => hc rfl ?_
          match s, ht with
          | a' :: b' :: s, ht =>
              obtain ⟨rfl, rfl, -⟩ : charOf a' = a ∧ charOf b' = b ∧ textOf s = t := by
                simpa [textOf] using ht
              rw [isxdigit_charOf, isxdigit_charOf, isxdigit_iff, isxdigit_iff] at hab
              exact ⟨a', b', s, rfl, hab.1, hab.2⟩
        · exact urldecode_cons_of_ne (mt (charOf_eq_percent_iff c).mp hpercent) _
      calc helpers.urldecode (textOf (c :: s))
          = helpers.urldecode (charOf c :: textOf s) := rfl
        _ = charOf c :: textOf out := by rw [hcopy, ih]
        _ = textOf (c :: out) := rfl

/-- **Texts are decoded alike**: the decoding that the requests are modelled with is that
of the memory. -/
theorem urldecode_textOf {t : CText} {out : List Int8} (h : Returns t out) :
    helpers.urldecode (textOf t.bytes) = textOf out :=
  urldecode_of_decodes (decodes_of_returns h)

end Neutralino.helpers.memory
