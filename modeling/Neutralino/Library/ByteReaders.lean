import Neutralino.Library.Utf8

/-!
Readers of bytes that follow readers of characters.

* `charOf`: the character that a byte is compared with.
* `Follows`: what is read of the bytes is what is read of the text, and conversely.
* `Follows.bind`, `Follows.orElse`, `Follows.char`: readers put together.
-/

namespace Utf8

/-! ### Bytes as characters -/

/-- The character that a byte is compared with. -/
def charOf (b : UInt8) : Char := Char.ofNat b.toNat

lemma toNat_charOf (b : UInt8) : (charOf b).toNat = b.toNat :=
  toNat_ofNat (.inl (lt_trans b.toNat_lt (by decide)))

/-- A byte that is compared with a character of ASCII. -/
lemma encode_charOf {b : UInt8} (h : b.toNat ≤ 0x7F) : encode [charOf b] = [b] := by
  have hc : (charOf b).toNat ≤ 0x7F := by rwa [toNat_charOf]
  rw [encode_cons, utf8EncodeChar_one hc, toNat_charOf, UInt8.ofNat_toNat]
  rfl

/-- The byte of a character of ASCII. -/
lemma exists_encode_eq_cons {c : Char} (h : c.toNat ≤ 0x7F) :
    ∃ b, charOf b = c ∧ ∀ text, encode (c :: text) = b :: encode text := by
  refine ⟨UInt8.ofNat c.toNat, ?_, fun text => ?_⟩
  · rw [charOf, toNat_byte (by omega), Char.ofNat_toNat]
  · rw [encode_cons, utf8EncodeChar_one h]
    rfl

/-- A byte beyond ASCII is compared with none of its characters. -/
lemma toNat_le_of_charOf {b : UInt8} {c : Char} (h : charOf b = c) (hc : c.toNat ≤ 0x7F) :
    b.toNat ≤ 0x7F := by
  rwa [← toNat_charOf, h]

/-- The first byte of a character beyond ASCII. -/
lemma exists_cons_of_lt {c : Char} (h : 0x7F < c.toNat) :
    ∃ b bytes, String.utf8EncodeChar c = b :: bytes ∧ 0x7F < b.toNat := by
  have hreads := reads_utf8EncodeChar c
  generalize String.utf8EncodeChar c = bytes at hreads
  cases hreads with
  | single hfirst =>
      obtain ⟨hb, rfl⟩ := first_eq_char hfirst
      rw [toNat_ofNat (.inl (by omega))] at h
      omega
  | @several b _ bytes _ hfirst _ =>
      refine ⟨b, bytes, rfl, not_le.mp fun hle => ?_⟩
      cases (first_one hle).symm.trans hfirst

/-! ### Readers -/

/-- A reader of bytes reads what a reader of characters does. -/
structure Follows {α β : Type*} (g : List UInt8 → Option (β × List UInt8))
    (f : List Char → Option (α × List Char)) (R : β → α → Prop) : Prop where
  sound {bytes rest : List UInt8} {y : β} : g bytes = some (y, rest) →
    ∃ code x, bytes = encode code ++ rest ∧ R y x ∧ ∀ t, f (code ++ t) = some (x, t)
  complete {t rest : List Char} {x : α} : f t = some (x, rest) →
    ∀ tail, ∃ y, R y x ∧ g (encode t ++ tail) = some (y, encode rest ++ tail)

namespace Follows

variable {α α' β β' : Type*} {R : β → α → Prop} {R' : β' → α' → Prop}
  {g : List UInt8 → Option (β × List UInt8)} {f : List Char → Option (α × List Char)}

lemma none : Follows (fun _ => none) (fun _ => none) R := ⟨nofun, nofun⟩

lemma pure {y : β} {x : α} (h : R y x) :
    Follows (fun bytes => some (y, bytes)) (fun t => some (x, t)) R where
  sound heq := by
    obtain ⟨rfl, rfl⟩ := Prod.mk.inj (Option.some.inj heq)
    exact ⟨[], x, rfl, h, fun t => rfl⟩
  complete heq tail := by
    obtain ⟨rfl, rfl⟩ := Prod.mk.inj (Option.some.inj heq)
    exact ⟨y, h, rfl⟩

/-- One reader after another. -/
lemma bind (h : Follows g f R) (g' : β → List UInt8 → Option (β' × List UInt8))
    (f' : α → List Char → Option (α' × List Char)) (h' : ∀ y x, R y x → Follows (g' y) (f' x) R') :
    Follows (fun bytes => (g bytes).bind fun r => g' r.1 r.2)
      (fun t => (f t).bind fun r => f' r.1 r.2) R' where
  sound {bytes rest y'} heq := by
    obtain ⟨⟨y, more⟩, hy, hmore⟩ := Option.bind_eq_some_iff.mp heq
    obtain ⟨code, x, rfl, hR, hcode⟩ := h.sound hy
    obtain ⟨code', x', rfl, hR', hcode'⟩ := (h' y x hR).sound hmore
    refine ⟨code ++ code', x', by rw [encode_append, List.append_assoc], hR', fun t => ?_⟩
    show (f (code ++ code' ++ t)).bind _ = _
    rw [List.append_assoc, hcode]
    exact hcode' t
  complete {t rest x'} heq tail := by
    obtain ⟨⟨x, more⟩, hx, hmore⟩ := Option.bind_eq_some_iff.mp heq
    obtain ⟨y, hR, hy⟩ := h.complete hx tail
    obtain ⟨y', hR', hy'⟩ := (h' y x hR).complete hmore tail
    refine ⟨y', hR', ?_⟩
    show (g (encode t ++ tail)).bind _ = _
    rw [hy]
    exact hy'

/-- What is always read of a text. -/
lemma and (h : Follows g f R) {P : α → Prop} (hP : ∀ t x rest, f t = some (x, rest) → P x) :
    Follows g f fun y x => R y x ∧ P x where
  sound heq := by
    obtain ⟨code, x, rfl, hR, hcode⟩ := h.sound heq
    exact ⟨code, x, rfl, ⟨hR, hP _ x [] (hcode [])⟩, hcode⟩
  complete heq tail := by
    obtain ⟨y, hR, hy⟩ := h.complete heq tail
    exact ⟨y, ⟨hR, hP _ _ _ heq⟩, hy⟩

lemma map (h : Follows g f R) {u : β → β'} {v : α → α'} (h' : ∀ y x, R y x → R' (u y) (v x)) :
    Follows (fun bytes => (g bytes).map fun r => (u r.1, r.2))
      (fun t => (f t).map fun r => (v r.1, r.2)) R' := by
  simp only [Option.map_eq_bind]
  exact h.bind (fun y bytes => some (u y, bytes)) (fun x t => some (v x, t)) fun y x hR =>
    pure (h' y x hR)

/-- Readers that follow each other behind every first character. -/
lemma first (hbytes : ∀ bytes, g bytes ≠ Option.none → ∃ c rest, bytes = encode [c] ++ rest)
    (hnil : f [] = Option.none)
    (h : ∀ c, Follows (fun bytes => g (encode [c] ++ bytes)) (fun t => f (c :: t)) R) :
    Follows g f R where
  sound {bytes rest y} heq := by
    obtain ⟨c, more, rfl⟩ := hbytes bytes (by rw [heq]; exact Option.some_ne_none _)
    obtain ⟨code, x, rfl, hR, hcode⟩ := (h c).sound heq
    exact ⟨c :: code, x, by rw [← List.append_assoc, ← encode_append]; rfl, hR, hcode⟩
  complete {t rest x} heq tail := by
    cases t with
    | nil => cases hnil.symm.trans heq
    | cons c t =>
        rw [← List.singleton_append, encode_append, List.append_assoc]
        exact (h c).complete heq tail

/-- Readers that begin with a character of ASCII. -/
lemma ascii (hg : g [] = Option.none) (hf : f [] = Option.none)
    (h : ∀ b, b.toNat ≤ 0x7F → Follows (fun bytes => g (b :: bytes)) (fun t => f (charOf b :: t)) R)
    (hbyte : ∀ b bytes, 0x7F < b.toNat → g (b :: bytes) = Option.none)
    (hchar : ∀ c t, 0x7F < c.toNat → f (c :: t) = Option.none) : Follows g f R := by
  refine first (fun bytes hbytes => ?_) hf fun c => ?_
  · cases bytes with
    | nil => exact absurd hg hbytes
    | cons b bytes =>
        have hb : b.toNat ≤ 0x7F := not_lt.mp fun hlt => hbytes (hbyte b bytes hlt)
        exact ⟨charOf b, bytes, by rw [encode_charOf hb]; rfl⟩
  · by_cases hc : c.toNat ≤ 0x7F
    · obtain ⟨b, rfl, -⟩ := exists_encode_eq_cons hc
      rw [toNat_charOf] at hc
      rw [encode_charOf hc]
      exact h b hc
    · obtain ⟨b, more, hcode, hb⟩ := exists_cons_of_lt (not_le.mp hc)
      have hnone : (fun bytes => g (encode [c] ++ bytes)) = fun _ => Option.none := by
        funext bytes
        rw [encode_cons, encode_nil, List.append_nil, hcode]
        exact hbyte b _ hb
      have hnone' : (fun t => f (c :: t)) = fun _ => Option.none := by
        funext t
        exact hchar c t (not_le.mp hc)
      rw [hnone, hnone']
      exact none

/-- Readers that begin with one character of ASCII. -/
lemma char {c : Char} (hc : c.toNat ≤ 0x7F)
    (hg : ∀ bytes, g bytes ≠ Option.none → ∃ b rest, bytes = b :: rest ∧ charOf b = c)
    (hf : ∀ t, f t ≠ Option.none → ∃ t', t = c :: t')
    (h : ∀ b, charOf b = c → Follows (fun bytes => g (b :: bytes)) (fun t => f (c :: t)) R) :
    Follows g f R where
  sound {bytes rest y} heq := by
    obtain ⟨b, more, rfl, hb⟩ := hg bytes (by rw [heq]; exact Option.some_ne_none _)
    obtain ⟨code, x, rfl, hR, hcode⟩ := (h b hb).sound heq
    refine ⟨c :: code, x, ?_, hR, hcode⟩
    rw [← List.singleton_append, ← encode_charOf (toNat_le_of_charOf hb hc), hb,
      ← List.append_assoc, ← encode_append]
    rfl
  complete {t rest x} heq tail := by
    obtain ⟨t', rfl⟩ := hf t (by rw [heq]; exact Option.some_ne_none _)
    obtain ⟨b, hb, hencode⟩ := exists_encode_eq_cons hc
    rw [hencode]
    exact (h b hb).complete heq tail

end Follows

end Utf8
