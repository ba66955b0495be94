import Mathlib.Data.List.Basic
import Mathlib.Logic.Function.Basic

/-!
Quoted literals: texts up to a closing quote, read piece by piece.

* `Quoting`: how one piece is read, a character or an escape sequence.
* `Quoting.read`: what stands before the closing quote, and what follows it.
* `read_flatMap`: **a text that is encoded piece by piece is read back**.
* `json`, `javascript`: the strings of JSON, and the literals of JavaScript in
  single quotes.
-/

namespace Quoted

/-- A text, as its characters. -/
abbrev Text := List Char

/-- How one piece of a literal is read: nothing at its closing quote. -/
structure Quoting where
  step : Text → Option (Option Text × Text)
  length_lt {t rest : Text} {piece : Option Text} :
    step t = some (piece, rest) → rest.length < t.length

namespace Quoting

variable (q : Quoting)

/-- What is read up to the closing quote, and the text after it. -/
def read (t : Text) : Option (Text × Text) :=
  match _h : q.step t with
  | none => none
  | some (none, rest) => some ([], rest)
  | some (some piece, rest) => (read rest).map fun r => (piece ++ r.1, r.2)
termination_by t.length
decreasing_by exact q.length_lt _h

variable {q} {t rest piece : Text}

lemma read_of_error (h : q.step t = none) : q.read t = none := by
  rw [read]
  split <;> simp_all

lemma read_of_close (h : q.step t = some (none, rest)) : q.read t = some ([], rest) := by
  rw [read]
  split <;> simp_all

lemma read_of_piece (h : q.step t = some (some piece, rest)) :
    q.read t = (q.read rest).map fun r => (piece ++ r.1, r.2) := by
  rw [read]
  split <;> simp_all

/-- **A text that is encoded piece by piece is read back.** -/
theorem read_flatMap {α : Type*} {encode decode : α → Text} {xs : List α}
    (h : ∀ x ∈ xs, ∀ s, q.step (encode x ++ s) = some (some (decode x), s)) (s : Text) :
    q.read (xs.flatMap encode ++ s) =
      (q.read s).map fun r => (xs.flatMap decode ++ r.1, r.2) := by
  induction xs with
  | nil => simp
  | cons x xs ih =>
      rw [List.flatMap_cons, List.append_assoc, read_of_piece (h x List.mem_cons_self _),
        ih fun y hy => h y (List.mem_cons_of_mem _ hy), Option.map_map]
      congr 1
      funext r
      simp

end Quoting

/-! ### Escape sequences -/

/-- The value of a hexadecimal digit. -/
def hexDigit? (c : Char) : Option ℕ :=
  if c.isDigit then some (c.toNat - '0'.toNat)
  else if 'a' ≤ c ∧ c ≤ 'f' then some (c.toNat - 'a'.toNat + 10)
  else if 'A' ≤ c ∧ c ≤ 'F' then some (c.toNat - 'A'.toNat + 10)
  else none

/-- The number that hexadecimal digits denote. -/
def hexNumber? (digits : Text) : Option ℕ :=
  digits.foldlM (fun n c => (hexDigit? c).map fun d => 16 * n + d) 0

/-- The character of a surrogate pair, of which the first half was read. -/
def surrogatePair (high : ℕ) : Text → Option (Text × Text)
  | '\\' :: 'u' :: a :: b :: c :: d :: rest =>
      (hexNumber? [a, b, c, d]).bind fun low =>
        if 0xDC00 ≤ low ∧ low < 0xE000 then
          some ([Char.ofNat (0x10000 + 0x400 * (high - 0xD800) + (low - 0xDC00))], rest)
        else none
  | _ => none

/-- A UTF-16 code unit with what follows it: half of a surrogate pair needs the
other half. -/
def codeUnit (n : ℕ) (s : Text) : Option (Text × Text) :=
  if 0xD800 ≤ n ∧ n < 0xDC00 then surrogatePair n s
  else if 0xDC00 ≤ n ∧ n < 0xE000 then none
  else some ([Char.ofNat n], s)

/-- One character is read, and nothing is put back. -/
lemma codeUnit_spec {n : ℕ} {s rest piece : Text} (h : codeUnit n s = some (piece, rest)) :
    piece.length = 1 ∧ rest <:+ s := by
  rw [codeUnit] at h
  split_ifs at h
  · rw [surrogatePair.eq_def] at h
    split at h
    · obtain ⟨low, -, h⟩ := Option.bind_eq_some_iff.mp h
      split_ifs at h
      obtain ⟨rfl, rfl⟩ := Prod.mk.inj (Option.some.inj h)
      exact ⟨rfl, ['\\', 'u', _, _, _, _], rfl⟩
    · cases h
  · obtain ⟨rfl, rfl⟩ := Prod.mk.inj (Option.some.inj h)
    exact ⟨rfl, List.suffix_rfl⟩

/-! ### Strings of JSON -/

/-- An escape sequence of a JSON string, after its backslash. -/
def jsonEscape : Text → Option (Text × Text)
  | '"' :: s => some (['"'], s)
  | '\\' :: s => some (['\\'], s)
  | '/' :: s => some (['/'], s)
  | 'b' :: s => some (['\x08'], s)
  | 'f' :: s => some (['\x0c'], s)
  | 'n' :: s => some (['\n'], s)
  | 'r' :: s => some (['\r'], s)
  | 't' :: s => some (['\t'], s)
  | 'u' :: a :: b :: c :: d :: s => (hexNumber? [a, b, c, d]).bind fun n => codeUnit n s
  | _ => none

/-- A piece of a JSON string. -/
def jsonStep : Text → Option (Option Text × Text)
  | [] => none
  | c :: s =>
      if c = '"' then some (none, s)
      else if c = '\\' then (jsonEscape s).map fun r => (some r.1, r.2)
      else if c.toNat < 32 then none
      else some (some [c], s)

/-- An escape sequence stands for one character and is longer. -/
lemma jsonEscape_spec {s rest piece : Text} (h : jsonEscape s = some (piece, rest)) :
    piece.length = 1 ∧ ∃ c code, s = c :: code ++ rest := by
  have hone : ∀ (c d : Char) (t : Text), some ([d], t) = some (piece, rest) →
      piece.length = 1 ∧ ∃ c' code, c :: t = c' :: code ++ rest := by
    intro c d t heq
    obtain ⟨rfl, rfl⟩ := Prod.mk.inj (Option.some.inj heq)
    exact ⟨rfl, c, [], rfl⟩
  rw [jsonEscape.eq_def] at h
  split at h
  · exact hone _ _ _ h
  · exact hone _ _ _ h
  · exact hone _ _ _ h
  · exact hone _ _ _ h
  · exact hone _ _ _ h
  · exact hone _ _ _ h
  · exact hone _ _ _ h
  · exact hone _ _ _ h
  · obtain ⟨n, -, h⟩ := Option.bind_eq_some_iff.mp h
    obtain ⟨hlength, more, hmore⟩ := codeUnit_spec h
    exact ⟨hlength, 'u', _ :: _ :: _ :: _ :: more, by rw [← hmore]; rfl⟩
  · cases h

/-- A character that JSON strings hold as it is. -/
def IsPlain (c : Char) : Prop := c ≠ '"' ∧ c ≠ '\\' ∧ 32 ≤ c.toNat

instance (c : Char) : Decidable (IsPlain c) := inferInstanceAs (Decidable (_ ∧ _))

lemma jsonStep_close {t rest : Text} (h : jsonStep t = some (none, rest)) : t = '"' :: rest := by
  cases t with
  | nil => cases h
  | cons c s =>
      rw [jsonStep] at h
      split_ifs at h with hquote hbackslash
      · obtain rfl : s = rest := (Prod.mk.inj (Option.some.inj h)).2
        rw [hquote]
      · obtain ⟨r, -, heq⟩ := Option.map_eq_some_iff.mp h
        cases heq
      · cases h

/-- A piece is a plain character, or a longer code for one. -/
lemma jsonStep_piece {t rest piece : Text} (h : jsonStep t = some (some piece, rest)) :
    ∃ code, t = code ++ rest ∧ code ≠ [] ∧
      (piece.length < code.length ∨ code = piece ∧ ∀ c ∈ piece, IsPlain c) := by
  cases t with
  | nil => cases h
  | cons c s =>
      rw [jsonStep] at h
      split_ifs at h with hquote hbackslash hcontrol
      · cases h
      · obtain ⟨⟨piece', rest'⟩, hr, heq⟩ := Option.map_eq_some_iff.mp h
        obtain ⟨rfl, rfl⟩ : piece' = piece ∧ rest' = rest := by simpa using heq
        obtain ⟨hlength, d, code, rfl⟩ := jsonEscape_spec hr
        exact ⟨c :: d :: code, rfl, by simp, .inl (by simp [hlength])⟩
      · obtain ⟨rfl, rfl⟩ : [c] = piece ∧ s = rest := by simpa using h
        refine ⟨[c], rfl, by simp, .inr ⟨rfl, fun d hd => ?_⟩⟩
        obtain rfl := List.mem_singleton.mp hd
        exact ⟨hquote, hbackslash, Nat.not_lt.mp hcontrol⟩

/-- The strings of JSON. -/
def json : Quoting where
  step := jsonStep
  length_lt {t rest piece} h := by
    cases piece with
    | none =>
        rw [jsonStep_close h]
        simp
    | some piece =>
        obtain ⟨code, rfl, hne, -⟩ := jsonStep_piece h
        rw [List.length_append]
        have hpos := List.length_pos_iff.mpr hne
        omega

/-- A string is shorter than what was read for it, unless this is plain. -/
lemma json_read_spec {t u rest : Text} (h : json.read t = some (u, rest)) :
    ∃ code, t = code ++ '"' :: rest ∧
      (u.length < code.length ∨ code = u ∧ ∀ c ∈ u, IsPlain c) := by
  induction t using Quoting.read.induct json generalizing u rest with
  | case1 t hstep => simp [Quoting.read_of_error hstep] at h
  | case2 t rest' hstep =>
      rw [Quoting.read_of_close hstep] at h
      obtain ⟨rfl, rfl⟩ := Prod.mk.inj (Option.some.inj h)
      exact ⟨[], jsonStep_close hstep, .inr ⟨rfl, by simp⟩⟩
  | case3 t piece rest' hstep ih =>
      rw [Quoting.read_of_piece hstep] at h
      obtain ⟨⟨u', rest''⟩, hread, heq⟩ := Option.map_eq_some_iff.mp h
      obtain ⟨rfl, rfl⟩ : piece ++ u' = u ∧ rest'' = rest := by simpa using heq
      obtain ⟨code, rfl, hcode⟩ := ih hread
      obtain ⟨first, rfl, -, hfirst⟩ := jsonStep_piece hstep
      refine ⟨first ++ code, by simp, ?_⟩
      rw [List.length_append, List.length_append]
      rcases hfirst with hlt | ⟨rfl, hplain⟩
      · rcases hcode with hlt' | ⟨rfl, -⟩
        · exact .inl (by omega)
        · exact .inl (by omega)
      · rcases hcode with hlt' | ⟨rfl, hplain'⟩
        · exact .inl (by omega)
        · exact .inr ⟨rfl, fun c hc => (List.mem_append.mp hc).elim (hplain c) (hplain' c)⟩

/-! ### Literals of JavaScript -/

/-- The character that a backslash and a letter stand for. -/
def singleEscape (c : Char) : Char :=
  if c = 'b' then '\x08' else if c = 'f' then '\x0c' else if c = 'n' then '\n'
  else if c = 'r' then '\r' else if c = 't' then '\t' else if c = 'v' then '\x0b' else c

/-- A code point in braces. -/
def bracedCodePoint (s : Text) : Option (Text × Text) :=
  match s.dropWhile (· ≠ '}') with
  | [] => none
  | _ :: rest =>
      let digits := s.takeWhile (· ≠ '}')
      (hexNumber? digits).bind fun n =>
        if digits ≠ [] ∧ n < 0x110000 then codeUnit n rest else none

/-- An escape sequence of a literal, after its backslash.  A line terminator
stands for nothing; the octal sequences of old are left out. -/
def javascriptEscape : Text → Option (Text × Text)
  | [] => none
  | 'x' :: a :: b :: s => (hexNumber? [a, b]).bind fun n => codeUnit n s
  | 'u' :: '{' :: s => bracedCodePoint s
  | 'u' :: a :: b :: c :: d :: s => (hexNumber? [a, b, c, d]).bind fun n => codeUnit n s
  | '\r' :: '\n' :: s => some ([], s)
  | c :: s =>
      if c = '\n' ∨ c = '\r' ∨ c.toNat = 0x2028 ∨ c.toNat = 0x2029 then some ([], s)
      else if c.isDigit then
        if c = '0' ∧ (s.head?.map Char.isDigit).getD false = false then some (['\x00'], s) else none
      else if c = 'x' ∨ c = 'u' then none
      else some ([singleEscape c], s)

/-- A piece of a literal in single quotes. -/
def javascriptStep : Text → Option (Option Text × Text)
  | [] => none
  | c :: s =>
      if c = '\'' then some (none, s)
      else if c = '\\' then (javascriptEscape s).map fun r => (some r.1, r.2)
      else if c = '\n' ∨ c = '\r' then none
      else some (some [c], s)

lemma bracedCodePoint_length {s rest piece : Text} (h : bracedCodePoint s = some (piece, rest)) :
    rest.length ≤ s.length := by
  rw [bracedCodePoint] at h
  split at h
  · cases h
  · rename_i brace after hafter
    obtain ⟨n, -, h⟩ := Option.bind_eq_some_iff.mp h
    split_ifs at h
    have hsuffix := (codeUnit_spec h).2.length_le
    have hdrop := (List.dropWhile_suffix (l := s) (· ≠ '}')).length_le
    rw [hafter, List.length_cons] at hdrop
    omega

lemma javascriptEscape_length {s rest piece : Text} (h : javascriptEscape s = some (piece, rest)) :
    rest.length ≤ s.length := by
  rw [javascriptEscape.eq_def] at h
  split at h
  · cases h
  · obtain ⟨n, -, h⟩ := Option.bind_eq_some_iff.mp h
    have hle := (codeUnit_spec h).2.length_le
    simp only [List.length_cons]
    omega
  · have hle := bracedCodePoint_length h
    simp only [List.length_cons]
    omega
  · obtain ⟨n, -, h⟩ := Option.bind_eq_some_iff.mp h
    have hle := (codeUnit_spec h).2.length_le
    simp only [List.length_cons]
    omega
  · obtain ⟨-, rfl⟩ := Prod.mk.inj (Option.some.inj h)
    simp only [List.length_cons]
    omega
  · split_ifs at h
    · obtain ⟨-, rfl⟩ := Prod.mk.inj (Option.some.inj h)
      simp
    · obtain ⟨-, rfl⟩ := Prod.mk.inj (Option.some.inj h)
      simp
    · obtain ⟨-, rfl⟩ := Prod.mk.inj (Option.some.inj h)
      simp

/-- The literals of JavaScript in single quotes. -/
def javascript : Quoting where
  step := javascriptStep
  length_lt {t rest piece} h := by
    cases t with
    | nil => cases h
    | cons c s =>
        rw [javascriptStep] at h
        rw [List.length_cons]
        split_ifs at h
        · obtain ⟨-, rfl⟩ := Prod.mk.inj (Option.some.inj h)
          omega
        · obtain ⟨r, hr, heq⟩ := Option.map_eq_some_iff.mp h
          obtain ⟨-, rfl⟩ := Prod.mk.inj heq
          have hle := javascriptEscape_length hr
          omega
        · obtain ⟨-, rfl⟩ := Prod.mk.inj (Option.some.inj h)
          omega

/-! ### Escaping for JSON -/

def hexDigit (n : ℕ) : Char := if n < 10 then Char.ofNat (48 + n) else Char.ofNat (87 + n)

/-- A character as JSON writers put it into a string. -/
def escapeChar (c : Char) : Text :=
  if c = '\x08' then ['\\', 'b']
  else if c = '\t' then ['\\', 't']
  else if c = '\n' then ['\\', 'n']
  else if c = '\x0c' then ['\\', 'f']
  else if c = '\r' then ['\\', 'r']
  else if c = '"' then ['\\', '"']
  else if c = '\\' then ['\\', '\\']
  else if c.toNat < 32 then ['\\', 'u', '0', '0', hexDigit (c.toNat / 16), hexDigit (c.toNat % 16)]
  else [c]

/-- The letters that stand for a character behind a backslash. -/
def letterEscapes : List (Char × Char) :=
  [('b', '\x08'), ('t', '\t'), ('n', '\n'), ('f', '\x0c'), ('r', '\r'), ('"', '"'), ('\\', '\\')]

/-- A character is written as an escape of one letter, as one of its number, or as itself. -/
lemma escapeChar_cases {P : Char → Text → Prop} (hletter : ∀ e ∈ letterEscapes, P e.2 ['\\', e.1])
    (hnumber : ∀ c, c.toNat < 32 →
      P c ['\\', 'u', '0', '0', hexDigit (c.toNat / 16), hexDigit (c.toNat % 16)])
    (hself : ∀ c, c ≠ '"' → c ≠ '\\' → ¬ c.toNat < 32 → P c [c]) (c : Char) :
    P c (escapeChar c) := by
  unfold escapeChar
  split_ifs with hback htab hline hfeed hreturn hquote hbackslash hcontrol
  · exact hback ▸ hletter ('b', '\x08') (by decide)
  · exact htab ▸ hletter ('t', '\t') (by decide)
  · exact hline ▸ hletter ('n', '\n') (by decide)
  · exact hfeed ▸ hletter ('f', '\x0c') (by decide)
  · exact hreturn ▸ hletter ('r', '\r') (by decide)
  · exact hquote ▸ hletter ('"', '"') (by decide)
  · exact hbackslash ▸ hletter ('\\', '\\') (by decide)
  · exact hnumber c hcontrol
  · exact hself c hquote hbackslash hcontrol

lemma hexNumber?_hexDigit : ∀ n < 32, hexNumber? ['0', '0', hexDigit (n / 16), hexDigit (n % 16)] = some n := by
  decide

lemma codeUnit_control {c : Char} (h : c.toNat < 32) (s : Text) :
    codeUnit c.toNat s = some ([c], s) := by
  rw [codeUnit, if_neg (by omega), if_neg (by omega), Char.ofNat_toNat]

lemma json_step_escapeChar (c : Char) (s : Text) :
    json.step (escapeChar c ++ s) = some (some [c], s) := by
  refine escapeChar_cases (P := fun c written => json.step (written ++ s) = some (some [c], s)) ?_
    (fun c hcontrol => ?_) (fun c hquote hbackslash hcontrol => ?_) c
  · simp only [letterEscapes, List.forall_mem_cons]
    exact ⟨rfl, rfl, rfl, rfl, rfl, rfl, rfl, List.forall_mem_nil _⟩
  · show ((hexNumber? _).bind fun n => codeUnit n s).map _ = _
    rw [hexNumber?_hexDigit _ hcontrol, Option.bind_some, codeUnit_control hcontrol]
    rfl
  · show jsonStep (c :: s) = _
    rw [jsonStep, if_neg hquote, if_neg hbackslash, if_neg hcontrol]

/-- A plain character is not escaped. -/
lemma escapeChar_of_plain {c : Char} (h : IsPlain c) : escapeChar c = [c] := by
  have hcontrol : ∀ d : Char, d.toNat < 32 → c ≠ d := by
    rintro d hd rfl
    exact absurd h.2.2 (Nat.not_le.mpr hd)
  rw [escapeChar, if_neg (hcontrol _ (by decide)), if_neg (hcontrol _ (by decide)),
    if_neg (hcontrol _ (by decide)), if_neg (hcontrol _ (by decide)), if_neg (hcontrol _ (by decide)),
    if_neg h.1, if_neg h.2.1, if_neg (Nat.not_lt.mpr h.2.2)]

/-- JavaScript reads the same character, but for its own quote. -/
lemma javascript_step_escapeChar {c : Char} (hc : c ≠ '\'') (s : Text) :
    javascript.step (escapeChar c ++ s) = some (some [c], s) := by
  refine escapeChar_cases (P := fun c written => c ≠ '\'' →
    javascript.step (written ++ s) = some (some [c], s)) ?_ (fun c hcontrol hc => ?_)
    (fun c hquote hbackslash hcontrol hc => ?_) c hc
  · simp only [letterEscapes, List.forall_mem_cons]
    exact ⟨fun _ => rfl, fun _ => rfl, fun _ => rfl, fun _ => rfl, fun _ => rfl, fun _ => rfl,
      fun _ => rfl, List.forall_mem_nil _⟩
  · show ((hexNumber? _).bind fun n => codeUnit n s).map _ = _
    rw [hexNumber?_hexDigit _ hcontrol, Option.bind_some, codeUnit_control hcontrol]
    rfl
  · have hends : ¬ (c = '\n' ∨ c = '\r') := by
      rintro (rfl | rfl)
      · exact hcontrol (by decide)
      · exact hcontrol (by decide)
    show javascriptStep (c :: s) = _
    rw [javascriptStep, if_neg hc, if_neg hbackslash, if_neg hends]

end Quoted
