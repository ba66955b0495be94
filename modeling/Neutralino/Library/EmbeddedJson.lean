import Neutralino.Library.JsonText

/-!
Compact JSON texts inside literals of JavaScript.

* `Token.raw`: the text of a token with its string as it is; this is what
  JavaScript makes of the text, once it has undone the escapes.
* `plain_of_reads_raw`: a text whose strings stand unescaped is read back only
  if none of them needed an escape.  Were one escaped, the tokens after it would
  have to be read from a text with a stray quote (`not_reads_after_quote`).
* `javascript_read_iff`: the literal ends where it should exactly when no string
  has a single quote.
* `literal_parses_iff`: **a value is read back through the literal** exactly
  when its strings are plain and its numbers are read back.
-/

namespace JsonText

open Quoted (Text escapeChar IsPlain Quoting)

variable {ν : Type} [Numeral ν]

/-! ### Strings without their escapes -/

/-- The text of a token, with a string as it is. -/
def Token.raw : Token ν → Text
  | .str s => '"' :: (s ++ ['"'])
  | token => token.text

/-- What is read is taken from the text. -/
lemma next_suffix {t rest : Text} {token : Token ν} (h : next t = some (token, rest)) :
    rest <:+ t := by
  cases t with
  | nil => cases h
  | cons c s =>
      rw [next] at h
      split_ifs at h
      · obtain ⟨⟨u, rest'⟩, hread, heq⟩ := Option.map_eq_some_iff.mp h
        obtain ⟨code, rfl, -⟩ := Quoted.json_read_spec hread
        obtain rfl : rest' = rest := (Prod.mk.inj heq).2
        exact ⟨c :: (code ++ ['"']), by simp⟩
      · obtain rfl : s = rest := (Prod.mk.inj (Option.some.inj h)).2
        exact List.suffix_cons c s
      · obtain ⟨n, -, heq⟩ := Option.map_eq_some_iff.mp h
        rw [← (Prod.mk.inj heq).2]
        exact List.dropWhile_suffix _
      · split at h
        · rename_i heq
          rw [heq, ← (Prod.mk.inj (Option.some.inj h)).2]
          exact ⟨['n', 'u', 'l', 'l'], rfl⟩
        · rename_i heq
          rw [heq, ← (Prod.mk.inj (Option.some.inj h)).2]
          exact ⟨['t', 'r', 'u', 'e'], rfl⟩
        · rename_i heq
          rw [heq, ← (Prod.mk.inj (Option.some.inj h)).2]
          exact ⟨['f', 'a', 'l', 's', 'e'], rfl⟩
        · cases h

/-- A string is read between two quotes. -/
lemma next_str {t rest z : Text} (h : next t = some ((.str z : Token ν), rest)) :
    ∃ code, t = '"' :: (code ++ '"' :: rest) ∧
      (z.length < code.length ∨ code = z ∧ ∀ c ∈ z, IsPlain c) := by
  cases t with
  | nil => cases h
  | cons c s =>
      rw [next] at h
      split_ifs at h with hquote
      · obtain ⟨⟨u, rest'⟩, hread, heq⟩ := Option.map_eq_some_iff.mp h
        obtain ⟨rfl, rfl⟩ : u = z ∧ rest' = rest := by simpa using heq
        obtain ⟨code, rfl, hcode⟩ := Quoted.json_read_spec hread
        exact ⟨code, by rw [hquote], hcode⟩
      · simp at h
      · obtain ⟨n, -, heq⟩ := Option.map_eq_some_iff.mp h
        simp at heq
      · split at h <;> simp at h

/-- A string among the tokens of a text stands between two quotes of the text. -/
lemma reads_append {y z : Text} {before after : List (Token ν)}
    (h : Reads y (before ++ .str z :: after)) :
    ∃ w code rest, y = w ++ '"' :: (code ++ '"' :: rest) ∧ z.length ≤ code.length ∧
      Reads rest after := by
  induction before generalizing y with
  | nil =>
      cases h with
      | cons hnext hrest =>
          obtain ⟨code, hcode, hlength⟩ := next_str hnext
          refine ⟨y.takeWhile isSpace, code, _, ?_, ?_, hrest⟩
          · rw [← hcode, List.takeWhile_append_dropWhile]
          · rcases hlength with hlt | ⟨rfl, -⟩
            · exact hlt.le
            · exact le_refl _
  | cons token before ih =>
      cases h with
      | cons hnext hrest =>
          obtain ⟨w, code, rest, rfl, hlength, hreads⟩ := ih hrest
          obtain ⟨first, hfirst⟩ := next_suffix hnext
          refine ⟨y.takeWhile isSpace ++ (first ++ w), code, rest, ?_, hlength, hreads⟩
          rw [List.append_assoc, List.append_assoc, hfirst, List.takeWhile_append_dropWhile]

/-- Only strings have quotes. -/
lemma quote_not_mem_raw {token : Token ν} (hok : token.Ok) (hstr : ∀ z, token ≠ .str z) :
    '"' ∉ token.raw := by
  cases token with
  | punct c =>
      intro hmem
      obtain rfl : '"' = c := by simpa [Token.raw, Token.text] using hmem
      exact absurd (show isPunctuation '"' = true from hok) (by decide)
  | null => simp [Token.raw, Token.text]
  | bool b => cases b <;> simp [Token.raw, Token.text, boolText]
  | num n =>
      intro hmem
      exact absurd (Numeral.isNumberChar_of_mem n '"' hmem) (by decide)
  | str z => exact absurd rfl (hstr z)

omit [Numeral ν] in
/-- The first string among tokens. -/
lemma exists_first_str (ts : List (Token ν)) :
    (∀ z, .str z ∉ ts) ∨
      ∃ before z after, ts = before ++ .str z :: after ∧ ∀ z, .str z ∉ before := by
  induction ts with
  | nil => exact .inl (by simp)
  | cons token ts ih =>
      by_cases hstr : ∃ z, token = .str z
      · obtain ⟨z, rfl⟩ := hstr
        exact .inr ⟨[], z, ts, rfl, by simp⟩
      · have hne : ∀ z, Token.str z ≠ token := fun z heq => hstr ⟨z, heq.symm⟩
        rcases ih with hnone | ⟨before, z, after, rfl, hbefore⟩
        · exact .inl fun z => by simp [hne z, hnone z]
        · exact .inr ⟨token :: before, z, after, rfl, fun z => by simp [hne z, hbefore z]⟩

lemma quote_not_mem_flatMap {ts : List (Token ν)} (hok : ∀ token ∈ ts, token.Ok)
    (hnone : ∀ z, .str z ∉ ts) : '"' ∉ ts.flatMap Token.raw := by
  intro hmem
  obtain ⟨token, htoken, hmem⟩ := List.mem_flatMap.mp hmem
  exact quote_not_mem_raw (hok token htoken) (fun z heq => hnone z (heq ▸ htoken)) hmem

/-- A suffix that is shorter than another begins inside it. -/
lemma exists_append_of_suffix {A p rest : Text} {c : Char} (h : p ++ c :: rest = A)
    {B q : Text} (hAB : A = q ++ B) (hlt : rest.length < B.length) :
    ∃ x, B = x ++ c :: rest := by
  have hsuffix : c :: rest <:+ B := by
    refine List.suffix_of_suffix_length_le ⟨p, h⟩ ⟨q, hAB.symm⟩ ?_
    rw [List.length_cons]
    omega
  obtain ⟨x, hx⟩ := hsuffix
  exact ⟨x, hx.symm⟩

/-- What stands after a quote is no text of all the tokens.

The induction is on the number of tokens: their first string is read further
right than it stands, or the quote would stand before every string. -/
lemma not_reads_after_quote {ts : List (Token ν)} (hok : ∀ token ∈ ts, token.Ok) {x y : Text}
    (h : ts.flatMap Token.raw = x ++ '"' :: y) : ¬ Reads y ts := by
  induction hn : ts.length using Nat.strong_induction_on generalizing ts x y with
  | _ n ih =>
      intro hreads
      rcases exists_first_str ts with hnone | ⟨before, z, after, rfl, hbefore⟩
      · exact quote_not_mem_flatMap hok hnone (h ▸ by simp)
      · have hok' : ∀ token ∈ after, token.Ok := fun token htoken => hok token (by simp [htoken])
        obtain ⟨w, code, rest, rfl, hlength, hrest⟩ := reads_append hreads
        set N := before.flatMap Token.raw with hN
        set A := after.flatMap Token.raw with hA
        have hall : (x ++ '"' :: w ++ '"' :: code) ++ '"' :: rest = N ++ '"' :: z ++ '"' :: A := by
          simpa [← hN, ← hA, Token.raw] using h.symm
        rcases lt_or_ge rest.length A.length with hlt | hge
        · obtain ⟨x', hx'⟩ := exists_append_of_suffix hall
            (show _ = (N ++ '"' :: z ++ ['"']) ++ A by simp) hlt
          have hfewer : after.length < n := by
            rw [← hn, List.length_append, List.length_cons]
            omega
          exact ih after.length hfewer hok' hx' rfl hrest
        · have hcount := congrArg List.length hall
          simp only [List.length_append, List.length_cons] at hcount
          have hstart : x ++ ['"'] <+: N := by
            refine List.prefix_of_prefix_length_le
              ⟨w ++ '"' :: code ++ '"' :: rest, by simpa using hall⟩
              ⟨'"' :: z ++ '"' :: A, by simp⟩ ?_
            rw [List.length_append, List.length_singleton]
            omega
          refine quote_not_mem_flatMap (fun token htoken => hok token (by simp [htoken])) hbefore
            (hstart.subset ?_)
          simp

/-- The text of a token begins as the raw text does. -/
lemma exists_raw_eq_cons {token : Token ν} (hok : token.Ok) :
    ∃ c s, token.raw = c :: s ∧ isSpace c = false ∧ isNumberChar c = token.isNum := by
  cases token with
  | str s => exact ⟨'"', _, rfl, rfl, rfl⟩
  | _ => exact exists_text_eq_cons hok

/-- A plain string is its own escape. -/
lemma escape_of_plain {s : Text} (h : ∀ c ∈ s, IsPlain c) : s.flatMap escapeChar = s := by
  induction s with
  | nil => rfl
  | cons c s ih =>
      rw [List.flatMap_cons, Quoted.escapeChar_of_plain (h c List.mem_cons_self),
        ih fun d hd => h d (List.mem_cons_of_mem _ hd)]
      rfl

/-- A raw text is the text where no string needs an escape. -/
lemma raw_eq_text {token : Token ν} (hplain : ∀ s, token = .str s → ∀ c ∈ s, IsPlain c) :
    token.raw = token.text := by
  cases token with
  | str s =>
      rw [Token.raw, Token.text, quote, escape_of_plain (hplain s rfl)]
  | _ => rfl

/-- A token that survives: its string is plain, its number is read back. -/
structure Token.Survives (token : Token ν) : Prop where
  plain : ∀ s, token = .str s → ∀ c ∈ s, IsPlain c
  back : ∀ n, token = .num n → ReadBack n

/-- The first token of a raw text. -/
lemma survives_of_next {token : Token ν} {ts : List (Token ν)} (h : Spaced (token :: ts))
    {rest : Text} (hnext : next (token.raw ++ ts.flatMap Token.raw) = some (token, rest))
    (hrest : Reads rest ts) : token.Survives ∧ rest = ts.flatMap Token.raw := by
  have hok := h.ok token List.mem_cons_self
  cases token with
  | str s =>
      obtain ⟨code, hcode, hlength⟩ := next_str hnext
      have htext : s ++ '"' :: ts.flatMap Token.raw = code ++ '"' :: rest := by
        simpa [Token.raw] using hcode
      rcases hlength with hlt | ⟨rfl, hplain⟩
      · have hcount := congrArg List.length htext
        simp only [List.length_append, List.length_cons] at hcount
        obtain ⟨x, hx⟩ := exists_append_of_suffix htext.symm
          (show _ = (s ++ ['"']) ++ ts.flatMap Token.raw by simp) (by omega)
        exact absurd hrest (not_reads_after_quote h.tail.ok hx)
      · have heq : ts.flatMap Token.raw = rest := by simpa using htext
        exact ⟨⟨fun s' hs' => by cases hs'; exact hplain, nofun⟩, heq.symm⟩
  | num n =>
      rw [Token.raw, Token.text, next_num n (h.head_flatMap (fun _ => exists_raw_eq_cons) rfl)] at hnext
      · obtain ⟨m, hm, heq⟩ := Option.map_eq_some_iff.mp hnext
        obtain ⟨rfl, rfl⟩ : m = n ∧ ts.flatMap Token.raw = rest := by simpa using heq
        exact ⟨⟨nofun, fun n' hn' => by cases hn'; exact hm⟩, rfl⟩
      · exact nofun
  | punct c =>
      rw [Token.raw, next_text hok nofun nofun] at hnext
      · exact ⟨⟨nofun, nofun⟩, (Prod.mk.inj (Option.some.inj hnext)).2.symm⟩
      · exact nofun
  | null => exact ⟨⟨nofun, nofun⟩, (Prod.mk.inj (Option.some.inj hnext)).2.symm⟩
  | bool b =>
      rw [Token.raw, next_text hok nofun nofun] at hnext
      · exact ⟨⟨nofun, nofun⟩, (Prod.mk.inj (Option.some.inj hnext)).2.symm⟩
      · exact nofun

/-- A raw text is read back only if its tokens survive. -/
lemma survives_of_reads_raw {ts : List (Token ν)} (h : Spaced ts)
    (hreads : Reads (ts.flatMap Token.raw) ts) : ∀ token ∈ ts, token.Survives := by
  induction ts with
  | nil => simp
  | cons token ts ih =>
      obtain ⟨c, s, hcs, hspace, -⟩ := exists_raw_eq_cons (h.ok token List.mem_cons_self)
      cases hreads with
      | cons hnext hrest =>
          have hdrop : ((token :: ts).flatMap Token.raw).dropWhile isSpace =
              token.raw ++ ts.flatMap Token.raw := by
            rw [List.flatMap_cons, hcs, List.cons_append, List.dropWhile_cons, hspace]
            rfl
          rw [hdrop] at hnext
          obtain ⟨hsurvives, rfl⟩ := survives_of_next h hnext hrest
          intro token' htoken'
          rcases List.mem_cons.mp htoken' with rfl | htoken'
          · exact hsurvives
          · exact ih h.tail hrest token' htoken'

/-- A raw text is read back exactly if its tokens survive. -/
lemma reads_raw_iff {ts : List (Token ν)} (h : Spaced ts) :
    Reads (ts.flatMap Token.raw) ts ↔ ∀ token ∈ ts, token.Survives := by
  refine ⟨survives_of_reads_raw h, fun hsurvives => ?_⟩
  have hraw : ts.flatMap Token.raw = ts.flatMap Token.text :=
    List.flatMap_congr fun token htoken => raw_eq_text (hsurvives token htoken).plain
  rw [hraw]
  exact reads_text h fun n hn => (hsurvives _ hn).back n rfl

/-! ### In a literal -/

/-- A code that is read as a text, whatever follows. -/
def Encodes (code text : Text) : Prop :=
  ∀ r, Quoted.javascript.read (code ++ r) =
    (Quoted.javascript.read r).map fun p => (text ++ p.1, p.2)

lemma encodes_nil : Encodes [] [] := fun r => by simp

lemma Encodes.append {c c' t t' : Text} (h : Encodes c t) (h' : Encodes c' t') :
    Encodes (c ++ c') (t ++ t') := by
  intro r
  rw [List.append_assoc, h, h', Option.map_map]
  congr 1
  funext p
  simp

/-- The escapes of JSON are read by JavaScript. -/
lemma encodes_escape {s : Text} (hs : '\'' ∉ s) : Encodes (s.flatMap escapeChar) s := by
  intro r
  have hstep : ∀ c ∈ s, ∀ t, Quoted.javascript.step (escapeChar c ++ t) = some (some [c], t) :=
    fun c hc t => Quoted.javascript_step_escapeChar (fun heq => hs (heq ▸ hc)) t
  rw [Quoting.read_flatMap hstep]
  simp

/-- Characters that a literal holds as they are. -/
lemma encodes_self {s : Text} (hs : ∀ c ∈ s, IsPlain c ∧ c ≠ '\'') : Encodes s s := by
  have hescape : s.flatMap escapeChar = s := escape_of_plain fun c hc => (hs c hc).1
  have hencodes := encodes_escape (s := s) fun hmem => (hs _ hmem).2 rfl
  rwa [hescape] at hencodes

/-- A double quote stands for itself. -/
lemma encodes_double : Encodes ['"'] ['"'] := fun _ => Quoting.read_of_piece rfl

/-- The characters of a numeral are plain. -/
lemma isPlain_of_isNumberChar {c : Char} (h : isNumberChar c = true) : IsPlain c ∧ c ≠ '\'' := by
  have hne : ∀ d, isNumberChar d = false → c ≠ d := by
    rintro d hd rfl
    rw [hd] at h
    cases h
  refine ⟨⟨hne _ rfl, hne _ rfl, ?_⟩, hne _ rfl⟩
  simp only [isNumberChar, decide_eq_true_eq] at h
  rcases h with hdigit | rfl | rfl | rfl | rfl | rfl
  · have hzero : '0'.toNat ≤ c.toNat := (Char.isDigit_iff_toNat.mp hdigit).1
    exact le_trans (by decide) hzero
  all_goals decide

/-- The text of a token is read as its raw text. -/
lemma encodes_text {token : Token ν} (hok : token.Ok) (hquote : ∀ s, token = .str s → '\'' ∉ s) :
    Encodes token.text token.raw := by
  have hone : ∀ c, IsPlain c ∧ c ≠ '\'' → Encodes [c] [c] := fun c hc =>
    encodes_self fun d hd => List.mem_singleton.mp hd ▸ hc
  cases token with
  | punct c =>
      refine hone c ?_
      rcases isPunctuation_iff.mp hok with rfl | rfl | rfl | rfl | rfl | rfl <;>
        exact ⟨⟨nofun, nofun, by decide⟩, nofun⟩
  | null => exact encodes_self (by simp [IsPlain, Token.text])
  | bool b => cases b <;> exact encodes_self (by simp [IsPlain, Token.text, boolText])
  | num n => exact encodes_self fun c hc => isPlain_of_isNumberChar (Numeral.isNumberChar_of_mem n c hc)
  | str s => exact encodes_double.append ((encodes_escape (hquote s rfl)).append encodes_double)

/-- A code in which a single quote ends the literal. -/
def StopsEarly (code : Text) : Prop := ∃ before text after, code = before ++ '\'' :: after ∧
  Encodes before text

lemma StopsEarly.append {c : Text} (h : StopsEarly c) (c' : Text) : StopsEarly (c ++ c') := by
  obtain ⟨before, text, after, rfl, hbefore⟩ := h
  exact ⟨before, text, after ++ c', by simp, hbefore⟩

lemma Encodes.stopsEarly {c t c' : Text} (h : Encodes c t) (h' : StopsEarly c') :
    StopsEarly (c ++ c') := by
  obtain ⟨before, text, after, rfl, hbefore⟩ := h'
  exact ⟨c ++ before, t ++ text, after, by simp, h.append hbefore⟩

lemma read_close (r : Text) : Quoted.javascript.read ('\'' :: r) = some ([], r) :=
  Quoting.read_of_close rfl

/-- The rest of a code that stops early is left over. -/
lemma StopsEarly.read {code : Text} (h : StopsEarly code) (r : Text) :
    ∃ text after, Quoted.javascript.read (code ++ r) = some (text, after ++ r) := by
  obtain ⟨before, text, after, rfl, hbefore⟩ := h
  refine ⟨text, after, ?_⟩
  rw [List.append_assoc, hbefore, List.cons_append, read_close]
  simp

/-- A string with a single quote stops the literal. -/
lemma stopsEarly_str {s : Text} (hs : '\'' ∈ s) : StopsEarly (Token.str s : Token ν).text := by
  obtain ⟨s₁, s₂, rfl, hs₁⟩ := List.eq_append_cons_of_mem hs
  refine ⟨'"' :: s₁.flatMap escapeChar, '"' :: s₁, s₂.flatMap escapeChar ++ ['"'], ?_,
    encodes_double.append (encodes_escape hs₁)⟩
  rw [Token.text, quote, List.flatMap_append, List.flatMap_cons]
  simp [show escapeChar '\'' = ['\''] from rfl]

/-- The text of tokens is read whole, or the literal ends inside it. -/
lemma encodes_or_stopsEarly {ts : List (Token ν)} (hok : ∀ token ∈ ts, token.Ok) :
    (Encodes (ts.flatMap Token.text) (ts.flatMap Token.raw) ∧ ∀ s, .str s ∈ ts → '\'' ∉ s) ∨
      (StopsEarly (ts.flatMap Token.text) ∧ ∃ s, .str s ∈ ts ∧ '\'' ∈ s) := by
  induction ts with
  | nil => exact .inl ⟨encodes_nil, by simp⟩
  | cons token ts ih =>
      by_cases hquote : ∃ s, token = .str s ∧ '\'' ∈ s
      · obtain ⟨s, rfl, hs⟩ := hquote
        exact .inr ⟨(stopsEarly_str hs).append _, s, List.mem_cons_self, hs⟩
      · have hfirst : ∀ s, token = .str s → '\'' ∉ s := fun s hs hmem => hquote ⟨s, hs, hmem⟩
        have hencodes := encodes_text (hok token List.mem_cons_self) hfirst
        rcases ih fun token' h' => hok token' (List.mem_cons_of_mem _ h') with
          ⟨hrest, hnone⟩ | ⟨hrest, s, hs, hmem⟩
        · refine .inl ⟨hencodes.append hrest, fun s hs => ?_⟩
          exact (List.mem_cons.mp hs).elim (fun heq => hfirst s heq.symm) (hnone s)
        · exact .inr ⟨hencodes.stopsEarly hrest, s, List.mem_cons_of_mem _ hs, hmem⟩

/-- The literal ends where it should exactly if no string has a single quote. -/
lemma javascript_read_iff {ts : List (Token ν)} (hok : ∀ token ∈ ts, token.Ok) {u r : Text} :
    Quoted.javascript.read (ts.flatMap Token.text ++ '\'' :: r) = some (u, r) ↔
      u = ts.flatMap Token.raw ∧ ∀ s, .str s ∈ ts → '\'' ∉ s := by
  rcases encodes_or_stopsEarly hok with ⟨hencodes, hnone⟩ | ⟨hstops, s, hs, hmem⟩
  · rw [hencodes, read_close]
    constructor
    · intro heq
      exact ⟨by simpa using (Prod.mk.inj (Option.some.inj heq)).1.symm, hnone⟩
    · rintro ⟨rfl, -⟩
      simp
  · obtain ⟨text, after, hread⟩ := hstops.read ('\'' :: r)
    rw [hread]
    constructor
    · intro heq
      have hcount := congrArg List.length (Prod.mk.inj (Option.some.inj heq)).2
      rw [List.length_append, List.length_cons] at hcount
      omega
    · exact fun ⟨_, hnone⟩ => absurd hmem (hnone s hs)

/-- **A value is read back through the literal** exactly if its strings are plain
and have no single quote, and its numbers are read back. -/
theorem literal_parses_iff (v : Value ν) (r : Text) :
    (∃ u, Quoted.javascript.read (dump v ++ '\'' :: r) = some (u, r) ∧ Parses u v) ↔
      (∀ s, .str s ∈ tokens v → ∀ c ∈ s, IsPlain c ∧ c ≠ '\'') ∧
        ∀ n, .num n ∈ tokens v → ReadBack n := by
  have hspaced := spaced_tokens v
  simp only [dump_eq, javascript_read_iff hspaced.ok, Parses]
  constructor
  · rintro ⟨u, ⟨rfl, hquote⟩, hreads⟩
    have hsurvives := survives_of_reads_raw hspaced hreads
    exact ⟨fun s hs c hc => ⟨(hsurvives _ hs).plain s rfl c hc, fun heq => hquote s hs (heq ▸ hc)⟩,
      fun n hn => (hsurvives _ hn).back n rfl⟩
  · rintro ⟨hplain, hback⟩
    refine ⟨_, ⟨rfl, fun s hs hmem => (hplain s hs _ hmem).2 rfl⟩, ?_⟩
    refine (reads_raw_iff hspaced).mpr fun token htoken => ⟨?_, ?_⟩
    · rintro s rfl c hc
      exact (hplain s htoken c hc).1
    · rintro n rfl
      exact hback n htoken

end JsonText
