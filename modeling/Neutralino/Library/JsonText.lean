import Mathlib.Data.List.Chain
import Mathlib.Data.List.TakeWhile
import Neutralino.Library.Quoted

/-!
JSON texts over arbitrary numbers.

* `Value`, `dump`: JSON values and their compact text.
* `Token`, `tokens`: the tokens of a value; `dump_eq`: the compact text is the
  text of the tokens.
* `Reads`, `Parses`: the tokens of a text; a text is one of a value if its
  tokens are.
* `parses_unique`: **a text is one of at most one value**.
* `parses_dump`: **the compact text of a value is a text of it**, where its
  numbers are read back.
-/

namespace JsonText

open Quoted (Text escapeChar IsPlain)

def isSpace (c : Char) : Bool := c = ' ' ∨ c = '\t' ∨ c = '\n' ∨ c = '\r'

def isNumberChar (c : Char) : Bool :=
  c.isDigit ∨ c = '+' ∨ c = '-' ∨ c = '.' ∨ c = 'e' ∨ c = 'E'

def isPunctuation (c : Char) : Bool :=
  c = '\x7b' ∨ c = '\x7d' ∨ c = '[' ∨ c = ']' ∨ c = ':' ∨ c = ','

lemma isPunctuation_iff {c : Char} : isPunctuation c = true ↔
    c = '\x7b' ∨ c = '\x7d' ∨ c = '[' ∨ c = ']' ∨ c = ':' ∨ c = ',' :=
  decide_eq_true_iff

/-- Numbers with their numerals.  A reader may round: whether a number is read
back is `ReadBack`. -/
class Numeral (ν : Type) where
  text : ν → Text
  read : Text → Option ν
  text_ne_nil (n : ν) : text n ≠ []
  isNumberChar_of_mem (n : ν) : ∀ c ∈ text n, isNumberChar c = true

/-- A JSON value. -/
inductive Value (ν : Type) where
  | null
  | bool (b : Bool)
  | num (n : ν)
  | str (s : Text)
  | arr (xs : List (Value ν))
  | obj (members : List (Text × Value ν))

/-- A member of an object: of members with one key the last counts. -/
def Value.member {ν : Type} (key : Text) : Value ν → Option (Value ν)
  | .obj members => (members.reverse.find? fun m => m.1 = key).map (·.2)
  | _ => none

/-- A token of a JSON text. -/
inductive Token (ν : Type) where
  | punct (c : Char)
  | null
  | bool (b : Bool)
  | num (n : ν)
  | str (s : Text)

variable {ν : Type}

/-! ### Writing -/

/-- A string with its quotes. -/
def quote (s : Text) : Text := '"' :: (s.flatMap escapeChar ++ ['"'])

def boolText (b : Bool) : Text := if b then ['t', 'r', 'u', 'e'] else ['f', 'a', 'l', 's', 'e']

section Writing

variable [Numeral ν]

mutual

/-- The compact text of a value. -/
def dump : Value ν → Text
  | .null => ['n', 'u', 'l', 'l']
  | .bool b => boolText b
  | .num n => Numeral.text n
  | .str s => quote s
  | .arr xs => '[' :: (List.intercalate [','] (dumpList xs) ++ [']'])
  | .obj members => '\x7b' :: (List.intercalate [','] (dumpMembers members) ++ ['\x7d'])

def dumpList : List (Value ν) → List Text
  | [] => []
  | x :: xs => dump x :: dumpList xs

def dumpMembers : List (Text × Value ν) → List Text
  | [] => []
  | (key, value) :: members => (quote key ++ ':' :: dump value) :: dumpMembers members

end

/-- The text of a token. -/
def Token.text : Token ν → Text
  | .punct c => [c]
  | .null => ['n', 'u', 'l', 'l']
  | .bool b => boolText b
  | .num n => Numeral.text n
  | .str s => quote s

end Writing

mutual

/-- The tokens of a value. -/
def tokens : Value ν → List (Token ν)
  | .null => [.null]
  | .bool b => [.bool b]
  | .num n => [.num n]
  | .str s => [.str s]
  | .arr xs => .punct '[' :: (List.intercalate [.punct ','] (tokensList xs) ++ [.punct ']'])
  | .obj members =>
      .punct '\x7b' :: (List.intercalate [.punct ','] (tokensMembers members) ++ [.punct '\x7d'])

def tokensList : List (Value ν) → List (List (Token ν))
  | [] => []
  | x :: xs => tokens x :: tokensList xs

def tokensMembers : List (Text × Value ν) → List (List (Token ν))
  | [] => []
  | (key, value) :: members => (.str key :: .punct ':' :: tokens value) :: tokensMembers members

end

lemma flatMap_intercalate {α β : Type} (f : α → List β) (sep : List α) (xss : List (List α)) :
    (List.intercalate sep xss).flatMap f =
      List.intercalate (sep.flatMap f) (xss.map fun xs => xs.flatMap f) := by
  induction xss with
  | nil => rfl
  | cons xs xss ih =>
      cases xss with
      | nil => simp
      | cons ys xss =>
          rw [List.intercalate_cons_cons, List.flatMap_append, List.flatMap_append, ih]
          simp [List.intercalate_cons_cons]

section Dumping

variable [Numeral ν]

mutual

/-- The compact text is the text of the tokens. -/
lemma dump_eq : ∀ v : Value ν, dump v = (tokens v).flatMap Token.text
  | .null => rfl
  | .bool b => by simp [dump, tokens, Token.text]
  | .num n => by simp [dump, tokens, Token.text]
  | .str s => by simp [dump, tokens, Token.text]
  | .arr xs => by
      rw [dump, tokens, dumpList_eq xs]
      simp [flatMap_intercalate, Token.text]
  | .obj members => by
      rw [dump, tokens, dumpMembers_eq members]
      simp [flatMap_intercalate, Token.text]

lemma dumpList_eq : ∀ xs : List (Value ν),
    dumpList xs = (tokensList xs).map fun ts => ts.flatMap Token.text
  | [] => rfl
  | x :: xs => by rw [dumpList, tokensList, dump_eq x, dumpList_eq xs, List.map_cons]

lemma dumpMembers_eq : ∀ members : List (Text × Value ν),
    dumpMembers members = (tokensMembers members).map fun ts => ts.flatMap Token.text
  | [] => rfl
  | (key, value) :: members => by
      rw [dumpMembers, tokensMembers, dump_eq value, dumpMembers_eq members, List.map_cons]
      rfl

end

end Dumping

/-! ### Tokens side by side -/

/-- The tokens that are numerals. -/
def Token.isNum : Token ν → Bool
  | .num _ => true
  | _ => false

/-- A token that is written. -/
def Token.Ok : Token ν → Prop
  | .punct c => isPunctuation c = true
  | _ => True

/-- Tokens that are written, no two numerals side by side. -/
structure Spaced (ts : List (Token ν)) : Prop where
  ok : ∀ token ∈ ts, token.Ok
  apart : ts.IsChain fun a b => ¬ (a.isNum = true ∧ b.isNum = true)

lemma Spaced.punct_cons {c : Char} (hc : isPunctuation c = true) {ts : List (Token ν)}
    (h : Spaced ts) : Spaced (.punct c :: ts) := by
  refine ⟨fun token htoken => ?_, List.isChain_cons.mpr ⟨fun _ _ hnum => ?_, h.apart⟩⟩
  · rcases List.mem_cons.mp htoken with rfl | htoken
    · exact hc
    · exact h.ok token htoken
  · cases hnum.1

lemma Spaced.append_punct {c : Char} (hc : isPunctuation c = true) {ts ts' : List (Token ν)}
    (h : Spaced ts) (h' : Spaced ts') : Spaced (ts ++ .punct c :: ts') := by
  refine ⟨fun token htoken => ?_, ?_⟩
  · rcases List.mem_append.mp htoken with htoken | htoken
    · exact h.ok token htoken
    · exact (h'.punct_cons hc).ok token htoken
  · refine List.isChain_append.mpr ⟨h.apart, (h'.punct_cons hc).apart, fun _ _ b hb hnum => ?_⟩
    obtain rfl : Token.punct c = b := by simpa using hb
    cases hnum.2

lemma Spaced.tail {token : Token ν} {ts : List (Token ν)} (h : Spaced (token :: ts)) : Spaced ts :=
  ⟨fun token' h' => h.ok token' (List.mem_cons_of_mem _ h'), h.apart.tail⟩

lemma spaced_nil : Spaced ([] : List (Token ν)) := ⟨by simp, .nil⟩

lemma spaced_intercalate {tss : List (List (Token ν))} (h : ∀ ts ∈ tss, Spaced ts) :
    Spaced (List.intercalate [.punct ','] tss) := by
  induction tss with
  | nil => exact spaced_nil
  | cons ts tss ih =>
      have hrest := ih fun ts' hts' => h ts' (List.mem_cons_of_mem _ hts')
      cases tss with
      | nil =>
          rw [List.intercalate_singleton]
          exact h ts List.mem_cons_self
      | cons ts' tss =>
          rw [List.intercalate_cons_cons, List.append_assoc]
          exact (h ts List.mem_cons_self).append_punct rfl hrest

lemma spaced_singleton {token : Token ν} (hok : token.Ok) : Spaced [token] :=
  ⟨fun _ h => List.mem_singleton.mp h ▸ hok, List.isChain_singleton _⟩

mutual

/-- The tokens of a value are spaced. -/
lemma spaced_tokens : ∀ v : Value ν, Spaced (tokens v)
  | .null => spaced_singleton trivial
  | .bool _ => spaced_singleton trivial
  | .num _ => spaced_singleton trivial
  | .str _ => spaced_singleton trivial
  | .arr xs => by
      rw [tokens]
      exact ((spaced_intercalate (spaced_tokensList xs)).append_punct rfl spaced_nil).punct_cons rfl
  | .obj members => by
      rw [tokens]
      exact ((spaced_intercalate (spaced_tokensMembers members)).append_punct rfl
        spaced_nil).punct_cons rfl

lemma spaced_tokensList : ∀ xs : List (Value ν), ∀ ts ∈ tokensList xs, Spaced ts
  | [], _, h => nomatch h
  | x :: xs, ts, h => by
      rcases List.mem_cons.mp h with rfl | h
      · exact spaced_tokens x
      · exact spaced_tokensList xs ts h

lemma spaced_tokensMembers : ∀ members : List (Text × Value ν), ∀ ts ∈ tokensMembers members, Spaced ts
  | [], _, h => nomatch h
  | (key, value) :: members, ts, h => by
      rcases List.mem_cons.mp h with rfl | h
      · exact @Spaced.append_punct _ _ rfl [.str key] _ (spaced_singleton trivial) (spaced_tokens value)
      · exact spaced_tokensMembers members ts h

end

/-! ### The value of the tokens -/

/-- The tokens that a value may begin with. -/
def Token.Begins : Token ν → Prop
  | .punct c => c = '[' ∨ c = '\x7b'
  | _ => True

lemma exists_tokens_eq_cons (v : Value ν) : ∃ token ts, tokens v = token :: ts ∧ token.Begins := by
  cases v with
  | arr xs =>
      rw [tokens]
      exact ⟨.punct '[', _, rfl, Or.inl rfl⟩
  | obj members =>
      rw [tokens]
      exact ⟨.punct '\x7b', _, rfl, Or.inr rfl⟩
  | null => exact ⟨.null, [], rfl, trivial⟩
  | bool b => exact ⟨.bool b, [], rfl, trivial⟩
  | num n => exact ⟨.num n, [], rfl, trivial⟩
  | str s => exact ⟨.str s, [], rfl, trivial⟩

/-- Values between commas, up to a closing bracket. -/
lemma intercalate_cons_append (ts : List (Token ν)) (tss : List (List (Token ν)))
    (r : List (Token ν)) :
    List.intercalate [.punct ','] (ts :: tss) ++ r =
      ts ++ (if tss = [] then r else .punct ',' :: (List.intercalate [.punct ','] tss ++ r)) := by
  cases tss with
  | nil => simp
  | cons ts' tss => simp [List.intercalate_cons_cons]

mutual

/-- The tokens of a value end where the value does. -/
lemma tokens_append_inj : ∀ (v v' : Value ν) {r r' : List (Token ν)},
    tokens v ++ r = tokens v' ++ r' → v = v' ∧ r = r'
  | .null, v', r, r', h => by cases v' <;> simp_all [tokens]
  | .bool b, v', r, r', h => by cases v' <;> simp_all [tokens]
  | .num n, v', r, r', h => by cases v' <;> simp_all [tokens]
  | .str s, v', r, r', h => by cases v' <;> simp_all [tokens]
  | .arr xs, v', r, r', h => by
      cases v' with
      | arr xs' =>
          have hrest : List.intercalate [.punct ','] (tokensList xs) ++ .punct ']' :: r =
              List.intercalate [.punct ','] (tokensList xs') ++ .punct ']' :: r' := by
            simpa [tokens] using h
          obtain ⟨rfl, rfl⟩ := tokensList_append_inj xs xs' hrest
          exact ⟨rfl, rfl⟩
      | _ => simp [tokens] at h
  | .obj members, v', r, r', h => by
      cases v' with
      | obj members' =>
          have hrest : List.intercalate [.punct ','] (tokensMembers members) ++ .punct '\x7d' :: r =
              List.intercalate [.punct ','] (tokensMembers members') ++ .punct '\x7d' :: r' := by
            simpa [tokens] using h
          obtain ⟨rfl, rfl⟩ := tokensMembers_append_inj members members' hrest
          exact ⟨rfl, rfl⟩
      | _ => simp [tokens] at h

lemma tokensList_append_inj : ∀ (xs xs' : List (Value ν)) {r r' : List (Token ν)},
    List.intercalate [.punct ','] (tokensList xs) ++ .punct ']' :: r =
      List.intercalate [.punct ','] (tokensList xs') ++ .punct ']' :: r' → xs = xs' ∧ r = r'
  | [], [], r, r', h => by simpa [tokensList] using h
  | [], x' :: xs', r, r', h => by
      obtain ⟨token, ts, hts, hbegins⟩ := exists_tokens_eq_cons x'
      rw [tokensList, tokensList, intercalate_cons_append, hts] at h
      obtain ⟨rfl, -⟩ : .punct ']' = token ∧ _ := by simpa using h
      rcases hbegins with h | h <;> simp at h
  | x :: xs, [], r, r', h => by
      obtain ⟨token, ts, hts, hbegins⟩ := exists_tokens_eq_cons x
      rw [tokensList, tokensList, intercalate_cons_append, hts] at h
      obtain ⟨rfl, -⟩ : token = .punct ']' ∧ _ := by simpa using h
      rcases hbegins with h | h <;> simp at h
  | x :: xs, x' :: xs', r, r', h => by
      rw [tokensList, tokensList, intercalate_cons_append, intercalate_cons_append] at h
      obtain ⟨rfl, hmore⟩ := tokens_append_inj x x' h
      cases xs with
      | nil =>
          cases xs' with
          | nil => simpa [tokensList] using hmore
          | cons _ _ => simp [tokensList] at hmore
      | cons y ys =>
          cases xs' with
          | nil => simp [tokensList] at hmore
          | cons y' ys' =>
              rw [tokensList, tokensList, if_neg (List.cons_ne_nil _ _),
                if_neg (List.cons_ne_nil _ _), ← tokensList, ← tokensList] at hmore
              obtain ⟨heq, rfl⟩ := tokensList_append_inj (y :: ys) (y' :: ys') (List.cons.inj hmore).2
              exact ⟨by rw [heq], rfl⟩

lemma tokensMembers_append_inj : ∀ (ms ms' : List (Text × Value ν)) {r r' : List (Token ν)},
    List.intercalate [.punct ','] (tokensMembers ms) ++ .punct '\x7d' :: r =
      List.intercalate [.punct ','] (tokensMembers ms') ++ .punct '\x7d' :: r' → ms = ms' ∧ r = r'
  | [], [], r, r', h => by simpa [tokensMembers] using h
  | [], (key', value') :: ms', r, r', h => by
      rw [tokensMembers, tokensMembers, intercalate_cons_append] at h
      simp at h
  | (key, value) :: ms, [], r, r', h => by
      rw [tokensMembers, tokensMembers, intercalate_cons_append] at h
      simp at h
  | (key, value) :: ms, (key', value') :: ms', r, r', h => by
      rw [tokensMembers, tokensMembers, intercalate_cons_append, intercalate_cons_append] at h
      obtain ⟨rfl, hvalue⟩ : key = key' ∧ tokens value ++ _ = tokens value' ++ _ := by simpa using h
      obtain ⟨rfl, hmore⟩ := tokens_append_inj value value' hvalue
      cases ms with
      | nil =>
          cases ms' with
          | nil => simpa [tokensMembers] using hmore
          | cons _ _ => simp [tokensMembers] at hmore
      | cons m ms =>
          cases ms' with
          | nil => simp [tokensMembers] at hmore
          | cons m' ms' =>
              rw [if_neg (by simp [tokensMembers]), if_neg (by simp [tokensMembers])] at hmore
              obtain ⟨heq, rfl⟩ := tokensMembers_append_inj (m :: ms) (m' :: ms') (List.cons.inj hmore).2
              exact ⟨by rw [heq], rfl⟩

end

/-- The tokens determine the value. -/
lemma tokens_injective : Function.Injective (@tokens ν) := by
  intro v v' h
  exact (tokens_append_inj v v' (congrArg (· ++ []) h)).1

/-! ### Reading -/

section Reading

variable [Numeral ν]

/-- The token that a text begins with, and the text after it. -/
def next : Text → Option (Token ν × Text)
  | [] => none
  | c :: s =>
      if c = '"' then (Quoted.json.read s).map fun r => (.str r.1, r.2)
      else if isPunctuation c then some (.punct c, s)
      else if isNumberChar c then
        (Numeral.read ((c :: s).takeWhile isNumberChar)).map fun n =>
          (.num n, (c :: s).dropWhile isNumberChar)
      else
        match c :: s with
        | 'n' :: 'u' :: 'l' :: 'l' :: rest => some (.null, rest)
        | 't' :: 'r' :: 'u' :: 'e' :: rest => some (.bool true, rest)
        | 'f' :: 'a' :: 'l' :: 's' :: 'e' :: rest => some (.bool false, rest)
        | _ => none

/-- The tokens of a text, with spaces before them. -/
inductive Reads : Text → List (Token ν) → Prop
  | nil {t : Text} : (∀ c ∈ t, isSpace c = true) → Reads t []
  | cons {t rest : Text} {token : Token ν} {ts : List (Token ν)} :
      next (t.dropWhile isSpace) = some (token, rest) → Reads rest ts → Reads t (token :: ts)

/-- The text of a token begins with a character that is no space, and with one of
a numeral only for numerals. -/
lemma exists_text_eq_cons {token : Token ν} (hok : token.Ok) :
    ∃ c s, token.text = c :: s ∧ isSpace c = false ∧ isNumberChar c = token.isNum := by
  cases token with
  | punct c =>
      refine ⟨c, [], rfl, ?_⟩
      rcases isPunctuation_iff.mp hok with rfl | rfl | rfl | rfl | rfl | rfl <;> exact ⟨rfl, rfl⟩
  | null => exact ⟨'n', _, rfl, rfl, rfl⟩
  | bool b =>
      cases b with
      | true => exact ⟨'t', _, rfl, rfl, rfl⟩
      | false => exact ⟨'f', _, rfl, rfl, rfl⟩
  | num n =>
      obtain ⟨c, s, hcs⟩ := List.exists_cons_of_ne_nil (Numeral.text_ne_nil n)
      have hc : isNumberChar c = true :=
        Numeral.isNumberChar_of_mem n c (hcs ▸ List.mem_cons_self)
      refine ⟨c, s, hcs, ?_, hc⟩
      by_contra hspace
      simp only [Bool.not_eq_false, isSpace, decide_eq_true_eq] at hspace
      rcases hspace with rfl | rfl | rfl | rfl <;> exact absurd hc (by decide)
  | str s => exact ⟨'"', _, rfl, rfl, rfl⟩

/-- A string is read back. -/
lemma json_read_quote (s t : Text) :
    Quoted.json.read (s.flatMap escapeChar ++ '"' :: t) = some (s, t) := by
  have hclose : Quoted.json.read ('"' :: t) = some ([], t) := Quoted.Quoting.read_of_close rfl
  rw [Quoted.Quoting.read_flatMap (fun c _ r => Quoted.json_step_escapeChar c r), hclose]
  simp

/-- What is read of a numeral, where it ends. -/
lemma next_num (n : ν) {t : Text} (hend : ∀ c ∈ t.head?, isNumberChar c = false) :
    next (Numeral.text n ++ t) =
      (Numeral.read (Numeral.text n)).map fun m : ν => (Token.num m, t) := by
  have hall := Numeral.isNumberChar_of_mem n
  obtain ⟨c, s, hcs⟩ := List.exists_cons_of_ne_nil (Numeral.text_ne_nil n)
  have hc : isNumberChar c = true := hall c (hcs ▸ List.mem_cons_self)
  have hquote : c ≠ '"' := by
    rintro rfl
    exact absurd hc (by decide)
  have hpunctuation : ¬ isPunctuation c = true := by
    intro hpunct
    rcases isPunctuation_iff.mp hpunct with rfl | rfl | rfl | rfl | rfl | rfl <;> exact absurd hc (by decide)
  have hstop : t.takeWhile isNumberChar = [] ∧ t.dropWhile isNumberChar = t := by
    cases t with
    | nil => exact ⟨rfl, rfl⟩
    | cons d t =>
        have hd := hend d rfl
        simp [hd]
  have htake : (Numeral.text n ++ t).takeWhile isNumberChar = Numeral.text n := by
    rw [List.takeWhile_append_of_pos hall, hstop.1, List.append_nil]
  have hdrop : (Numeral.text n ++ t).dropWhile isNumberChar = t := by
    rw [List.dropWhile_append_of_pos hall, hstop.2]
  rw [hcs, List.cons_append] at htake hdrop ⊢
  rw [next, if_neg hquote, if_neg hpunctuation, if_pos hc, htake, hdrop]

/-- A number that is read back from its numeral. -/
def ReadBack (n : ν) : Prop := Numeral.read (Numeral.text n) = some n

/-- A token is read back, where a numeral ends. -/
lemma next_text {token : Token ν} (hok : token.Ok) (hback : ∀ n, token = .num n → ReadBack n)
    {t : Text} (hend : token.isNum = true → ∀ c ∈ t.head?, isNumberChar c = false) :
    next (token.text ++ t) = some (token, t) := by
  cases token with
  | punct c =>
      have hquote : c ≠ '"' := by
        rintro rfl
        exact absurd (show isPunctuation '"' = true from hok) (by decide)
      exact (if_neg hquote).trans (if_pos hok)
  | null => rfl
  | bool b =>
      cases b with
      | true => rfl
      | false => rfl
  | num n =>
      have hread : Numeral.read (Numeral.text n) = some n := hback n rfl
      rw [Token.text, next_num n (hend rfl), hread]
      rfl
  | str s =>
      have htext : (Token.str s : Token ν).text ++ t = '"' :: (s.flatMap escapeChar ++ '"' :: t) := by
        simp [Token.text, quote]
      rw [htext, next, if_pos rfl, json_read_quote]
      rfl

omit [Numeral ν] in
/-- After a numeral stands no character of one, whichever way of writing tokens
begins each of them as the text does. -/
lemma Spaced.head_flatMap {write : Token ν → Text}
    (hwrite : ∀ token : Token ν, token.Ok →
      ∃ c s, write token = c :: s ∧ isSpace c = false ∧ isNumberChar c = token.isNum)
    {token : Token ν} {ts : List (Token ν)} (h : Spaced (token :: ts)) (hnum : token.isNum = true) :
    ∀ c ∈ (ts.flatMap write).head?, isNumberChar c = false := by
  intro d hd
  cases ts with
  | nil => cases hd
  | cons token' ts =>
      obtain ⟨c, s, hcs, -, hnumber⟩ := hwrite token' (h.tail.ok token' List.mem_cons_self)
      rw [List.flatMap_cons, hcs] at hd
      obtain rfl : c = d := by simpa using hd
      rw [hnumber]
      have hapart := (List.isChain_cons_cons.mp h.apart).1
      simpa [hnum] using hapart

/-- Tokens that are written are read back. -/
lemma reads_text {ts : List (Token ν)} (h : Spaced ts) (hback : ∀ n, .num n ∈ ts → ReadBack n) :
    Reads (ts.flatMap Token.text) ts := by
  induction ts with
  | nil => exact .nil (by simp)
  | cons token ts ih =>
      have hok := h.ok token List.mem_cons_self
      obtain ⟨c, s, hcs, hspace, -⟩ := exists_text_eq_cons hok
      refine .cons ?_ (ih h.tail fun n hn => hback n (List.mem_cons_of_mem _ hn))
      have hdrop : ((token :: ts).flatMap Token.text).dropWhile isSpace =
          token.text ++ ts.flatMap Token.text := by
        rw [List.flatMap_cons, hcs, List.cons_append, List.dropWhile_cons, hspace]
        rfl
      rw [hdrop]
      exact next_text hok (fun n hn => hback n (hn ▸ List.mem_cons_self))
        (h.head_flatMap fun _ => exists_text_eq_cons)

/-- A text of a value. -/
def Parses (t : Text) (v : Value ν) : Prop := Reads t (tokens v)

/-- **The compact text of a value is a text of it.** -/
theorem parses_dump {v : Value ν} (hback : ∀ n, .num n ∈ tokens v → ReadBack n) :
    Parses (dump v) v := by
  rw [dump_eq]
  exact reads_text (spaced_tokens v) hback

/-- The tokens of a text are determined by it. -/
lemma Reads.unique {t : Text} {ts ts' : List (Token ν)} (h : Reads t ts) (h' : Reads t ts') :
    ts = ts' := by
  induction h generalizing ts' with
  | nil hspace =>
      cases h' with
      | nil => rfl
      | cons hnext _ =>
          rw [List.dropWhile_eq_nil_iff.mpr hspace] at hnext
          cases hnext
  | cons hnext _ ih =>
      cases h' with
      | nil hspace =>
          rw [List.dropWhile_eq_nil_iff.mpr hspace] at hnext
          cases hnext
      | cons hnext' hrest' =>
          rw [hnext] at hnext'
          obtain ⟨rfl, rfl⟩ := Prod.mk.inj (Option.some.inj hnext')
          rw [ih hrest']

/-- **A text is one of at most one value.** -/
theorem parses_unique {t : Text} {v v' : Value ν} (h : Parses t v) (h' : Parses t v') : v = v' :=
  tokens_injective (h.unique h')

end Reading

end JsonText
