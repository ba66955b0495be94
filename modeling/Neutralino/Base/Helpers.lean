import Neutralino.Base.Json
import Neutralino.Library.RegexText

/-!
`helpers.cpp`: the text and JSON helpers the other components call.

* `split`, `splitTwo`: the `getline` loop; `splitTwo_eq_nil_iff` and
  `head_splitTwo` say when it returns nothing and what stands first.
* `globText`, `globalMatch`: a wildcard pattern turned into the text of a regular
  expression, which is then matched.
* `tokenizeCommand`: the words of a command under simple quote rules.
* `urldecode`: percent decoding of a C string.
-/

namespace Neutralino.helpers

open Regex

/-! ### Splitting -/

/-- The `getline` loop of `split`, after `count` tokens; `item` is the token
being read, absent where none has been started. -/
def splitLoop (stopAfter : Option ℕ) : ℕ → Char → Option Str → Str → List Str
  | _, _, none, [] => []
  | _, _, some item, [] => [item]
  | count, delim, item, c :: s =>
      if c = delim then
        (item.getD []) ::
          splitLoop stopAfter (count + 1)
            (if stopAfter = some (count + 2) then '\n' else delim) none s
      else splitLoop stopAfter count delim (some (item.getD [] ++ [c])) s

/-- `split`; without a limit `stopAfter` is `-1` in the source. -/
def split (s : Str) (delim : Char) (stopAfter : Option ℕ) : List Str :=
  splitLoop stopAfter 0 delim none s

/-- `splitTwo`. -/
def splitTwo (s : Str) (delim : Char) : List Str := split s delim (some 2)

lemma splitLoop_some_ne_nil (stopAfter : Option ℕ) (count : ℕ) (delim : Char) (item s : Str) :
    splitLoop stopAfter count delim (some item) s ≠ [] := by
  induction s generalizing item with
  | nil => simp [splitLoop]
  | cons c s ih =>
      by_cases hc : c = delim
      · simp [splitLoop, hc]
      · simpa [splitLoop, hc] using ih _

/-- A piece without the delimiter is one token. -/
lemma splitLoop_of_not_mem (stopAfter : Option ℕ) (count : ℕ) {delim : Char} {item s : Str}
    (h : delim ∉ s) : splitLoop stopAfter count delim (some item) s = [item ++ s] := by
  induction s generalizing item with
  | nil => simp [splitLoop]
  | cons c s ih =>
      obtain ⟨hc, hs⟩ : delim ≠ c ∧ delim ∉ s := by simpa using h
      rw [splitLoop, if_neg (Ne.symm hc), ih hs]
      simp

/-- A piece up to the delimiter is one token, and the rest is split after it. -/
lemma splitLoop_append (stopAfter : Option ℕ) (count : ℕ) {delim : Char} {item s : Str}
    (h : delim ∉ s) (rest : Str) :
    splitLoop stopAfter count delim (some item) (s ++ delim :: rest) =
      (item ++ s) :: splitLoop stopAfter (count + 1)
        (if stopAfter = some (count + 2) then '\n' else delim) none rest := by
  induction s generalizing item with
  | nil => simp [splitLoop]
  | cons c s ih =>
      obtain ⟨hc, hs⟩ : delim ≠ c ∧ delim ∉ s := by simpa using h
      rw [List.cons_append, splitLoop, if_neg (Ne.symm hc), ih hs]
      simp

/-- A text without the delimiter is one token. -/
lemma splitLoop_none_of_not_mem {stopAfter : Option ℕ} {count : ℕ} {delim : Char} {s : Str}
    (hne : s ≠ []) (h : delim ∉ s) : splitLoop stopAfter count delim none s = [s] := by
  obtain ⟨c, s, rfl⟩ := List.exists_cons_of_ne_nil hne
  obtain ⟨hc, hs⟩ := not_or.mp (mt List.mem_cons.mpr h)
  rw [splitLoop, if_neg (Ne.symm hc), splitLoop_of_not_mem _ _ hs]
  rfl

/-- The text up to the first delimiter is the first token. -/
lemma splitLoop_none_append {stopAfter : Option ℕ} {count : ℕ} {delim : Char} {before : Str}
    (h : delim ∉ before) (rest : Str) :
    splitLoop stopAfter count delim none (before ++ delim :: rest) =
      before :: splitLoop stopAfter (count + 1)
        (if stopAfter = some (count + 2) then '\n' else delim) none rest := by
  cases before with
  | nil =>
      rw [List.nil_append, splitLoop, if_pos rfl]
      rfl
  | cons c before =>
      obtain ⟨hc, hbefore⟩ := not_or.mp (mt List.mem_cons.mpr h)
      rw [List.cons_append, splitLoop, if_neg (Ne.symm hc), splitLoop_append _ _ hbefore]
      rfl

/-- Only the empty text has no tokens. -/
lemma splitTwo_eq_nil_iff {s : Str} {delim : Char} : splitTwo s delim = [] ↔ s = [] := by
  cases s with
  | nil => simp [splitTwo, split, splitLoop]
  | cons c s =>
      by_cases hc : c = delim
      · simp [splitTwo, split, splitLoop, hc]
      · simp [splitTwo, split, splitLoop, hc, splitLoop_some_ne_nil]

lemma head_splitLoop (stopAfter : Option ℕ) (count : ℕ) (delim : Char) (item s : Str) :
    (splitLoop stopAfter count delim (some item) s).head? =
      some (item ++ s.takeWhile (· ≠ delim)) := by
  induction s generalizing item with
  | nil => simp [splitLoop]
  | cons c s ih =>
      rw [splitLoop]
      by_cases hc : c = delim
      · simp [hc]
      · simp [hc, ih]

/-- The first token is the text before the first delimiter. -/
lemma head_splitTwo {s : Str} (hs : s ≠ []) (delim : Char) :
    (splitTwo s delim).head? = some (s.takeWhile (· ≠ delim)) := by
  obtain ⟨c, s, rfl⟩ := List.exists_cons_of_ne_nil hs
  rw [splitTwo, split, splitLoop]
  by_cases hc : c = delim
  · simp [hc]
  · simp [hc, head_splitLoop]

lemma splitTwo_of_not_mem {s : Str} {delim : Char} (hne : s ≠ []) (h : delim ∉ s) :
    splitTwo s delim = [s] :=
  splitLoop_none_of_not_mem hne h

/-- A text of two parts around its first delimiter is split into them. -/
lemma splitTwo_append {delim : Char} {u v : Str} (hdelim : delim ∉ u) (hv : v ≠ [])
    (hline : '\n' ∉ v) : splitTwo (u ++ delim :: v) delim = [u, v] := by
  rw [splitTwo, split, splitLoop_none_append hdelim, if_pos rfl, splitLoop_none_of_not_mem hv hline]

/-! ### Paths and fields -/

/-- `normalizePath` where the path separator is already `/`. -/
def normalizePath (path : Str) : Str :=
  if 1 < path.length ∧ path.getLast? = some '/' then path.dropLast else path

/-- `hasField`. -/
def hasField (input : Json) (key : Str) : Except Fault Bool :=
  if input.contains key then do
    let value ← input.indexConst key
    return !value.isNull
  else .ok false

/-- `hasRequiredFields`. -/
def hasRequiredFields (input : Json) : List Str → Except Fault Bool
  | [] => .ok true
  | key :: keys => do
      if ← hasField input key then hasRequiredFields input keys else return false

/-- `missingRequiredField`. -/
def missingRequiredField (input : Json) : List Str → Except Fault (Option Str)
  | [] => .ok none
  | key :: keys => do
      if ← hasField input key then missingRequiredField input keys else return some key

lemma contains_of_indexConst {input : Json} {key : Str} {value : Json}
    (h : input.indexConst key = .ok value) : input.contains key = true := by
  cases input with
  | obj members =>
      cases hfind : members.find? fun m => m.1 = key with
      | none => simp [Json.indexConst, hfind] at h
      | some m =>
          have hkey := List.find?_some hfind
          exact List.any_eq_true.mpr ⟨m, List.mem_of_find?_eq_some hfind, hkey⟩
  | _ => cases h

/-- A member is a field unless it is `null`. -/
lemma hasField_of_indexConst {input : Json} {key : Str} {value : Json}
    (h : input.indexConst key = .ok value) : hasField input key = .ok !value.isNull := by
  rw [hasField, if_pos (contains_of_indexConst h), h, ok_bind]
  rfl

/-! ### Wildcard patterns -/

/-- The characters that `globalMatch` escapes. -/
def globEscaped : Str := ['.', '\\', '+', '(', ')', '[', ']', '{', '}', '|', '^', '$', '#']

/-- The text `globalMatch` writes for one character of a pattern. -/
def globCharText (c : Char) : Str :=
  if c = '*' then ['.', '*']
  else if c = '?' then ['.']
  else if globEscaped.contains c then ['\\', c]
  else [c]

/-- `regexStr` of `globalMatch`. -/
def globText (pattern : Str) : Str := '^' :: (pattern.flatMap globCharText ++ ['$'])

/-- `globalMatch`; a text that is no expression matches nothing. -/
def globalMatch (value pattern : Str) : Bool :=
  match RegexText.compile (globText pattern) with
  | some r => r.test value
  | none => false

/-! ### Command words -/

/-- `isspace` in the C locale. -/
def isspace (c : Char) : Bool :=
  c = ' ' || c = '\t' || c = '\n' || c = '\x0b' || c = '\x0c' || c = '\r'

/-- The characters that reject a command outside quotes.  `strchr` also finds
the terminating NUL of its first argument. -/
def isRejected (c : Char) : Bool :=
  [';', '|', '&', '>', '<', '$', '`', '(', ')', '{', '}', '\\', '\n', '\r', '\x00'].contains c

/-- The lambda `flushToken`. -/
def flushToken (tokens : List Str) (current : Str) : List Str :=
  if current = [] then tokens else tokens ++ [current]

/-- The loop of `tokenizeCommand`; the flags are `inSingle` and `inDouble`. -/
def tokenizeLoop : Bool → Bool → List Str → Str → Str → List Str
  | inSingle, inDouble, tokens, current, [] =>
      if inSingle || inDouble then [] else flushToken tokens current
  | false, false, tokens, current, c :: s =>
      if isspace c then tokenizeLoop false false (flushToken tokens current) [] s
      else if c = '\'' then tokenizeLoop true false tokens current s
      else if c = '"' then tokenizeLoop false true tokens current s
      else if isRejected c then []
      else tokenizeLoop false false tokens (current ++ [c]) s
  | true, inDouble, tokens, current, c :: s =>
      if c = '\'' then tokenizeLoop false inDouble tokens current s
      else tokenizeLoop true inDouble tokens (current ++ [c]) s
  | false, true, tokens, current, c :: s =>
      if c = '"' then tokenizeLoop false false tokens current s
      else tokenizeLoop false true tokens (current ++ [c]) s

/-- `tokenizeCommand`: the words of a command, none when it is rejected. -/
def tokenizeCommand (command : Str) : List Str := tokenizeLoop false false [] [] command

/-! ### Percent decoding -/

/-- The text a `char *` to the first character of `s` denotes. -/
def cString (s : Str) : Str := s.takeWhile (· ≠ '\x00')

/-- `isxdigit`. -/
def isxdigit (c : Char) : Bool :=
  ('0' ≤ c && c ≤ '9') || ('a' ≤ c && c ≤ 'f') || ('A' ≤ c && c ≤ 'F')

/-- The value `urldecode` computes for a hexadecimal digit. -/
def xdigitValue (c : Char) : ℕ :=
  let c := if 'a' ≤ c then c.toNat - ('a'.toNat - 'A'.toNat) else c.toNat
  if 'A'.toNat ≤ c then c - ('A'.toNat - 10) else c - '0'.toNat

/-- `urldecode`. -/
def urldecode : Str → Str
  | '%' :: a :: b :: s =>
      if isxdigit a && isxdigit b then
        Char.ofNat (16 * xdigitValue a + xdigitValue b) :: urldecode s
      else '%' :: urldecode (a :: b :: s)
  | c :: s => c :: urldecode s
  | [] => []

example : urldecode "/a%2e%2E/%zz%4".toList = "/a../%zz%4".toList := by decide

end Neutralino.helpers
