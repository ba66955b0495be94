import Mathlib.Data.List.TakeWhile
import Neutralino.Base.Helpers

/-!
The tokens of `split`, and the stream it reads them from.

* `StringStream`, `getline`: the stream with its state flags; `splitRounds` is the
  loop over it, and `splitRounds_eq`: it comes to an end with the tokens of `split`.
* `split_of_not_mem`, `split_append`: a text without the delimiter is one token, and
  the text up to the first delimiter is the first token; `split_induction` goes from one
  delimiter to the next.
* `delim_not_mem_of_mem_split`, `intercalate_split`, `length_split`: what the tokens hold,
  what they are together, and how many there are.
* `Splits`: what the tokens of a text are to be.
* `splits_split`: **the tokens are the text**, but for one delimiter at its end.
-/

namespace Neutralino.helpers

/-! ### Texts by their first delimiter -/

/-- A text is empty, or it has no delimiter, or it goes on after a first one. -/
lemma first_delimiter (delim : Char) (s : Str) :
    s = [] ∨ s ≠ [] ∧ delim ∉ s ∨
      ∃ before rest, delim ∉ before ∧ s = before ++ delim :: rest := by
  by_cases hmem : delim ∈ s
  · obtain ⟨before, rest, rfl, hbefore⟩ := List.eq_append_cons_of_mem hmem
    exact .inr (.inr ⟨before, rest, hbefore, rfl⟩)
  · exact (eq_or_ne s []).imp_right fun h => .inl ⟨h, hmem⟩

section Tokens

variable {delim : Char} {s : Str}

/-- Where no limit is met any more, the number of tokens plays no part. -/
lemma splitLoop_of_past {stopAfter : Option ℕ} {count : ℕ}
    (h : ∀ n, count ≤ n → stopAfter ≠ some (n + 2)) (count' : ℕ) (delim : Char) (item : Option Str)
    (s : Str) : splitLoop stopAfter count delim item s = splitLoop none count' delim item s := by
  induction s generalizing item count count' with
  | nil => cases item <;> rfl
  | cons c s ih =>
      have hnext : ∀ n, count + 1 ≤ n → stopAfter ≠ some (n + 2) := fun n hn =>
        h n (Nat.le_of_succ_le hn)
      rw [splitLoop, splitLoop, if_neg (h count le_rfl), if_neg (Option.some_ne_none _).symm,
        ih hnext (count' + 1), ih h count']

@[simp] lemma split_nil (delim : Char) : split [] delim none = [] := rfl

lemma split_of_not_mem (hne : s ≠ []) (h : delim ∉ s) : split s delim none = [s] :=
  splitLoop_none_of_not_mem hne h

lemma split_append {before : Str} (h : delim ∉ before) (rest : Str) :
    split (before ++ delim :: rest) delim none = before :: split rest delim none := by
  rw [split, splitLoop_none_append h, if_neg (Option.some_ne_none _).symm,
    splitLoop_of_past (fun _ _ => (Option.some_ne_none _).symm) 0]
  rfl

lemma split_ne_nil (h : s ≠ []) : split s delim none ≠ [] := by
  rcases first_delimiter delim s with rfl | ⟨hne, hs⟩ | ⟨before, rest, hbefore, rfl⟩
  · exact absurd rfl h
  · rw [split_of_not_mem hne hs]
    exact List.cons_ne_nil _ _
  · rw [split_append hbefore]
    exact List.cons_ne_nil _ _

/-- **Induction from one delimiter to the next.** -/
theorem split_induction {P : Str → List Str → Prop} (nil : P [] [])
    (last : ∀ s, s ≠ [] → delim ∉ s → P s [s])
    (append : ∀ before rest, delim ∉ before → P rest (split rest delim none) →
      P (before ++ delim :: rest) (before :: split rest delim none)) (s : Str) :
    P s (split s delim none) := by
  induction hn : s.length using Nat.strong_induction_on generalizing s with
  | _ n ih =>
      rcases first_delimiter delim s with rfl | ⟨hne, hs⟩ | ⟨before, rest, hbefore, rfl⟩
      · exact nil
      · rw [split_of_not_mem hne hs]
        exact last s hne hs
      · have hlength : rest.length < n := by
          rw [List.length_append, List.length_cons] at hn
          omega
        rw [split_append hbefore]
        exact append before rest hbefore (ih _ hlength rest rfl)

end Tokens

/-! ### The stream -/

/-- A `stringstream` that is read: what is left of its text, and its state flags. -/
structure StringStream where
  rest : Str
  eofbit : Bool := false
  failbit : Bool := false

/-- `getline`: the item and the stream it leaves.  A stream that is not good fails and
leaves the item alone; a good one fails if there is nothing to extract.  The delimiter
is extracted, but not stored. -/
def getline (stream : StringStream) (item : Str) (delim : Char) : Str × StringStream :=
  if stream.eofbit || stream.failbit then (item, { stream with failbit := true })
  else
    let extracted := stream.rest.takeWhile (· ≠ delim)
    match stream.rest.dropWhile (· ≠ delim) with
    | _ :: rest => (extracted, { rest := rest })
    | [] => (extracted, { rest := [], eofbit := true, failbit := extracted.isEmpty })

/-- The loop of `split`, for a number of rounds; without a limit `stopAfter` is `-1` in
the source. -/
def splitRounds (stopAfter : Option ℕ) : ℕ → StringStream → Str → Char → List Str →
    Option (List Str)
  | 0, _, _, _, _ => none
  | rounds + 1, stream, item, delim, tokens =>
      let read := getline stream item delim
      if read.2.failbit then some tokens
      else
        let tokens := tokens ++ [read.1]
        let delim := if stopAfter = some (tokens.length + 1) then '\n' else delim
        splitRounds stopAfter rounds read.2 read.1 delim tokens

lemma getline_nil (item : Str) (delim : Char) :
    getline { rest := [] } item delim = ([], { rest := [], eofbit := true, failbit := true }) := rfl

lemma getline_of_not_mem {s : Str} {delim : Char} (hne : s ≠ []) (h : delim ∉ s) (item : Str) :
    getline { rest := s } item delim = (s, { rest := [], eofbit := true }) := by
  have hall : ∀ c ∈ s, decide (c ≠ delim) = true := fun c hc => by
    simpa using fun hcd : c = delim => h (hcd ▸ hc)
  have htake : s.takeWhile (· ≠ delim) = s := List.takeWhile_eq_self_iff.mpr hall
  have hdrop : s.dropWhile (· ≠ delim) = [] := List.dropWhile_eq_nil_iff.mpr hall
  simp only [getline, htake, hdrop, Bool.or_self, Bool.false_eq_true, if_false,
    List.isEmpty_eq_false_iff.mpr hne]

lemma getline_append {before : Str} {delim : Char} (h : delim ∉ before) (rest item : Str) :
    getline { rest := before ++ delim :: rest } item delim = (before, { rest := rest }) := by
  have hall : ∀ c ∈ before, decide (c ≠ delim) = true := fun c hc => by
    simpa using fun hcd : c = delim => h (hcd ▸ hc)
  have htake : (before ++ delim :: rest).takeWhile (· ≠ delim) = before := by
    rw [List.takeWhile_append_of_pos hall, List.takeWhile_cons_of_neg (by simp), List.append_nil]
  have hdrop : (before ++ delim :: rest).dropWhile (· ≠ delim) = delim :: rest := by
    rw [List.dropWhile_append_of_pos hall, List.dropWhile_cons_of_neg (by simp)]
  simp only [getline, htake, hdrop, Bool.or_self, Bool.false_eq_true, if_false]

/-- **The loop ends with the tokens of `split`**, after at most one round more than the
text has characters. -/
theorem splitRounds_eq {stopAfter : Option ℕ} {s : Str} {rounds : ℕ} (h : s.length < rounds)
    (item : Str) (delim : Char) (tokens : List Str) :
    splitRounds stopAfter rounds { rest := s } item delim tokens =
      some (tokens ++ splitLoop stopAfter tokens.length delim none s) := by
  induction rounds generalizing s item delim tokens with
  | zero => cases h
  | succ rounds ih =>
      rcases first_delimiter delim s with rfl | ⟨hne, hs⟩ | ⟨before, rest, hbefore, rfl⟩
      · rw [splitRounds, getline_nil]
        simp [splitLoop]
      · obtain ⟨rounds, rfl⟩ : ∃ k, rounds = k + 1 :=
          Nat.exists_eq_succ_of_ne_zero (by have := List.length_pos_iff.mpr hne; omega)
        rw [splitRounds, getline_of_not_mem hne hs, splitLoop_none_of_not_mem hne hs]
        simp [splitRounds, getline]
      · have hlength : rest.length < rounds := by
          rw [List.length_append, List.length_cons] at h
          omega
        rw [splitRounds, getline_append hbefore, splitLoop_none_append hbefore]
        simp [ih hlength]

/-! ### The tokens of a text -/

/-- What the tokens of a text are to be: without the delimiter, the text when they are
joined, but for a delimiter at its end, and as many as the delimiters end, with one more
for what stands after the last of them. -/
structure Splits (s : Str) (delim : Char) (tokens : List Str) : Prop where
  delim_not_mem : ∀ token ∈ tokens, delim ∉ token
  joined : [delim].intercalate tokens = if s.getLast? = some delim then s.dropLast else s
  nil : s = [] → tokens = []
  length : tokens.length = s.count delim + if s ≠ [] ∧ s.getLast? ≠ some delim then 1 else 0

section Splits

variable {delim : Char} {s : Str}

/-- A token holds no delimiter. -/
lemma delim_not_mem_of_mem_split {token : Str} (h : token ∈ split s delim none) : delim ∉ token := by
  have key := split_induction (P := fun _ tokens => ∀ token ∈ tokens, delim ∉ token)
    (fun _ hnil => absurd hnil List.not_mem_nil)
    (fun s _ hs => List.forall_mem_singleton.mpr hs)
    (fun before rest hbefore hrest => List.forall_mem_cons.mpr ⟨hbefore, hrest⟩) s
  exact key token h

lemma getLast?_append_delim (before : Str) {rest : Str} (hne : rest ≠ []) :
    (before ++ delim :: rest).getLast? = rest.getLast? := by
  obtain ⟨c, rest, rfl⟩ := List.exists_cons_of_ne_nil hne
  rw [List.getLast?_append_cons, List.getLast?_cons_cons]

/-- A delimiter at the end is not put back. -/
lemma intercalate_split (s : Str) (delim : Char) :
    [delim].intercalate (split s delim none) =
      if s.getLast? = some delim then s.dropLast else s := by
  refine split_induction (P := fun s tokens => [delim].intercalate tokens =
    if s.getLast? = some delim then s.dropLast else s) rfl ?_ ?_ s
  · intro s _ hs
    rw [if_neg fun hlast => hs (List.mem_of_getLast? hlast), List.intercalate_singleton]
  · intro before rest _ hrest
    by_cases hne : rest = []
    · rw [hne, split_nil, List.intercalate_singleton, if_pos (by simp), List.dropLast_concat]
    · have htokens : split rest delim none ≠ [] := split_ne_nil hne
      obtain ⟨token, tokens, htokens⟩ := List.exists_cons_of_ne_nil htokens
      rw [htokens] at hrest ⊢
      rw [List.intercalate_cons_cons, hrest, getLast?_append_delim before hne]
      obtain ⟨c, rest, rfl⟩ := List.exists_cons_of_ne_nil hne
      split_ifs
      · rw [List.dropLast_append_cons, List.dropLast_cons_cons, List.append_assoc,
          List.singleton_append]
      · rw [List.append_assoc, List.singleton_append]

/-- A token ends at every delimiter, and at the end of a text that goes on after them. -/
lemma length_split (s : Str) (delim : Char) :
    (split s delim none).length =
      s.count delim + if s ≠ [] ∧ s.getLast? ≠ some delim then 1 else 0 := by
  refine split_induction (P := fun s tokens => tokens.length =
    s.count delim + if s ≠ [] ∧ s.getLast? ≠ some delim then 1 else 0) rfl ?_ ?_ s
  · intro s hne hs
    rw [if_pos ⟨hne, fun hlast => hs (List.mem_of_getLast? hlast)⟩, List.count_eq_zero_of_not_mem hs]
    rfl
  · intro before rest hbefore hrest
    have hcount : (before ++ delim :: rest).count delim = rest.count delim + 1 := by
      rw [List.count_append, List.count_eq_zero_of_not_mem hbefore, List.count_cons_self,
        Nat.zero_add]
    rw [List.length_cons, hrest, hcount, Nat.add_right_comm]
    by_cases hne : rest = []
    · simp [hne]
    · simp [getLast?_append_delim before hne, hne]

/-- Of the delimiters before the last character each ends a token. -/
lemma length_split_concat (init : Str) (last delim : Char) :
    (split (init ++ [last]) delim none).length = init.count delim + 1 := by
  rw [length_split, List.count_append, List.getLast?_concat]
  by_cases hlast : last = delim
  · simp [hlast]
  · simp [hlast]

end Splits

/-- **The tokens are the text**: no token has the delimiter, and joined by it they are
the text, but for one delimiter at its end. -/
theorem splits_split (s : Str) (delim : Char) : Splits s delim (split s delim none) := by
  constructor
  case delim_not_mem => exact fun token htoken => delim_not_mem_of_mem_split htoken
  case joined => exact intercalate_split s delim
  case nil =>
    rintro rfl
    rfl
  case length => exact length_split s delim

/-- A delimiter at the end gives no token, and one at the beginning an empty one. -/
example : split "/a//b/" '/' none = [[], ['a'], [], ['b']] := by decide

end Neutralino.helpers
