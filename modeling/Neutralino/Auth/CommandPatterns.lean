import Neutralino.Base.Helpers
import Neutralino.Library.Glob

/-!
The patterns of the command list as globs.

* `globPattern`: a pattern with `*` for any run of characters and `?` for any
  character.
* `globRegex`, `compile_globText`: the expression that `globalMatch` matches with; the
  text it writes for a pattern always stands for it.
* `glob_of_globRegex`, `globRegex_of_glob`: that expression against the glob.
* `length_le_of_globRegex`: it matches no more line terminators than the glob has pieces.
* `globalMatch_glob`: the two directions for `globalMatch`.
-/

namespace Neutralino.helpers

open Regex RegexText

/-- The pieces of a pattern. -/
def globPiece : Char → Glob.Piece Char
  | '*' => .run
  | '?' => .any
  | c => .letter c

/-- A pattern as a glob. -/
def globPattern (pattern : Str) : List (Glob.Piece Char) := pattern.map globPiece

/-- The expression of a piece. -/
def pieceRegex : Glob.Piece Char → Re Char
  | .run => dotStar
  | .any => dot
  | .letter c => .cls (· = c)

/-- The expression of a glob. -/
def globRegex (glob : List (Glob.Piece Char)) : Re Char :=
  glob.foldr (fun piece r => .cat (pieceRegex piece) r) .empty

/-! ### The text of the expression -/

section Text

/-- The tokens of a piece. -/
def pieceTokens : Glob.Piece Char → List Token
  | .run => [.op '.', .op '*']
  | .any => [.op '.']
  | .letter c => [.ord c]

variable {c : Char} {s : Str}

/-- What `globalMatch` escapes may be escaped. -/
lemma not_isIdentifierPart_of_mem (h : c ∈ globEscaped) : isIdentifierPart c = false := by
  have hall : ∀ c ∈ globEscaped, isIdentifierPart c = false := forall_mem_of_all (by decide)
  exact hall c h

/-- Every operator is a wildcard or is escaped. -/
lemma not_isSyntaxCharacter (hrun : c ≠ '*') (hany : c ≠ '?') (h : c ∉ globEscaped) :
    isSyntaxCharacter c = false := by
  have hall : ∀ c ∈ ['^', '$', '\\', '.', '*', '+', '?', '(', ')', '[', ']', '{', '}', '|'],
      c = '*' ∨ c = '?' ∨ c ∈ globEscaped := forall_mem_of_all (by decide)
  by_contra hc
  rw [Bool.not_eq_false, isSyntaxCharacter, List.contains_eq_mem, decide_eq_true_eq] at hc
  obtain hc | hc | hc := hall c hc
  · exact hrun hc
  · exact hany hc
  · exact h hc

lemma globPiece_letter (hrun : c ≠ '*') (hany : c ≠ '?') : globPiece c = .letter c := by
  unfold globPiece
  split
  · exact absurd rfl hrun
  · exact absurd rfl hany
  · rfl

/-- The text of one character is read as its piece. -/
lemma scan_globCharText :
    scan false (globCharText c ++ s) = (scan false s).map (pieceTokens (globPiece c) ++ ·) := by
  rw [globCharText]
  by_cases hrun : c = '*'
  · subst hrun
    rw [if_pos rfl, List.cons_append, scan_operator rfl (by decide), List.cons_append,
      scan_operator rfl (by decide), List.nil_append, Option.map_map]
    rfl
  by_cases hany : c = '?'
  · subst hany
    rw [if_neg (by decide), if_pos rfl, List.cons_append, scan_operator rfl (by decide)]
    rfl
  rw [if_neg hrun, if_neg hany, globPiece_letter hrun hany]
  by_cases hescaped : c ∈ globEscaped
  · rw [if_pos (by simpa using hescaped), List.cons_append, List.cons_append,
      scan_escape (not_isIdentifierPart_of_mem hescaped)]
    rfl
  · rw [if_neg (by simpa using hescaped), List.cons_append,
      scan_ordinary (not_isSyntaxCharacter hrun hany hescaped)]
    rfl

lemma scan_globText (pattern : Str) :
    scan false (globText pattern) =
      some (.op '^' :: ((globPattern pattern).flatMap pieceTokens ++ [.op '$'])) := by
  rw [globText, scan_operator rfl (by decide)]
  have hbody : scan false (pattern.flatMap globCharText ++ ['$']) =
      some ((globPattern pattern).flatMap pieceTokens ++ [.op '$']) := by
    induction pattern with
    | nil => rfl
    | cons c pattern ih =>
        calc scan false ((c :: pattern).flatMap globCharText ++ ['$'])
            = scan false (globCharText c ++ (pattern.flatMap globCharText ++ ['$'])) := by
              rw [List.flatMap_cons, List.append_assoc]
          _ = (scan false (pattern.flatMap globCharText ++ ['$'])).map
                (pieceTokens (globPiece c) ++ ·) := scan_globCharText
          _ = some (pieceTokens (globPiece c) ++
                ((globPattern pattern).flatMap pieceTokens ++ [.op '$'])) := by
              rw [ih, Option.map_some]
          _ = some ((globPattern (c :: pattern)).flatMap pieceTokens ++ [.op '$']) := by
              rw [← List.append_assoc, ← List.flatMap_cons]
              rfl
  rw [hbody, Option.map_some]

/-- What follows an atom is no star. -/
lemma exists_tokens_eq_cons (glob : List (Glob.Piece Char)) :
    ∃ t ts, glob.flatMap pieceTokens ++ [.op '$'] = t :: ts ∧ t ≠ .op '*' := by
  cases glob with
  | nil => exact ⟨_, _, rfl, by decide⟩
  | cons piece glob =>
      cases piece with
      | run => exact ⟨_, _, rfl, by decide⟩
      | any => exact ⟨_, _, rfl, by decide⟩
      | letter c => exact ⟨_, _, rfl, nofun⟩

lemma terms_tokens (glob : List (Glob.Piece Char)) :
    terms (glob.flatMap pieceTokens ++ [.op '$']) = some (globRegex glob) := by
  induction glob with
  | nil => rfl
  | cons piece glob ih =>
      obtain ⟨t, ts, hrest, ht⟩ := exists_tokens_eq_cons glob
      rw [List.flatMap_cons, List.append_assoc]
      cases piece with
      | run =>
          rw [pieceTokens, List.cons_append, List.cons_append, List.nil_append,
            terms_star (r := dot) rfl, ih]
          rfl
      | any =>
          rw [pieceTokens, List.cons_append, List.nil_append, hrest,
            terms_cons (r := dot) rfl ht, ← hrest, ih]
          rfl
      | letter c =>
          rw [pieceTokens, List.cons_append, List.nil_append, hrest,
            terms_cons (r := .cls (· = c)) rfl ht, ← hrest, ih]
          rfl

/-- **The text that is written for a pattern** is an expression, that of its glob. -/
theorem compile_globText (pattern : Str) :
    compile (globText pattern) = some (globRegex (globPattern pattern)) := by
  rw [compile, scan_globText]
  exact terms_tokens (globPattern pattern)

example : globText "py*3.?" = "^py.*3\\..$".toList := by decide

lemma globalMatch_eq (value pattern : Str) :
    globalMatch value pattern = (globRegex (globPattern pattern)).test value := by
  rw [globalMatch, compile_globText]

end Text

/-! ### The expression and the glob -/

section Glob

variable {glob : List (Glob.Piece Char)} {value : Str}

/-- What the expression matches, the glob does. -/
theorem glob_of_globRegex (h : (globRegex glob).Matches value) : Glob.Matches glob value := by
  induction glob generalizing value with
  | nil =>
      obtain rfl := Re.matches_empty.mp h
      exact .nil
  | cons piece glob ih =>
      obtain ⟨u, v, hu, hv, rfl⟩ := Re.matches_cat.mp h
      cases piece with
      | run => exact .run u (ih hv)
      | any =>
          obtain ⟨c, -, rfl⟩ := Re.matches_cls.mp hu
          exact .any (ih hv)
      | letter c =>
          obtain ⟨c', hc', rfl⟩ := Re.matches_cls.mp hu
          obtain rfl : c' = c := by simpa using hc'
          exact .letter (ih hv)

/-- **What the glob matches**, the expression does where there is no line terminator. -/
theorem globRegex_of_glob (h : Glob.Matches glob value)
    (hvalue : ∀ c ∈ value, isLineTerminator c = false) : (globRegex glob).Matches value := by
  induction h with
  | nil => exact .empty
  | run u _ ih =>
      rw [List.forall_mem_append] at hvalue
      exact .cat (matches_dotStar.mpr hvalue.1) (ih hvalue.2)
  | @any _ c _ _ ih =>
      rw [List.forall_mem_cons] at hvalue
      have hone : dot.Matches [c] := .cls (by simpa using hvalue.1)
      exact Re.matches_cat.mpr ⟨[c], _, hone, ih hvalue.2, rfl⟩
  | @letter _ c _ _ ih =>
      rw [List.forall_mem_cons] at hvalue
      have hone : (pieceRegex (.letter c)).Matches [c] := .cls (by simp)
      exact Re.matches_cat.mpr ⟨[c], _, hone, ih hvalue.2, rfl⟩

/-- Line terminators are matched by letters only. -/
lemma length_le_of_globRegex (h : (globRegex glob).Matches value)
    (hvalue : ∀ c ∈ value, isLineTerminator c = true) : value.length ≤ glob.length := by
  induction glob generalizing value with
  | nil =>
      obtain rfl := Re.matches_empty.mp h
      rfl
  | cons piece glob ih =>
      obtain ⟨u, v, hu, hv, rfl⟩ := Re.matches_cat.mp h
      rw [List.forall_mem_append] at hvalue
      have hone : u.length ≤ 1 := by
        cases piece with
        | run =>
            have hplain := matches_dotStar.mp hu
            cases u with
            | nil => exact Nat.zero_le 1
            | cons c u =>
                have hterminator := hvalue.1 c List.mem_cons_self
                rw [hplain c List.mem_cons_self] at hterminator
                cases hterminator
        | any =>
            obtain ⟨c, -, rfl⟩ := Re.matches_cls.mp hu
            exact le_rfl
        | letter c =>
            obtain ⟨c', -, rfl⟩ := Re.matches_cls.mp hu
            exact le_rfl
      have hrest := ih hv hvalue.2
      rw [List.length_append, List.length_cons]
      omega

end Glob

/-- **`globalMatch` is glob matching**: what it matches, the glob of the pattern does,
and conversely where the value has no line terminator. -/
theorem globalMatch_glob (value pattern : Str) :
    (globalMatch value pattern = true → Glob.Matches (globPattern pattern) value) ∧
      ((∀ c ∈ value, isLineTerminator c = false) →
        Glob.Matches (globPattern pattern) value → globalMatch value pattern = true) := by
  rw [globalMatch_eq, Re.test_iff]
  exact ⟨glob_of_globRegex, fun hvalue h => globRegex_of_glob h hvalue⟩

end Neutralino.helpers
