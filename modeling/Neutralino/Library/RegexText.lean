import Mathlib.Data.Option.Basic
import Neutralino.Library.Regex

/-!
The text of an ECMAScript expression.

* `Token`, `scan`: the text as operators and ordinary characters, where a backslash
  makes an ordinary character of an operator.
* `terms`, `compile`: the expression that an anchored text of characters, dots and
  stars stands for; there is none where the text is no expression or has any other
  operator.
* `scan_escape`, `scan_ordinary`, `terms_cons`, `terms_star`: how a text is read, piece
  by piece.
-/

namespace RegexText

open Regex

/-- A token of an expression. -/
inductive Token where
  | op (c : Char)
  | ord (c : Char)
  deriving DecidableEq

/-- The characters that are operators where they are not escaped. -/
def isSyntaxCharacter (c : Char) : Bool :=
  ['^', '$', '\\', '.', '*', '+', '?', '(', ')', '[', ']', '{', '}', '|'].contains c

/-- The characters that mean something else after a backslash. -/
def isIdentifierPart (c : Char) : Bool := c.isAlphanum || c = '_'

/-- The tokens of a text; the flag says that a backslash was read. -/
def scan : Bool → List Char → Option (List Token)
  | false, [] => some []
  | true, [] => none
  | true, c :: s => if isIdentifierPart c then none else (scan false s).map (.ord c :: ·)
  | false, c :: s =>
      if c = '\\' then scan true s
      else if isSyntaxCharacter c then (scan false s).map (.op c :: ·)
      else (scan false s).map (.ord c :: ·)

/-- The expression of one token. -/
def atom : Token → Option (Re Char)
  | .ord c => some (.cls (· = c))
  | .op c => if c = '.' then some dot else none

/-- The expression of the tokens up to the final `$`. -/
def terms : List Token → Option (Re Char)
  | [] => none
  | [t] => if t = .op '$' then some .empty else none
  | t :: t' :: ts => do
      let r ← atom t
      if t' = .op '*' then return .cat (.star r) (← terms ts)
      else return .cat r (← terms (t' :: ts))

/-- The expression of a text between `^` and `$`. -/
def compile (text : List Char) : Option (Re Char) := do
  match ← scan false text with
  | [] => none
  | t :: ts => if t = .op '^' then terms ts else none

/-! ### Piece by piece -/

section Pieces

variable {c : Char} {s : List Char} {t t' : Token} {ts : List Token} {r : Re Char}

/-- An escaped character is ordinary. -/
lemma scan_escape (hc : isIdentifierPart c = false) :
    scan false ('\\' :: c :: s) = (scan false s).map (.ord c :: ·) := by
  rw [scan, if_pos rfl, scan, if_neg (by simp [hc])]

lemma scan_ordinary (hc : isSyntaxCharacter c = false) :
    scan false (c :: s) = (scan false s).map (.ord c :: ·) := by
  have hslash : c ≠ '\\' := fun h => by rw [h] at hc; cases hc
  rw [scan, if_neg hslash, if_neg (by simp [hc])]

lemma scan_operator (hc : isSyntaxCharacter c = true) (hslash : c ≠ '\\') :
    scan false (c :: s) = (scan false s).map (.op c :: ·) := by
  rw [scan, if_neg hslash, if_pos hc]

/-- An atom before a star. -/
lemma terms_star (hatom : atom t = some r) :
    terms (t :: .op '*' :: ts) = (terms ts).map (.cat (.star r)) := by
  rw [terms, hatom]
  cases terms ts <;> rfl

/-- An atom before something else. -/
lemma terms_cons (hatom : atom t = some r) (ht' : t' ≠ .op '*') :
    terms (t :: t' :: ts) = (terms (t' :: ts)).map (.cat r) := by
  rw [terms, hatom]
  simp only [Option.bind_eq_bind, Option.bind_some, if_neg ht']
  cases terms (t' :: ts) <;> rfl

end Pieces

end RegexText
