import Neutralino.Library.ShellExpansion

/-!
The program that a line of a shell starts.

* `Piece`, `Word`: a word with what its characters are: bare, quoted, or the beginning of an
  expansion; `Marked.read` reads a line into such words, as `scan` reads it into texts
  (`read_map_text`).
* `isAssignment`, `isReserved`: the words that are no program: `NAME=text` before the first
  other word, and a reserved word at the beginning.
* `Starts`: the programs that a line may start.  What an expansion gives is up to the variables
  and the files that the shell finds.
* `OnlyStarts`, `onlyStarts_iff`: **a line is one simple command and starts allowed programs
  only**.
-/

namespace Shell

/-! ### Words with what their characters are -/

/-- A character of a word: outside quotes, in quotes or escaped, or at the beginning of an
expansion; or a quote, which is no text. -/
inductive Piece where
  | bare (c : Char)
  | quoted (c : Char)
  | expanded (c : Char)
  | quote
  deriving DecidableEq

/-- The text of a piece. -/
def Piece.text : Piece → Text
  | .bare c => [c]
  | .quoted c => [c]
  | .expanded c => [c]
  | .quote => []

abbrev Word := List Piece

/-- The text of a word. -/
def Word.text (w : Word) : Text := w.flatMap Piece.text

/-- The state of the reader, with marked words. -/
structure Marked where
  mode : Mode := .unquoted
  words : List Word := []
  word : Option Word := none

namespace Marked

/-- The state without the marks. -/
def erase (m : Marked) : State := ⟨m.mode, m.words.map Word.text, m.word.map Word.text⟩

/-- A piece added to the word being read. -/
def put (m : Marked) (p : Piece) : Marked := { m with word := some (m.word.getD [] ++ [p]) }

/-- The word being read, finished. -/
def flush (m : Marked) : Marked := { m with words := m.words ++ m.word.toList, word := none }

/-- A quote opens, or closes, inside the word being read. -/
def quote (m : Marked) (mode : Mode) : Marked := { m.put .quote with mode := mode }

/-- What a character is that stands for itself, or begins an expansion. -/
def piece (m : Marked) (c : Char) (next : Option Char) : Piece :=
  if expands m.erase c next then .expanded c
  else if m.mode = .unquoted then .bare c
  else .quoted c

/-- One character read, as `step` reads it. -/
def step (m : Marked) (c : Char) (next : Option Char) : Option Marked :=
  match m.mode with
  | .unquoted =>
      if isBlank c then some m.flush
      else if isOperator c || isSubstitution c next then none
      else if c = '\'' then some (m.quote .single)
      else if c = '"' then some (m.quote .double)
      else if c = '\\' then some { m with mode := .escaped }
      else if c = '#' && m.word.isNone then some { m with mode := .comment }
      else some (m.put (m.piece c next))
  | .escaped =>
      let m := { m with mode := .unquoted }
      some (if c = '\n' then m else m.put (.quoted c))
  | .single => some (if c = '\'' then m.quote .unquoted else m.put (.quoted c))
  | .double =>
      if c = '"' then some (m.quote .unquoted)
      else if isSubstitution c next then none
      else if c = '\\' && next.any isEscapable then some { m with mode := .doubleEscaped }
      else some (m.put (m.piece c next))
  | .doubleEscaped =>
      let m := { m with mode := .double }
      some (if c = '\n' then m else m.put (.quoted c))
  | .comment => if c = '\n' then none else some m

/-- The words at the end of the line, absent where a quote is left open. -/
def finish (m : Marked) : Option (List Word) :=
  match m.mode with
  | .unquoted => some m.flush.words
  | .escaped => some (m.put (.quoted '\\')).flush.words
  | .comment => some m.flush.words
  | .single => none
  | .double => none
  | .doubleEscaped => none

/-- The words of a line, absent where a character is active or a quote is left open. -/
def read (m : Marked) : Text → Option (List Word)
  | [] => m.finish
  | c :: s =>
      match m.step c s.head? with
      | some m' => read m' s
      | none => none

end Marked

/-- The words of a reading. -/
def Reading.words? : Reading → Option (List Text)
  | .words ws => some ws
  | _ => none

namespace Marked

variable {m : Marked} {c : Char} {next : Option Char}

lemma text_append_piece (word : Option Word) (p : Piece) :
    Word.text (word.getD [] ++ [p]) = (word.map Word.text).getD [] ++ p.text := by
  cases word <;> simp [Word.text]

lemma erase_put {p : Piece} (h : p.text = [c]) : (m.put p).erase = m.erase.put c := by
  simp only [erase, put, State.put, Option.map_some, text_append_piece, h]

lemma erase_quote (mode : Mode) : (m.quote mode).erase = m.erase.quote mode := by
  simp only [erase, quote, put, State.quote, Option.map_some, text_append_piece, Piece.text,
    List.append_nil]

lemma erase_flush : m.flush.erase = m.erase.flush := by
  cases hword : m.word <;> simp [erase, flush, State.flush, hword]

lemma text_piece : (m.piece c next).text = [c] := by
  rw [piece]
  split_ifs <;> rfl

/-- The two readers go through the same states. -/
lemma erase_step (m : Marked) (c : Char) (next : Option Char) :
    (m.step c next).map erase = Shell.step m.erase c next := by
  have hmode : m.erase.mode = m.mode := rfl
  have hnone : m.erase.word.isNone = m.word.isNone := Option.isNone_map
  cases hm : m.mode with
  | unquoted =>
      simp only [step, Shell.step, hmode, hm, hnone]
      split_ifs
      · exact congrArg some erase_flush
      · rfl
      · exact congrArg some (erase_quote _)
      · exact congrArg some (erase_quote _)
      · rfl
      · rfl
      · exact congrArg some (erase_put text_piece)
  | escaped =>
      simp only [step, Shell.step, hmode, hm]
      split_ifs
      · rfl
      · exact congrArg some (erase_put rfl)
  | single =>
      simp only [step, Shell.step, hmode, hm]
      split_ifs
      · exact congrArg some (erase_quote _)
      · exact congrArg some (erase_put rfl)
  | double =>
      simp only [step, Shell.step, hmode, hm]
      split_ifs
      · exact congrArg some (erase_quote _)
      · rfl
      · rfl
      · exact congrArg some (erase_put text_piece)
  | doubleEscaped =>
      simp only [step, Shell.step, hmode, hm]
      split_ifs
      · rfl
      · exact congrArg some (erase_put rfl)
  | comment =>
      simp only [step, Shell.step, hmode, hm]
      split_ifs
      · rfl
      · rfl

lemma finish_map_text (m : Marked) :
    m.finish.map (List.map Word.text) = (Shell.finish m.erase).words? := by
  have hflush : ∀ m : Marked, m.flush.words.map Word.text = m.erase.flush.words := fun m =>
    congrArg State.words (erase_flush (m := m))
  have hmode : m.erase.mode = m.mode := rfl
  cases hm : m.mode with
  | escaped =>
      have hput : (m.put (.quoted '\\')).erase = m.erase.put '\\' := erase_put rfl
      simp only [finish, Shell.finish, hmode, hm, Option.map_some, hflush, hput, Reading.words?]
  | _ => simp only [finish, Shell.finish, hmode, hm, Option.map_some, Option.map_none, hflush,
      Reading.words?]

/-- **The marked words are the words**, with their marks. -/
theorem read_map_text (m : Marked) (s : Text) :
    (m.read s).map (List.map Word.text) = (scan m.erase s).words? := by
  induction s generalizing m with
  | nil => exact finish_map_text m
  | cons c s ih =>
      have hstep := erase_step m c s.head?
      rw [read]
      cases hm : m.step c s.head? with
      | none =>
          rw [hm] at hstep
          rw [scan_cons_of_active hstep.symm]
          rfl
      | some m' =>
          rw [hm] at hstep
          rw [scan_cons_of_step hstep.symm]
          exact ih m'

end Marked

/-- A line is one simple command exactly if it is read as words, and at least one. -/
lemma simpleCommand_iff_read {s : Text} :
    SimpleCommand s ↔ ∃ w ws, Marked.read {} s = some (w :: ws) := by
  have hread := Marked.read_map_text {} s
  rw [show Marked.erase {} = {} from rfl] at hread
  constructor
  · rintro ⟨w, ws, hscan⟩
    rw [hscan, Reading.words?, Option.map_eq_some_iff] at hread
    obtain ⟨words, hwords, hmap⟩ := hread
    obtain ⟨word, rest, rfl, -⟩ := List.map_eq_cons_iff.mp hmap
    exact ⟨word, rest, hwords⟩
  · rintro ⟨w, ws, hwords⟩
    rw [hwords, Option.map_some, List.map_cons] at hread
    cases hscan : scan {} s with
    | words texts =>
        rw [hscan, Reading.words?, Option.some.injEq] at hread
        exact ⟨_, _, hscan.trans (congrArg _ hread.symm)⟩
    | active c => rw [hscan] at hread; cases hread
    | unterminated => rw [hscan] at hread; cases hread

/-! ### Words that are no program -/

/-- The characters that a name begins with, and those in it. -/
def isNameStart (c : Char) : Bool := c.isAlpha || c = '_'

def isNameChar (c : Char) : Bool := c.isAlphanum || c = '_'

/-- The rest of a name and an equals sign, all outside quotes. -/
def assigns : Word → Bool
  | .bare c :: w => c = '=' || (isNameChar c && assigns w)
  | _ => false

/-- An assignment: a name and an equals sign, outside quotes, and a text. -/
def isAssignment : Word → Bool
  | .bare c :: w => isNameStart c && assigns w
  | _ => false

/-- The words that are reserved where a command may begin. -/
def reservedWords : List Text :=
  ["!", "\x7b", "\x7d", "case", "do", "done", "elif", "else", "esac", "fi", "for", "if", "then",
    "until", "while"].map String.toList

def Piece.isBare : Piece → Bool
  | .bare _ => true
  | _ => false

/-- A reserved word, no part of which is quoted. -/
def isReserved (w : Word) : Bool := w.all Piece.isBare && reservedWords.contains w.text

def Piece.isExpanded : Piece → Bool
  | .expanded _ => true
  | _ => false

/-- A word without an expansion. -/
def Word.isLiteral (w : Word) : Bool := !w.any Piece.isExpanded

/-! ### The program -/

/-- The fields of a word, where `expansion` gives those of the words with an expansion: as many
as its variables and the files that it matches make. -/
def fields (expansion : Word → List Text) (w : Word) : List Text :=
  if w.isLiteral then [w.text] else expansion w

/-- A line may start a program: it is the first field behind the assignments. -/
def Starts (s program : Text) : Prop :=
  ∃ ws expansion, Marked.read {} s = some ws ∧
    ((ws.dropWhile isAssignment).flatMap (fields expansion)).head? = some program ∧ program ≠ []

/-- A line is one simple command, which begins with no reserved word, and all programs that it
may start are allowed. -/
structure OnlyStarts (allowed : Text → Prop) (s : Text) : Prop where
  simple : SimpleCommand s
  plain : ∀ w ws, Marked.read {} s = some (w :: ws) → isReserved w = false
  programs : ∀ program, Starts s program → allowed program

/-- The first of some words has no expansion, and is empty or an allowed program. -/
def FirstAllowed (allowed : Text → Prop) : List Word → Prop
  | [] => True
  | w :: _ => w.isLiteral = true ∧ (w.text = [] ∨ allowed w.text)

/-- What the first of some words gives is allowed, whatever expansions give. -/
lemma firstAllowed_iff {allowed : Text → Prop} (hforbidden : ∃ name ≠ [], ¬ allowed name)
    {ws : List Word} :
    (∀ expansion program, (ws.flatMap (fields expansion)).head? = some program → program ≠ [] →
      allowed program) ↔ FirstAllowed allowed ws := by
  cases ws with
  | nil => exact iff_of_true (fun _ _ h => by cases h) trivial
  | cons w ws =>
      rw [FirstAllowed]
      by_cases hliteral : w.isLiteral = true
      · have hhead : ∀ expansion, ((w :: ws).flatMap (fields expansion)).head? = some w.text := by
          intro expansion
          rw [List.flatMap_cons, fields, if_pos hliteral]
          rfl
        simp only [hhead, Option.some.injEq, hliteral, true_and]
        constructor
        · intro h
          by_cases hempty : w.text = []
          · exact .inl hempty
          · exact .inr (h (fun _ => []) _ rfl hempty)
        · rintro h _ program rfl hne
          exact h.resolve_left hne
      · -- an expansion may give a name that is not allowed
        obtain ⟨name, hne, hname⟩ := hforbidden
        refine iff_of_false (fun h => hname (h (fun _ => [name]) name ?_ hne)) fun h => hliteral h.1
        rw [List.flatMap_cons, fields, if_neg hliteral]
        rfl

/-- **A line is one simple command and starts allowed programs only** exactly if it is read as
words of which the first is not reserved, and the first behind the assignments has no expansion
and is empty or allowed. -/
theorem onlyStarts_iff {allowed : Text → Prop} (hforbidden : ∃ name ≠ [], ¬ allowed name)
    {s : Text} :
    OnlyStarts allowed s ↔ SimpleCommand s ∧ ∀ w ws, Marked.read {} s = some (w :: ws) →
      isReserved w = false ∧ FirstAllowed allowed ((w :: ws).dropWhile isAssignment) := by
  constructor
  · rintro ⟨hsimple, hplain, hprograms⟩
    refine ⟨hsimple, fun w ws hread => ⟨hplain w ws hread, ?_⟩⟩
    exact (firstAllowed_iff hforbidden).mp fun expansion program hhead hne =>
      hprograms program ⟨_, expansion, hread, hhead, hne⟩
  · rintro ⟨hsimple, hwords⟩
    refine ⟨hsimple, fun w ws hread => (hwords w ws hread).1, ?_⟩
    rintro program ⟨ws, expansion, hread, hhead, hne⟩
    obtain ⟨w, rest, hread'⟩ := simpleCommand_iff_read.mp hsimple
    obtain rfl : w :: rest = ws := Option.some.inj (hread'.symm.trans hread)
    exact (firstAllowed_iff hforbidden).mpr (hwords w rest hread).2 expansion program hhead hne

end Shell
