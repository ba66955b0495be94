import Mathlib.Data.List.Basic

/-!
How a POSIX shell reads a command line into words.

* `State`, `step`: the quoting automaton, one character at a time with a look
  at the next one.
* `scan`: the words of a line, or the first character of it that is active,
  that is an operator, a newline or the beginning of a command substitution.
* `SimpleCommand`: a line is read as the words of one simple command.
-/

namespace Shell

/-- A text. -/
abbrev Text := List Char

/-- The quoting modes; the escaped ones stand after a backslash that escapes the
next character. -/
inductive Mode where
  | unquoted
  | escaped
  | single
  | double
  | doubleEscaped
  | comment
  deriving DecidableEq

/-- The state of the reader: its mode, the words read, and the word being read,
absent between words. -/
structure State where
  mode : Mode := .unquoted
  words : List Text := []
  word : Option Text := none

/-- What a line is read as. -/
inductive Reading where
  | words (ws : List Text)
  | active (c : Char)
  | unterminated
  deriving DecidableEq

namespace State

/-- A character added to the word being read. -/
def put (st : State) (c : Char) : State := { st with word := some (st.word.getD [] ++ [c]) }

/-- The word being read, finished. -/
def flush (st : State) : State :=
  { st with words := st.words ++ st.word.toList, word := none }

/-- A quote opens, or closes, inside the word being read. -/
def quote (st : State) (mode : Mode) : State := { st with mode := mode, word := some (st.word.getD []) }

end State

/-- The characters that separate words. -/
def isBlank (c : Char) : Bool := c = ' ' || c = '\t'

/-- The characters that end a word and are active when unquoted. -/
def isOperator (c : Char) : Bool :=
  c = ';' || c = '|' || c = '&' || c = '<' || c = '>' || c = '(' || c = ')' || c = '\n'

/-- The characters that a backslash escapes inside double quotes. -/
def isEscapable (c : Char) : Bool :=
  c = '$' || c = '`' || c = '"' || c = '\\' || c = '\n'

/-- Whether a command substitution begins at `c`, followed by `next`. -/
def isSubstitution (c : Char) (next : Option Char) : Bool :=
  c = '`' || (c = '$' && next = some '(')

/-- One character read, absent where it is active. -/
def step (st : State) (c : Char) (next : Option Char) : Option State :=
  match st.mode with
  | .unquoted =>
      if isBlank c then some st.flush
      else if isOperator c || isSubstitution c next then none
      else if c = '\'' then some (st.quote .single)
      else if c = '"' then some (st.quote .double)
      else if c = '\\' then some { st with mode := .escaped }
      else if c = '#' && st.word.isNone then some { st with mode := .comment }
      else some (st.put c)
  | .escaped =>
      let st := { st with mode := .unquoted }
      some (if c = '\n' then st else st.put c)
  | .single => some (if c = '\'' then st.quote .unquoted else st.put c)
  | .double =>
      if c = '"' then some (st.quote .unquoted)
      else if isSubstitution c next then none
      else if c = '\\' && next.any isEscapable then some { st with mode := .doubleEscaped }
      else some (st.put c)
  | .doubleEscaped =>
      let st := { st with mode := .double }
      some (if c = '\n' then st else st.put c)
  | .comment => if c = '\n' then none else some st

/-- The end of the line; a backslash there stands for itself. -/
def finish (st : State) : Reading :=
  match st.mode with
  | .unquoted => .words st.flush.words
  | .escaped => .words (st.put '\\').flush.words
  | .comment => .words st.flush.words
  | .single => .unterminated
  | .double => .unterminated
  | .doubleEscaped => .unterminated

/-- The reading of a line from a state. -/
def scan (st : State) : Text → Reading
  | [] => finish st
  | c :: s =>
      match step st c s.head? with
      | some st' => scan st' s
      | none => .active c

/-- A reading as one simple command: words, and at least one. -/
def IsSimple (r : Reading) : Prop := ∃ w ws, r = .words (w :: ws)

/-- A line is one simple command. -/
def SimpleCommand (s : Text) : Prop := IsSimple (scan {} s)

@[simp] lemma not_isSimple_active (c : Char) : ¬ IsSimple (.active c) := nofun

@[simp] lemma not_isSimple_unterminated : ¬ IsSimple .unterminated := nofun

lemma isSimple_words {ws : List Text} : IsSimple (.words ws) ↔ ws ≠ [] := by
  cases ws <;> simp [IsSimple]

instance (r : Reading) : Decidable (IsSimple r) :=
  match r with
  | .words [] => isFalse nofun
  | .words (w :: ws) => isTrue ⟨w, ws, rfl⟩
  | .active c => isFalse (not_isSimple_active c)
  | .unterminated => isFalse not_isSimple_unterminated

instance (s : Text) : Decidable (SimpleCommand s) := inferInstanceAs (Decidable (IsSimple _))

lemma scan_cons_of_step {st st' : State} {c : Char} {s : Text} (h : step st c s.head? = some st') :
    scan st (c :: s) = scan st' s := by simp [scan, h]

lemma scan_cons_of_active {st : State} {c : Char} {s : Text} (h : step st c s.head? = none) :
    scan st (c :: s) = .active c := by simp [scan, h]

/-- A comment lasts to the end of a line; a newline after it is active. -/
lemma isSimple_scan_comment {st : State} (hmode : st.mode = .comment) (s : Text) :
    IsSimple (scan st s) ↔ st.flush.words ≠ [] ∧ '\n' ∉ s := by
  induction s with
  | nil => simp [scan, finish, hmode, isSimple_words]
  | cons c s ih =>
      by_cases hc : c = '\n'
      · have hstep : step st c s.head? = none := by simp [step, hmode, hc]
        rw [scan_cons_of_active hstep]
        simp [hc]
      · have hstep : step st c s.head? = some st := by simp [step, hmode, hc]
        rw [scan_cons_of_step hstep, ih]
        simp [Ne.symm hc]

/-! ### What a reading depends on -/

/-- Two states in the same mode, both inside a word or both between words, and
both or neither with something read. -/
structure State.Alike (st st' : State) : Prop where
  mode : st.mode = st'.mode
  word : st.word.isNone = st'.word.isNone
  nothing : st.flush.words = [] ↔ st'.flush.words = []

lemma flush_words_eq_nil {st : State} : st.flush.words = [] ↔ st.words = [] ∧ st.word = none := by
  simp [State.flush]

namespace State.Alike

variable {st st' : State}

lemma put (h : st.mode = st'.mode) (c : Char) : State.Alike (st.put c) (st'.put c) :=
  ⟨h, rfl, by simp [flush_words_eq_nil, State.put]⟩

lemma quote (st st' : State) (mode : Mode) : State.Alike (st.quote mode) (st'.quote mode) :=
  ⟨rfl, rfl, by simp [flush_words_eq_nil, State.quote]⟩

lemma withMode (h : st.Alike st') (mode : Mode) :
    State.Alike { st with mode := mode } { st' with mode := mode } := ⟨rfl, h.word, h.nothing⟩

lemma flush (h : st.Alike st') : State.Alike st.flush st'.flush := by
  refine ⟨h.mode, rfl, ?_⟩
  have := h.nothing
  simpa [State.flush] using this

/-- States that are alike are led to states that are alike. -/
lemma step (h : st.Alike st') (c : Char) (next : Option Char) :
    (Shell.step st c next = none ∧ Shell.step st' c next = none) ∨
      ∃ t t', Shell.step st c next = some t ∧ Shell.step st' c next = some t' ∧ t.Alike t' := by
  obtain ⟨mode, words, word⟩ := st
  obtain ⟨mode', words', word'⟩ := st'
  obtain rfl : mode = mode' := h.mode
  have hword : word.isNone = word'.isNone := h.word
  cases mode with
  | unquoted =>
      simp only [Shell.step, hword]
      split_ifs
      · exact .inr ⟨_, _, rfl, rfl, h.flush⟩
      · exact .inl ⟨rfl, rfl⟩
      · exact .inr ⟨_, _, rfl, rfl, .quote _ _ _⟩
      · exact .inr ⟨_, _, rfl, rfl, .quote _ _ _⟩
      · exact .inr ⟨_, _, rfl, rfl, h.withMode _⟩
      · exact .inr ⟨_, _, rfl, rfl, h.withMode _⟩
      · exact .inr ⟨_, _, rfl, rfl, .put (by rfl) c⟩
  | escaped =>
      simp only [Shell.step]
      split_ifs
      · exact .inr ⟨_, _, rfl, rfl, h.withMode _⟩
      · exact .inr ⟨_, _, rfl, rfl, .put (by rfl) c⟩
  | single =>
      simp only [Shell.step]
      split_ifs
      · exact .inr ⟨_, _, rfl, rfl, .quote _ _ _⟩
      · exact .inr ⟨_, _, rfl, rfl, .put (by rfl) c⟩
  | double =>
      simp only [Shell.step]
      split_ifs
      · exact .inr ⟨_, _, rfl, rfl, .quote _ _ _⟩
      · exact .inl ⟨rfl, rfl⟩
      · exact .inr ⟨_, _, rfl, rfl, h.withMode _⟩
      · exact .inr ⟨_, _, rfl, rfl, .put (by rfl) c⟩
  | doubleEscaped =>
      simp only [Shell.step]
      split_ifs
      · exact .inr ⟨_, _, rfl, rfl, h.withMode _⟩
      · exact .inr ⟨_, _, rfl, rfl, .put (by rfl) c⟩
  | comment =>
      simp only [Shell.step]
      split_ifs
      · exact .inl ⟨rfl, rfl⟩
      · exact .inr ⟨_, _, rfl, rfl, h⟩

lemma finish (h : st.Alike st') : IsSimple (finish st) ↔ IsSimple (finish st') := by
  obtain ⟨mode, words, word⟩ := st
  obtain ⟨mode', words', word'⟩ := st'
  obtain rfl : mode = mode' := h.mode
  have hnothing := h.nothing
  cases mode with
  | unquoted => simpa only [Shell.finish, isSimple_words] using not_congr hnothing
  | comment => simpa only [Shell.finish, isSimple_words] using not_congr hnothing
  | escaped =>
      simp [Shell.finish, isSimple_words, flush_words_eq_nil, State.put]
  | _ => simp [Shell.finish]

end State.Alike

/-- States that are alike read a line alike. -/
theorem isSimple_scan_congr {st st' : State} (h : st.Alike st') (s : Text) :
    IsSimple (scan st s) ↔ IsSimple (scan st' s) := by
  induction s generalizing st st' with
  | nil => exact h.finish
  | cons c s ih =>
      rcases h.step c s.head? with ⟨hst, hst'⟩ | ⟨t, t', hst, hst', ht⟩
      · simp [scan_cons_of_active hst, scan_cons_of_active hst']
      · rw [scan_cons_of_step hst, scan_cons_of_step hst']
        exact ih ht

end Shell
