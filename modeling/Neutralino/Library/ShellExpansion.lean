import Neutralino.Library.Shell

/-!
Expansions in a shell's line, and the texts that double quotes keep as they are.

* `expands`: the characters that begin an expansion of words already read: a
  parameter, a pattern or a tilde.
* `expand`: the reading of a line in which these are active too.
* `isInert`: the texts without a character that is special inside double quotes.
* `expand_quoted_iff`: **a text inside double quotes is a word of the line exactly
  when it is inert**.
-/

namespace Shell

/-! ### Expansions -/

/-- The characters that begin a parameter after a `$`. -/
def isParameterStart (c : Char) : Bool :=
  c.isAlphanum || ['_', '{', '@', '*', '#', '?', '-', '$', '!'].contains c

/-- Whether the expansion of a parameter begins at `c`, followed by `next`. -/
def isParameter (c : Char) (next : Option Char) : Bool := c = '$' && next.any isParameterStart

/-- Whether an expansion begins at `c`: everywhere but in single quotes a parameter
is expanded, outside quotes also a pattern and the tilde at the beginning of a word. -/
def expands (st : State) (c : Char) (next : Option Char) : Bool :=
  match st.mode with
  | .unquoted =>
      isParameter c next || c = '*' || c = '?' || c = '[' || (c = '~' && st.word.isNone)
  | .double => isParameter c next
  | _ => false

/-- The reading of a line from a state, in which nothing may be expanded. -/
def expand (st : State) : Text → Reading
  | [] => finish st
  | c :: s =>
      if expands st c s.head? then .active c
      else
        match step st c s.head? with
        | some st' => expand st' s
        | none => .active c

section Expand

variable {st st' : State} {c : Char} {s : Text}

lemma expand_cons_of_step (hexp : expands st c s.head? = false)
    (hstep : step st c s.head? = some st') : expand st (c :: s) = expand st' s := by
  simp [expand, hexp, hstep]

lemma expand_cons_of_expands (h : expands st c s.head? = true) :
    expand st (c :: s) = .active c := by
  simp [expand, h]

lemma expand_cons_of_active (h : step st c s.head? = none) : expand st (c :: s) = .active c := by
  simp [expand, h]

/-- What is read as words is read so from the state after the first character. -/
lemma expand_cons_eq_words {ws : List Text} (h : expand st (c :: s) = .words ws) :
    expands st c s.head? = false ∧
      ∃ st', step st c s.head? = some st' ∧ expand st' s = .words ws := by
  cases hexp : expands st c s.head? with
  | true =>
      rw [expand_cons_of_expands hexp] at h
      cases h
  | false =>
      cases hstep : step st c s.head? with
      | none =>
          rw [expand_cons_of_active hstep] at h
          cases h
      | some st' => exact ⟨rfl, st', rfl, by rwa [expand_cons_of_step hexp hstep] at h⟩

end Expand

/-! ### How much is read -/

/-- How many characters the words of a state hold. -/
def State.held (st : State) : ℕ := st.words.flatten.length + (st.word.getD []).length

/-- How many characters a state comes to hold at the end of the line, where a
backslash stands for itself. -/
def State.size (st : State) : ℕ := st.held + if st.mode = .escaped then 1 else 0

section Size

variable (st : State) (c : Char) (mode : Mode)

@[simp] lemma held_put : (st.put c).held = st.held + 1 := by
  simp [State.held, State.put, Nat.add_assoc]

@[simp] lemma size_put : (st.put c).size = st.size + 1 := by
  rw [State.size, held_put]
  exact Nat.add_right_comm _ _ _

@[simp] lemma size_withMode : State.size { st with mode := mode } =
    st.held + if mode = .escaped then 1 else 0 := rfl

@[simp] lemma size_quote : (st.quote mode).size = st.held + if mode = .escaped then 1 else 0 := rfl

@[simp] lemma size_flush : st.flush.size = st.size := by
  cases h : st.word <;> simp [State.size, State.held, State.flush, h]

@[simp] lemma length_flush : st.flush.words.flatten.length = st.held := by
  cases h : st.word <;> simp [State.held, State.flush, h]

lemma held_le_size : st.held ≤ st.size := Nat.le_add_right _ _

lemma size_of_mode {st : State} (h : st.mode ≠ .escaped) : st.size = st.held := by
  simp [State.size, h]

/-- A character adds at most one to what is read. -/
lemma size_step {st st' : State} {c : Char} {next : Option Char}
    (h : step st c next = some st') : st'.size ≤ st.size + 1 := by
  have hle := held_le_size st
  cases hmode : st.mode <;>
  · simp only [step, hmode] at h
    split_ifs at h <;> obtain rfl := Option.some.inj h <;> simp <;> omega

/-- The words at the end of a line hold what its state holds. -/
lemma length_finish {st : State} {ws : List Text} (h : finish st = .words ws) :
    ws.flatten.length = st.size := by
  cases hmode : st.mode <;> simp only [finish, hmode] at h <;> cases h
  · rw [length_flush, size_of_mode (by simp [hmode])]
  · rw [length_flush, held_put, State.size, if_pos hmode]
  · rw [length_flush, size_of_mode (by simp [hmode])]

end Size

/-- A quote at the end of the line adds nothing, or leaves the line unterminated. -/
lemma size_step_quote {st st' : State} {ws : List Text} (hstep : step st '"' none = some st')
    (h : finish st' = .words ws) : st'.size ≤ st.size := by
  cases hmode : st.mode with
  | unquoted =>
      obtain rfl : st.quote .double = st' := by simpa [step, hmode, isBlank, isOperator,
        isSubstitution] using hstep
      cases h
  | escaped =>
      obtain rfl : State.put { st with mode := .unquoted } '"' = st' := by
        simpa [step, hmode] using hstep
      refine Nat.le_of_eq ?_
      rw [size_put, size_withMode, State.size, if_pos hmode, if_neg Mode.noConfusion]
  | single =>
      obtain rfl : st.put '"' = st' := by simpa [step, hmode] using hstep
      simp [finish, State.put, hmode] at h
  | double =>
      obtain rfl : st.quote .unquoted = st' := by simpa [step, hmode] using hstep
      simpa using held_le_size st
  | doubleEscaped =>
      obtain rfl : State.put { st with mode := .double } '"' = st' := by
        simpa [step, hmode] using hstep
      cases h
  | comment =>
      obtain rfl : st = st' := by simpa [step, hmode] using hstep
      exact Nat.le_refl _

/-- The words of a line that a quote ends hold at most what was read before it. -/
lemma length_expand_quote {st : State} {s : Text} {ws : List Text}
    (h : expand st (s ++ ['"']) = .words ws) : ws.flatten.length ≤ st.size + s.length := by
  induction s generalizing st with
  | nil =>
      obtain ⟨-, st', hstep, h'⟩ := expand_cons_eq_words h
      rw [length_finish h', List.length_nil, Nat.add_zero]
      exact size_step_quote hstep h'
  | cons c s ih =>
      obtain ⟨-, st', hstep, h'⟩ := expand_cons_eq_words h
      calc ws.flatten.length
          ≤ st'.size + s.length := ih h'
        _ ≤ st.size + 1 + s.length := Nat.add_le_add_right (size_step hstep) _
        _ = st.size + (c :: s).length := by rw [List.length_cons]; omega

/-! ### Texts inside double quotes -/

/-- Whether `c`, followed by `next`, is special inside double quotes: it closes them,
begins a substitution or an expansion, or escapes what follows it. -/
def isSpecial (c : Char) (next : Option Char) : Bool :=
  c = '"' || isSubstitution c next || isParameter c next || (c = '\\' && next.any isEscapable)

/-- The texts without a special character where a double quote follows them. -/
def isInert : Text → Bool
  | [] => true
  | c :: s => !isSpecial c (s ++ ['"']).head? && isInert s

lemma expand_double_plain {st : State} (hmode : st.mode = .double) {c : Char} {s : Text}
    (h : isSpecial c s.head? = false) : expand st (c :: s) = expand (st.put c) s := by
  simp only [isSpecial, Bool.or_eq_false_iff, decide_eq_false_iff_not] at h
  obtain ⟨⟨⟨hquote, hsub⟩, hparam⟩, hescape⟩ := h
  apply expand_cons_of_step
  · simp [expands, hmode, hparam]
  · simp [step, hmode, hquote, hsub, hescape]

/-- A special character inside double quotes keeps something of the text back. -/
lemma length_expand_double {st : State} (hmode : st.mode = .double) {c : Char} {s : Text}
    (h : isSpecial c (s ++ ['"']).head? = true) {ws : List Text}
    (hws : expand st (c :: (s ++ ['"'])) = .words ws) :
    ws.flatten.length ≤ st.held + s.length := by
  obtain ⟨hexp, st', hstep, hws'⟩ := expand_cons_eq_words hws
  have hsize : st'.size = st.held := by
    simp only [expands, hmode] at hexp
    simp only [step, hmode] at hstep
    generalize (s ++ ['"']).head? = next at h hexp hstep
    split_ifs at hstep with hquote hsub hescape <;> obtain rfl := Option.some.inj hstep
    · rfl
    · rfl
    · rw [Bool.not_eq_true] at hsub hescape
      rw [isSpecial, hsub, hexp, hescape, decide_eq_false hquote] at h
      cases h
  rw [← hsize]
  exact length_expand_quote hws'

/-- The rest of a line that began a double quote is the rest of that word exactly when
it is inert. -/
lemma expand_double_iff {words : List Text} {word text : Text} :
    expand ⟨.double, words, some word⟩ (text ++ ['"']) = .words (words ++ [word ++ text]) ↔
      isInert text := by
  induction text generalizing word with
  | nil =>
      simp [expand, expands, step, isParameter, State.quote, isInert, finish, State.flush]
  | cons c s ih =>
      rw [List.cons_append, isInert]
      cases hspecial : isSpecial c (s ++ ['"']).head? with
      | false =>
          rw [expand_double_plain rfl hspecial]
          simpa [State.put] using @ih (word ++ [c])
      | true =>
          simp only [Bool.not_true, Bool.false_and, Bool.false_eq_true, iff_false]
          intro h
          have hlength := length_expand_double rfl hspecial h
          simp [State.held] at hlength
          omega

/-- The characters that are no special ones outside quotes. -/
def isPlain (c : Char) : Bool :=
  !(isBlank c || isOperator c ||
    ['\'', '"', '\\', '#', '$', '`', '*', '?', '[', '~'].contains c)

lemma expand_plain {st : State} (hmode : st.mode = .unquoted) {c : Char} (h : isPlain c = true)
    (s : Text) : expand st (c :: s) = expand (st.put c) s := by
  simp only [isPlain, Bool.not_eq_true', Bool.or_eq_false_iff, List.contains_eq_mem,
    decide_eq_false_iff_not, List.mem_cons, List.not_mem_nil, or_false, not_or] at h
  obtain ⟨⟨hblank, hoperator⟩, hsingle, hdouble, hbackslash, hhash, hdollar, hbackquote, hstar,
    hquestion, hbracket, htilde⟩ := h
  apply expand_cons_of_step
  · simp [expands, hmode, isParameter, hdollar, hstar, hquestion, hbracket, htilde]
  · simp [step, hmode, hblank, hoperator, isSubstitution, hbackquote, hdollar, hsingle, hdouble,
      hbackslash, hhash]

lemma expand_plains {command : Text} (h : ∀ c ∈ command, isPlain c = true) {words : List Text}
    {word : Text} (s : Text) :
    expand ⟨.unquoted, words, some word⟩ (command ++ s) =
      expand ⟨.unquoted, words, some (word ++ command)⟩ s := by
  induction command generalizing word with
  | nil => simp
  | cons c command ih =>
      rw [List.cons_append, expand_plain rfl (h c List.mem_cons_self)]
      simpa [State.put] using
        @ih (fun c' hc' => h c' (List.mem_cons_of_mem _ hc')) (word ++ [c])

/-- **A text inside double quotes is the argument of a command exactly when it is
inert.** -/
theorem expand_quoted_iff {command text : Text} (hne : command ≠ [])
    (h : ∀ c ∈ command, isPlain c = true) :
    expand {} (command ++ ' ' :: '"' :: (text ++ ['"'])) = .words [command, text] ↔
      isInert text := by
  obtain ⟨c, command, rfl⟩ := List.exists_cons_of_ne_nil hne
  have hcommand : expand {} (c :: command ++ ' ' :: '"' :: (text ++ ['"'])) =
      expand ⟨.double, [c :: command], some []⟩ (text ++ ['"']) := by
    rw [List.cons_append, expand_plain rfl (h c List.mem_cons_self)]
    calc expand ⟨.unquoted, [], some [c]⟩ (command ++ ' ' :: '"' :: (text ++ ['"']))
        = expand ⟨.unquoted, [], some ([c] ++ command)⟩ (' ' :: '"' :: (text ++ ['"'])) :=
          expand_plains (fun c' hc' => h c' (List.mem_cons_of_mem _ hc')) _
      _ = expand ⟨.double, [c :: command], some []⟩ (text ++ ['"']) := rfl
  rw [hcommand]
  exact expand_double_iff

end Shell
