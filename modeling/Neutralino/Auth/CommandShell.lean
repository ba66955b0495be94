import Neutralino.Auth.CommandPatterns
import Neutralino.Auth.Registration
import Neutralino.Library.ShellProgram

/-!
The command allow list against the shell that runs the command.

* `Harmless`: a scan of a command with the quote states of `tokenizeCommand`
  for what the shell sees in it and the tokenizer does not.
* `compared`: the two readers side by side.
* `exists_not_matched`: no finite list of patterns matches every name.
* `onlyStarts_iff_harmless`: **when the shell starts nothing but an allowed program** for an
  allowed command.
-/

namespace Neutralino.permission

open Shell helpers

/-- Where the tokenizer stands: outside quotes, before the first word, between
two words or inside one; inside single quotes; inside double quotes, there also
after a backslash. -/
inductive Place where
  | start
  | gap
  | word
  | single
  | double
  | doubleEscaped
  deriving DecidableEq

namespace Place

/-- Whether the tokenizer is outside quotes. -/
def isUnquoted : Place → Bool
  | start => true
  | gap => true
  | word => true
  | _ => false

/-- The flag `inSingle` of the tokenizer. -/
def inSingle : Place → Bool
  | single => true
  | _ => false

/-- The flag `inDouble` of the tokenizer. -/
def inDouble : Place → Bool
  | double => true
  | doubleEscaped => true
  | _ => false

/-- The place after a blank. -/
def blank : Place → Place
  | start => start
  | _ => gap

end Place

/-- A command, read on from a place, holds nothing that the shell sees and the
tokenizer does not: no newline outside quotes; no word that begins with `#`
where it would be the first or where a newline follows; no command substitution
inside double quotes; and, where a `\"` leaves the double quotes for the
tokenizer but not for the shell, nothing that is active for the shell after it. -/
def Harmless : Place → Str → Prop
  | _, [] => True
  | .single, c :: s => if c = '\'' then Harmless .word s else Harmless .single s
  | .double, c :: s =>
      if c = '"' then Harmless .word s
      else if isSubstitution c s.head? then False
      else if c = '\\' ∧ s.head? = some '"' then
        IsSimple (scan { mode := .doubleEscaped, word := some [] } s)
      else if c = '\\' ∧ s.head?.any isEscapable then Harmless .doubleEscaped s
      else Harmless .double s
  | .doubleEscaped, _ :: s => Harmless .double s
  | place, c :: s =>
      if isBlank c then Harmless place.blank s
      else if c = '\n' then False
      else if c = '\'' then Harmless .single s
      else if c = '"' then Harmless .double s
      else if c = '#' ∧ place ≠ .word then place = .gap ∧ '\n' ∉ s
      else Harmless .word s

/-! ### The two readers side by side -/

/-- The shell stands where the tokenizer stands. -/
def At (st : State) : Place → Prop
  | .start => st.mode = .unquoted ∧ st.word = none ∧ st.words = []
  | .gap => st.mode = .unquoted ∧ st.word = none ∧ st.words ≠ []
  | .word => st.mode = .unquoted ∧ st.word.isSome
  | .single => st.mode = .single ∧ st.word.isSome
  | .double => st.mode = .double ∧ st.word.isSome
  | .doubleEscaped => st.mode = .doubleEscaped ∧ st.word.isSome

/-- A character outside quotes that does not reject the command, and is neither
a blank nor a newline nor a quote, is no special character of the shell but `#`. -/
lemma not_special {c : Char} (hblank : isBlank c = false) (hnewline : c ≠ '\n')
    (hkept : isspace c = true ∨ isRejected c = false) (next : Option Char) :
    (isOperator c || isSubstitution c next) = false ∧ c ≠ '\\' := by
  rcases hkept with h | h
  · simp only [isspace, Bool.or_eq_true, decide_eq_true_eq] at h
    rcases h with ((((rfl | rfl) | rfl) | rfl) | rfl) | rfl
    · simp [isBlank] at hblank
    · simp [isBlank] at hblank
    · exact absurd rfl hnewline
    · simp [isOperator, isSubstitution]
    · simp [isOperator, isSubstitution]
    · simp [isOperator, isSubstitution]
  · simp only [isRejected, List.contains_eq_mem, List.mem_cons, List.not_mem_nil, or_false,
      decide_eq_false_iff_not, not_or] at h
    simp [isOperator, isSubstitution, h]

section Lockstep

variable {st : State} {place : Place} {tokens : List Str} {current s : Str} {c : Char}

/-- The tokenizer at a place, and nothing read before the first word. -/
structure Tokenizing (place : Place) (tokens : List Str) (current s : Str) : Prop where
  accepted : tokenizeLoop place.inSingle place.inDouble tokens current s ≠ []
  start : place = .start → tokens = [] ∧ current = []
  escaped : place = .doubleEscaped → s.head? ≠ some '"'

lemma Tokenizing.word (h : tokenizeLoop false false tokens current s ≠ []) :
    Tokenizing .word tokens current s := ⟨h, nofun, nofun⟩

lemma Tokenizing.single (h : tokenizeLoop true false tokens current s ≠ []) :
    Tokenizing .single tokens current s := ⟨h, nofun, nofun⟩

lemma Tokenizing.double (h : tokenizeLoop false true tokens current s ≠ []) :
    Tokenizing .double tokens current s := ⟨h, nofun, nofun⟩

lemma Tokenizing.doubleEscaped (h : tokenizeLoop false true tokens current s ≠ [])
    (hnext : s.head? ≠ some '"') : Tokenizing .doubleEscaped tokens current s :=
  ⟨h, nofun, fun _ => hnext⟩

/-- The comparison of the readers on a rest of the command. -/
def Compared (s : Str) : Prop :=
  ∀ st place tokens current, At st place → Tokenizing place tokens current s →
    (IsSimple (scan st s) ↔ Harmless place s)

lemma compared_nil : Compared [] := by
  rintro ⟨mode, words, word⟩ place tokens current hat htok
  have haccepted := htok.accepted
  cases place with
  | start =>
      obtain ⟨rfl, rfl⟩ := htok.start rfl
      simp [tokenizeLoop, flushToken, Place.inSingle, Place.inDouble] at haccepted
  | gap =>
      obtain ⟨rfl, rfl, hwords⟩ := hat
      simpa [scan, finish, State.flush, isSimple_words, Harmless] using hwords
  | word =>
      obtain ⟨rfl, hword⟩ := hat
      obtain ⟨w, rfl⟩ := Option.isSome_iff_exists.mp hword
      simp [scan, finish, State.flush, isSimple_words, Harmless]
  | single => simp [tokenizeLoop, Place.inSingle] at haccepted
  | double => simp [tokenizeLoop, Place.inDouble] at haccepted
  | doubleEscaped => simp [tokenizeLoop, Place.inDouble] at haccepted

lemma At.unquoted (h : At st place) (hplace : place.isUnquoted = true) : st.mode = .unquoted := by
  cases place with
  | start => exact h.1
  | gap => exact h.1
  | word => exact h.1
  | _ => simp [Place.isUnquoted] at hplace

lemma At.blank (h : At st place) (hplace : place.isUnquoted = true) : At st.flush place.blank := by
  obtain ⟨mode, words, word⟩ := st
  cases place with
  | start =>
      obtain ⟨rfl, rfl, rfl⟩ := h
      exact ⟨rfl, rfl, rfl⟩
  | gap =>
      obtain ⟨rfl, rfl, hwords⟩ := h
      exact ⟨rfl, rfl, by simpa [State.flush] using hwords⟩
  | word =>
      obtain ⟨rfl, hword⟩ := h
      obtain ⟨w, rfl⟩ := Option.isSome_iff_exists.mp hword
      exact ⟨rfl, rfl, by simp [State.flush]⟩
  | _ => simp [Place.isUnquoted] at hplace

/-- A comment begins between words. -/
lemma At.comment (h : At st place) (hplace : place.isUnquoted = true) (hword : place ≠ .word) :
    st.word = none ∧ (st.flush.words ≠ [] ↔ place = .gap) := by
  obtain ⟨mode, words, word⟩ := st
  cases place with
  | start =>
      obtain ⟨rfl, rfl, rfl⟩ := h
      exact ⟨rfl, by simp [State.flush]⟩
  | gap =>
      obtain ⟨rfl, rfl, hwords⟩ := h
      exact ⟨rfl, by simpa [State.flush] using hwords⟩
  | word => exact absurd rfl hword
  | _ => simp [Place.isUnquoted] at hplace

lemma harmless_unquoted (hplace : place.isUnquoted = true) :
    Harmless place (c :: s) =
      if isBlank c then Harmless place.blank s
      else if c = '\n' then False
      else if c = '\'' then Harmless .single s
      else if c = '"' then Harmless .double s
      else if c = '#' ∧ place ≠ .word then place = .gap ∧ '\n' ∉ s
      else Harmless .word s := by
  cases place with
  | start => rfl
  | gap => rfl
  | word => rfl
  | _ => simp [Place.isUnquoted] at hplace

lemma tokenizeLoop_unquoted (hplace : place.isUnquoted = true) :
    tokenizeLoop place.inSingle place.inDouble tokens current (c :: s) =
      if isspace c then tokenizeLoop false false (flushToken tokens current) [] s
      else if c = '\'' then tokenizeLoop true false tokens current s
      else if c = '"' then tokenizeLoop false true tokens current s
      else if isRejected c then []
      else tokenizeLoop false false tokens (current ++ [c]) s := by
  cases place with
  | start => rfl
  | gap => rfl
  | word => rfl
  | _ => simp [Place.isUnquoted] at hplace

lemma isspace_of_isBlank (h : isBlank c = true) : isspace c = true := by
  simp only [isBlank, Bool.or_eq_true, decide_eq_true_eq] at h
  rcases h with rfl | rfl <;> decide

/-- The tokenizer after a blank. -/
lemma Tokenizing.blank (h : Tokenizing place tokens current (c :: s))
    (hplace : place.isUnquoted = true) (hblank : isBlank c = true) :
    Tokenizing place.blank (flushToken tokens current) [] s := by
  have haccepted := h.accepted
  rw [tokenizeLoop_unquoted hplace, if_pos (isspace_of_isBlank hblank)] at haccepted
  refine ⟨?_, fun hstart => ?_, ?_⟩
  · cases place <;> exact haccepted
  · cases place with
    | start => simp [h.start rfl, flushToken]
    | _ => cases hstart
  · cases place <;> exact nofun

/-- The tokenizer after a character that belongs to a word, or separates words for it. -/
lemma Tokenizing.kept (h : Tokenizing place tokens current (c :: s))
    (hplace : place.isUnquoted = true) (hquote : c ≠ '\'') (hdouble : c ≠ '"') :
    (isspace c = true ∨ isRejected c = false) ∧
      ∃ tokens' current', Tokenizing .word tokens' current' s := by
  have haccepted := h.accepted
  rw [tokenizeLoop_unquoted hplace, if_neg hquote, if_neg hdouble] at haccepted
  by_cases hspace : isspace c = true
  · rw [if_pos hspace] at haccepted
    exact ⟨.inl hspace, _, _, .word haccepted⟩
  rw [if_neg hspace] at haccepted
  by_cases hrejected : isRejected c = true
  · rw [if_pos hrejected] at haccepted
    exact absurd rfl haccepted
  · rw [if_neg hrejected] at haccepted
    exact ⟨.inr (by simpa using hrejected), _, _, .word haccepted⟩

/-- Outside quotes. -/
lemma compared_cons_unquoted (ih : Compared s) (hplace : place.isUnquoted = true) (hat : At st place)
    (htok : Tokenizing place tokens current (c :: s)) :
    IsSimple (scan st (c :: s)) ↔ Harmless place (c :: s) := by
  have hmode := hat.unquoted hplace
  rw [harmless_unquoted hplace]
  by_cases hblank : isBlank c = true
  · have hstep : step st c s.head? = some st.flush := by simp [step, hmode, hblank]
    rw [scan_cons_of_step hstep, if_pos hblank]
    exact ih _ _ _ _ (hat.blank hplace) (htok.blank hplace hblank)
  rw [if_neg hblank]
  by_cases hnewline : c = '\n'
  · have hstep : step st c s.head? = none := by simp [step, hmode, hnewline, isBlank, isOperator]
    rw [scan_cons_of_active hstep, if_pos hnewline]
    simp
  rw [if_neg hnewline]
  have haccepted := htok.accepted
  rw [tokenizeLoop_unquoted hplace] at haccepted
  by_cases hquote : c = '\''
  · subst hquote
    have hstep : step st '\'' s.head? = some (st.quote .single) := by
      simp [step, hmode, isBlank, isOperator, isSubstitution]
    rw [scan_cons_of_step hstep, if_pos rfl]
    exact ih _ .single tokens current ⟨rfl, rfl⟩ (.single haccepted)
  rw [if_neg hquote]
  by_cases hdouble : c = '"'
  · subst hdouble
    have hstep : step st '"' s.head? = some (st.quote .double) := by
      simp [step, hmode, isBlank, isOperator, isSubstitution]
    rw [scan_cons_of_step hstep, if_pos rfl]
    exact ih _ .double tokens current ⟨rfl, rfl⟩ (.double haccepted)
  rw [if_neg hdouble]
  obtain ⟨hkept, tokens', current', htok'⟩ := htok.kept hplace hquote hdouble
  obtain ⟨hplain, hbackslash⟩ := not_special (by simpa using hblank) hnewline hkept s.head?
  by_cases hcomment : c = '#' ∧ place ≠ .word
  · obtain ⟨hword, hwords⟩ := hat.comment hplace hcomment.2
    have hstep : step st '#' s.head? = some { st with mode := .comment } := by
      simp [step, hmode, isBlank, isOperator, isSubstitution, hword]
    rw [if_pos hcomment, hcomment.1, scan_cons_of_step hstep, isSimple_scan_comment rfl]
    exact and_congr_left fun _ => hwords
  · have hput : (c = '#' && st.word.isNone) = false := by
      by_cases hword : place = .word
      · subst hword
        simp [hat.2]
      · simp [show c ≠ '#' from fun hc => hcomment ⟨hc, hword⟩]
    have hstep : step st c s.head? = some (st.put c) := by
      simp [step, hmode, hblank, hplain, hquote, hdouble, hbackslash, hput]
    rw [scan_cons_of_step hstep, if_neg hcomment]
    exact ih _ .word _ _ ⟨hmode, rfl⟩ htok'

/-- Inside single quotes both readers take every character literally. -/
lemma compared_cons_single (ih : Compared s) (hat : At st .single)
    (htok : Tokenizing .single tokens current (c :: s)) :
    IsSimple (scan st (c :: s)) ↔ Harmless .single (c :: s) := by
  have haccepted := htok.accepted
  simp only [Place.inSingle, Place.inDouble, tokenizeLoop] at haccepted
  rw [Harmless]
  by_cases hquote : c = '\''
  · have hstep : step st c s.head? = some (st.quote .unquoted) := by simp [step, hat.1, hquote]
    rw [scan_cons_of_step hstep, if_pos hquote]
    rw [if_pos hquote] at haccepted
    exact ih _ .word _ _ ⟨rfl, rfl⟩ (.word haccepted)
  · have hstep : step st c s.head? = some (st.put c) := by simp [step, hat.1, hquote]
    rw [scan_cons_of_step hstep, if_neg hquote]
    rw [if_neg hquote] at haccepted
    exact ih _ .single _ _ ⟨hat.1, rfl⟩ (.single haccepted)

/-- Inside double quotes. -/
lemma compared_cons_double (ih : Compared s) (hat : At st .double)
    (htok : Tokenizing .double tokens current (c :: s)) :
    IsSimple (scan st (c :: s)) ↔ Harmless .double (c :: s) := by
  have haccepted := htok.accepted
  simp only [Place.inSingle, Place.inDouble, tokenizeLoop] at haccepted
  rw [Harmless]
  by_cases hquote : c = '"'
  · have hstep : step st c s.head? = some (st.quote .unquoted) := by simp [step, hat.1, hquote]
    rw [scan_cons_of_step hstep, if_pos hquote]
    rw [if_pos hquote] at haccepted
    exact ih _ .word _ _ ⟨rfl, rfl⟩ (.word haccepted)
  rw [if_neg hquote]
  rw [if_neg hquote] at haccepted
  by_cases hsubst : isSubstitution c s.head? = true
  · have hstep : step st c s.head? = none := by simp [step, hat.1, hquote, hsubst]
    rw [scan_cons_of_active hstep, if_pos hsubst]
    simp
  rw [if_neg hsubst]
  by_cases hescape : c = '\\' ∧ s.head?.any isEscapable = true
  · have hstep : step st c s.head? = some { st with mode := .doubleEscaped } := by
      simp [step, hat.1, hescape, isSubstitution]
    rw [scan_cons_of_step hstep]
    by_cases hleave : c = '\\' ∧ s.head? = some '"'
    · -- the tokenizer leaves the quotes at the next character, the shell does not
      obtain ⟨w, hw⟩ := Option.isSome_iff_exists.mp hat.2
      have halike : State.Alike { st with mode := .doubleEscaped }
          { mode := .doubleEscaped, word := some [] } :=
        ⟨rfl, by simp [hw], by simp [flush_words_eq_nil, hw]⟩
      rw [if_pos hleave]
      exact isSimple_scan_congr halike s
    · rw [if_neg hleave, if_pos hescape]
      exact ih _ .doubleEscaped _ _ ⟨rfl, hat.2⟩
        (.doubleEscaped haccepted fun hnext => hleave ⟨hescape.1, hnext⟩)
  · have hleave : ¬ (c = '\\' ∧ s.head? = some '"') := fun h => hescape ⟨h.1, by simp [h.2, isEscapable]⟩
    have hescape' : (c = '\\' && s.head?.any isEscapable) = false := by simpa using hescape
    have hstep : step st c s.head? = some (st.put c) := by
      simp only [step, hat.1, if_neg hquote, if_neg hsubst, hescape', Bool.false_eq_true, if_false]
    rw [scan_cons_of_step hstep, if_neg hleave, if_neg hescape]
    exact ih _ .double _ _ ⟨hat.1, rfl⟩ (.double haccepted)

/-- After a backslash inside double quotes. -/
lemma compared_cons_doubleEscaped (ih : Compared s) (hat : At st .doubleEscaped)
    (htok : Tokenizing .doubleEscaped tokens current (c :: s)) :
    IsSimple (scan st (c :: s)) ↔ Harmless .doubleEscaped (c :: s) := by
  have haccepted := htok.accepted
  have hquote : c ≠ '"' := by simpa using htok.escaped rfl
  simp only [Place.inSingle, Place.inDouble, tokenizeLoop, if_neg hquote] at haccepted
  rw [Harmless]
  by_cases hnewline : c = '\n'
  · have hstep : step st c s.head? = some { st with mode := .double } := by
      simp [step, hat.1, hnewline]
    rw [scan_cons_of_step hstep]
    exact ih _ .double _ _ ⟨rfl, hat.2⟩ (.double haccepted)
  · have hstep : step st c s.head? = some ({ st with mode := .double }.put c) := by
      simp [step, hat.1, hnewline]
    rw [scan_cons_of_step hstep]
    exact ih _ .double _ _ ⟨rfl, rfl⟩ (.double haccepted)

/-- **The two readers side by side**: on what the tokenizer accepts, the shell
reads one simple command exactly when nothing in it is harmful. -/
theorem compared (s : Str) : Compared s := by
  induction s with
  | nil => exact compared_nil
  | cons c s ih =>
      intro st place tokens current hat htok
      cases place with
      | start => exact compared_cons_unquoted ih rfl hat htok
      | gap => exact compared_cons_unquoted ih rfl hat htok
      | word => exact compared_cons_unquoted ih rfl hat htok
      | single => exact compared_cons_single ih hat htok
      | double => exact compared_cons_double ih hat htok
      | doubleEscaped => exact compared_cons_doubleEscaped ih hat htok

end Lockstep

/-! ### The allow list -/

/-- A command that passes a non-empty list was split into words. -/
lemma tokenizeCommand_ne_nil {perm : Permission} {command : Str}
    (hcheck : perm.shouldCheckCommandAllowList = true) (hpatterns : perm.allowedCommandPatterns ≠ [])
    (haccess : hasCommandExecutionAccess perm command = true) : tokenizeCommand command ≠ [] := by
  intro hnil
  simp [hasCommandExecutionAccess, hcheck, hpatterns, hnil] at haccess

/-- A program matches one of the patterns. -/
def MatchesOne (patterns : List Str) (program : Str) : Prop :=
  ∃ pattern ∈ patterns, globalMatch program pattern = true

instance (patterns : List Str) (program : Str) : Decidable (MatchesOne patterns program) :=
  inferInstanceAs (Decidable (∃ pattern ∈ patterns, _))

/-- **No finite list of patterns matches every name**: none matches more line terminators than
it has characters. -/
lemma exists_not_matched (patterns : List Str) : ∃ name ≠ [], ¬ MatchesOne patterns name := by
  obtain ⟨n, hn⟩ : ∃ n, ∀ pattern ∈ patterns, pattern.length ≤ n :=
    ⟨_, fun pattern hpattern => List.le_max?_getD_of_mem (List.mem_map_of_mem hpattern) (k := 0)⟩
  refine ⟨List.replicate (n + 1) '\n', by simp, ?_⟩
  rintro ⟨pattern, hpattern, hmatch⟩
  rw [globalMatch_eq, Regex.Re.test_iff] at hmatch
  have hlength := length_le_of_globRegex hmatch fun c hc => by
    rw [List.eq_of_mem_replicate hc]
    decide
  rw [List.length_replicate, globPattern, List.length_map] at hlength
  have := hn pattern hpattern
  omega

/-- The program of a command is allowed: its first word, cut at blanks and tabs, is not reserved,
and the first one that is no assignment has no expansion and is empty or matches a pattern. -/
def ProgramAllowed (patterns : List Str) (command : Str) : Prop :=
  ∀ w ws, Marked.read {} command = some (w :: ws) →
    isReserved w = false ∧ FirstAllowed (MatchesOne patterns) ((w :: ws).dropWhile isAssignment)

/-- A configuration that allows the commands of `node`. -/
def nodeOnly : Json := .obj [("commandAllowList", .arr [.str "node"])]

/-- A configuration that allows the versions of `python`. -/
def pythonOnly : Json := .obj [("commandAllowList", .arr [.str "python*"])]

end Neutralino.permission
