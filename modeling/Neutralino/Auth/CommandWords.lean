import Neutralino.Base.Helpers
import Neutralino.Library.Words

/-!
The words of a command against simple quote rules.

* `commandWords`, `Specified`: the words that a command is to have: none where a
  quote is left open or a metacharacter stands outside quotes.
* `tokenizeLoop_reads`, `tokenizeLoop_leavesOpen`: what the scanner returns of a
  text that has a reading, and of one that leaves a quote open.
* `tokenizes_iff`: the commands that `tokenizeCommand` reads as specified.
-/

namespace Neutralino.helpers

open Words

/-- The characters that are to reject a command outside quotes. -/
def metacharacters : Str :=
  [';', '|', '&', '>', '<', '$', '`', '(', ')', '{', '}', '\\', '\n', '\r']

/-- A metacharacter outside quotes. -/
def isMeta : Mark → Bool
  | .bare c => metacharacters.contains c
  | .quoted _ => false

/-- The words of a reading, none where it has a metacharacter outside quotes. -/
def commandWords (marks : List Mark) : List Str :=
  if marks.any isMeta then [] else words isspace marks

/-- The words that a command is to have. -/
def Specified (command : Str) (tokens : List Str) : Prop :=
  LeavesOpen command ∧ tokens = [] ∨
    ∃ marks, Reads command marks ∧ tokens = commandWords marks

/-! ### The scanner -/

/-- A mark that makes the scanner give up. -/
def isStop : Mark → Bool
  | .bare c => !isspace c && isRejected c
  | .quoted _ => false

section Scanner

variable {inSingle inDouble : Bool} {tokens : List Str} {current text s : Str}
  {read marks : List Mark} {c quote : Char}

/-- The flags where text after a quote is read. -/
def InQuote (quote : Char) (inSingle inDouble : Bool) : Prop :=
  quote = '\'' ∧ inSingle = true ∧ inDouble = false ∨
    quote = '"' ∧ inSingle = false ∧ inDouble = true

lemma tokenizeLoop_quote (hquote : IsQuote quote) :
    ∃ inSingle inDouble, InQuote quote inSingle inDouble ∧
      tokenizeLoop false false tokens current (quote :: s) =
        tokenizeLoop inSingle inDouble tokens current s := by
  obtain rfl | rfl := hquote
  · exact ⟨true, false, .inl ⟨rfl, rfl, rfl⟩, by simp [tokenizeLoop, isspace]⟩
  · exact ⟨false, true, .inr ⟨rfl, rfl, rfl⟩, by simp [tokenizeLoop, isspace]⟩

/-- Text within quotes goes to the current word. -/
lemma tokenizeLoop_quoted (h : InQuote quote inSingle inDouble) (htext : quote ∉ text) :
    tokenizeLoop inSingle inDouble tokens current (text ++ s) =
      tokenizeLoop inSingle inDouble tokens (current ++ text) s := by
  induction text generalizing current with
  | nil => rw [List.nil_append, List.append_nil]
  | cons c text ih =>
      obtain ⟨hc, htext⟩ := not_or.mp (mt List.mem_cons.mpr htext)
      rw [List.append_cons current c text, ← ih htext]
      obtain ⟨rfl, rfl, rfl⟩ | ⟨rfl, rfl, rfl⟩ := h <;>
        rw [List.cons_append, tokenizeLoop, if_neg (Ne.symm hc)]

lemma tokenizeLoop_close (h : InQuote quote inSingle inDouble) :
    tokenizeLoop inSingle inDouble tokens current (quote :: s) =
      tokenizeLoop false false tokens current s := by
  obtain ⟨rfl, rfl, rfl⟩ | ⟨rfl, rfl, rfl⟩ := h <;> rw [tokenizeLoop, if_pos rfl]

lemma tokenizeLoop_unclosed (h : InQuote quote inSingle inDouble) :
    tokenizeLoop inSingle inDouble tokens current [] = [] := by
  obtain ⟨rfl, rfl, rfl⟩ | ⟨rfl, rfl, rfl⟩ := h <;> rfl

/-- A quoted piece is read as one. -/
lemma tokenizeLoop_piece (hquote : IsQuote quote) (htext : quote ∉ text) :
    tokenizeLoop false false tokens current (quote :: (text ++ quote :: s)) =
      tokenizeLoop false false tokens (current ++ text) s := by
  obtain ⟨inSingle, inDouble, h, hopen⟩ := tokenizeLoop_quote hquote
  calc tokenizeLoop false false tokens current (quote :: (text ++ quote :: s))
      = tokenizeLoop inSingle inDouble tokens current (text ++ quote :: s) := hopen
    _ = tokenizeLoop inSingle inDouble tokens (current ++ text) (quote :: s) :=
        tokenizeLoop_quoted h htext
    _ = tokenizeLoop false false tokens (current ++ text) s := tokenizeLoop_close h

/-- One character outside quotes. -/
lemma tokenizeLoop_bare (hc : ¬ IsQuote c) :
    tokenizeLoop false false tokens current (c :: s) =
      if isspace c then tokenizeLoop false false (flushToken tokens current) [] s
      else if isStop (.bare c) then []
      else tokenizeLoop false false tokens (current ++ [c]) s := by
  obtain ⟨hsingle, hdouble⟩ := not_or.mp hc
  rw [tokenizeLoop, if_neg hsingle, if_neg hdouble, isStop]
  cases isspace c <;> rfl

lemma flushToken_map :
    flushToken tokens (read.reverse.map Mark.letter) = tokens ++ wordOf read := by
  by_cases hread : read = []
  · rw [hread, wordOf, if_pos rfl, List.append_nil]
    rfl
  · rw [flushToken, if_neg (by simpa using hread), wordOf, if_neg hread]

/-- **What the scanner returns of a reading**: nothing where it gives up, else the words
that it has and those that follow. -/
theorem tokenizeLoop_reads (h : Reads s marks) (tokens : List Str) (read : List Mark) :
    tokenizeLoop false false tokens (read.reverse.map Mark.letter) s =
      if marks.any isStop then [] else tokens ++ wordsAfter isspace read marks := by
  induction h generalizing tokens read with
  | nil => rw [wordsAfter_nil, ← flushToken_map]; rfl
  | @bare c s marks hc _ ih =>
      rw [tokenizeLoop_bare hc, List.any_cons]
      by_cases hspace : isspace c = true
      · have hgap : isGap isspace (.bare c) = true := hspace
        have hgo : isStop (.bare c) = false := by simp [isStop, hspace]
        rw [if_pos hspace, hgo, Bool.false_or, wordsAfter_gap hgap, ← List.append_assoc,
          ← flushToken_map]
        exact ih _ []
      · have hgap : isGap isspace (.bare c) = false := by simpa [isGap] using hspace
        rw [if_neg hspace]
        cases hstop : isStop (.bare c) with
        | true => rfl
        | false =>
            have hread : read.reverse.map Mark.letter ++ [c] =
                (.bare c :: read).reverse.map Mark.letter := by simp [Mark.letter]
            rw [if_neg Bool.false_ne_true, hread, ih, Bool.false_or, wordsAfter_letter hgap]
  | @quoted quote text s marks hquote htext _ ih =>
      have hread : read.reverse.map Mark.letter ++ text =
          ((text.map Mark.quoted).reverse ++ read).reverse.map Mark.letter := by
        simp [Function.comp_def, Mark.letter]
      have hgo : (text.map Mark.quoted).any isStop = false := by simp [isStop]
      rw [tokenizeLoop_piece hquote htext, hread, ih, List.any_append, hgo, Bool.false_or,
        wordsAfter_quoted]

/-- An open quote leaves no word. -/
theorem tokenizeLoop_leavesOpen (h : LeavesOpen s) :
    tokenizeLoop false false tokens current s = [] := by
  obtain ⟨head, quote, text, marks, rfl, hhead, hquote, htext⟩ := h
  induction hhead generalizing tokens current with
  | nil =>
      obtain ⟨inSingle, inDouble, h, hopen⟩ := tokenizeLoop_quote hquote
      calc tokenizeLoop false false tokens current (quote :: text)
          = tokenizeLoop inSingle inDouble tokens current text := hopen
        _ = tokenizeLoop inSingle inDouble tokens current (text ++ []) := by
            rw [List.append_nil]
        _ = tokenizeLoop inSingle inDouble tokens (current ++ text) [] :=
            tokenizeLoop_quoted h htext
        _ = [] := tokenizeLoop_unclosed h
  | bare hc _ ih =>
      rw [List.cons_append, tokenizeLoop_bare hc, ih, ih]
      simp
  | quoted hquote' htext' _ ih =>
      rw [List.cons_append, List.append_assoc, List.cons_append, tokenizeLoop_piece hquote' htext',
        ih]

end Scanner

lemma tokenizeCommand_reads {command : Str} {marks : List Mark} (h : Reads command marks) :
    tokenizeCommand command = if marks.any isStop then [] else words isspace marks := by
  calc tokenizeCommand command
      = if marks.any isStop then [] else [] ++ wordsAfter isspace [] marks :=
        tokenizeLoop_reads h [] []
    _ = if marks.any isStop then [] else words isspace marks := by
        rw [List.nil_append, wordsAfter_nil_left]

/-! ### The commands that are read as specified -/

section Specified

variable {command : Str} {marks : List Mark}

/-- A metacharacter outside quotes that is not white space. -/
def HasMeta (marks : List Mark) : Prop :=
  ∃ c ∈ metacharacters, isspace c = false ∧ Mark.bare c ∈ marks

/-- A line break outside quotes. -/
def HasLineBreak (marks : List Mark) : Prop := .bare '\n' ∈ marks ∨ .bare '\r' ∈ marks

/-- A NUL outside quotes. -/
def HasNul (marks : List Mark) : Prop := .bare '\x00' ∈ marks

instance (marks : List Mark) : Decidable (HasMeta marks) :=
  inferInstanceAs (Decidable (∃ c ∈ metacharacters, isspace c = false ∧ _))

instance (marks : List Mark) : Decidable (HasLineBreak marks) :=
  inferInstanceAs (Decidable (_ ∨ _))

instance (marks : List Mark) : Decidable (HasNul marks) :=
  inferInstanceAs (Decidable (_ ∈ _))

/-- The readings whose words come out as specified: the scanner gives up at a
metacharacter that is not white space and at a NUL, and takes a line break for white
space. -/
def ReadAsSpecified (marks : List Mark) : Prop :=
  HasMeta marks ∨
    if HasLineBreak marks then HasNul marks ∨ ∀ mark ∈ marks, isGap isspace mark = true
    else ¬ HasNul marks

instance (marks : List Mark) : Decidable (ReadAsSpecified marks) :=
  inferInstanceAs (Decidable (_ ∨ _))

lemma any_isMeta_iff : marks.any isMeta = true ↔ HasMeta marks ∨ HasLineBreak marks := by
  rw [List.any_eq_true]
  constructor
  · rintro ⟨mark, hmem, hmeta⟩
    cases mark with
    | quoted c => cases hmeta
    | bare c =>
        have hc : c ∈ metacharacters := by simpa [isMeta] using hmeta
        cases hspace : isspace c with
        | false => exact .inl ⟨c, hc, hspace, hmem⟩
        | true =>
            have hbreak : ∀ c ∈ metacharacters, isspace c = true → c = '\n' ∨ c = '\r' :=
              forall_mem_of_all (by decide)
            obtain rfl | rfl := hbreak c hc hspace
            · exact .inr (.inl hmem)
            · exact .inr (.inr hmem)
  · rintro (⟨c, hc, -, hmem⟩ | hmem | hmem)
    · exact ⟨.bare c, hmem, by simpa [isMeta] using hc⟩
    · exact ⟨_, hmem, rfl⟩
    · exact ⟨_, hmem, rfl⟩

/-- `strchr` is given the metacharacters and finds their NUL too. -/
lemma isRejected_iff (c : Char) : isRejected c = true ↔ c ∈ metacharacters ∨ c = '\x00' := by
  simp only [isRejected, metacharacters, List.contains_eq_mem, decide_eq_true_eq, List.mem_cons,
    List.not_mem_nil, or_false, or_assoc]

lemma any_isStop_iff : marks.any isStop = true ↔ HasMeta marks ∨ HasNul marks := by
  rw [List.any_eq_true]
  constructor
  · rintro ⟨mark, hmem, hstop⟩
    cases mark with
    | quoted c => cases hstop
    | bare c =>
        obtain ⟨hspace, hrejected⟩ := Bool.and_eq_true_iff.mp hstop
        obtain hc | rfl := (isRejected_iff c).mp hrejected
        · exact .inl ⟨c, hc, by simpa using hspace, hmem⟩
        · exact .inr hmem
  · rintro (⟨c, hc, hspace, hmem⟩ | hmem)
    · exact ⟨.bare c, hmem, by simp [isStop, hspace, (isRejected_iff c).mpr (.inl hc)]⟩
    · exact ⟨_, hmem, rfl⟩

lemma HasNul.words_ne_nil (h : HasNul marks) : words isspace marks ≠ [] :=
  fun hwords => Bool.noConfusion (words_eq_nil_iff.mp hwords _ h : isspace '\x00' = true)

/-- The scanner against the words of a reading. -/
lemma scan_eq_commandWords_iff :
    (if marks.any isStop then [] else words isspace marks) = commandWords marks ↔
      ReadAsSpecified marks := by
  have hnul : HasNul marks → words isspace marks ≠ [] := HasNul.words_ne_nil
  simp only [commandWords, any_isStop_iff, any_isMeta_iff, ReadAsSpecified, ← words_eq_nil_iff]
  by_cases hmeta : HasMeta marks
  · simp [hmeta]
  by_cases hbreak : HasLineBreak marks <;> by_cases hzero : HasNul marks
  · simp [hmeta, hbreak, hzero]
  · simp [hmeta, hbreak, hzero]
  · simpa [hmeta, hbreak, hzero] using (hnul hzero).symm
  · simp [hmeta, hbreak, hzero]

lemma specified_iff_of_reads (h : Reads command marks) (tokens : List Str) :
    Specified command tokens ↔ tokens = commandWords marks := by
  constructor
  · rintro (⟨hopen, -⟩ | ⟨marks', h', rfl⟩)
    · exact absurd hopen h.not_leavesOpen
    · rw [h.unique h']
  · exact fun heq => .inr ⟨marks, h, heq⟩

/-- **The commands that are read as specified** are those where a quote is left open,
and those with a reading where a metacharacter other than a line break stands outside
quotes, or else where a NUL does so just if a line break does, or there is nothing but
white space with it. -/
theorem tokenizes_iff (command : Str) :
    Specified command (tokenizeCommand command) ↔
      ∀ marks, Reads command marks → ReadAsSpecified marks := by
  obtain hopen | ⟨marks, h⟩ := leavesOpen_or_reads command
  · exact iff_of_true (.inl ⟨hopen, tokenizeLoop_leavesOpen hopen⟩)
      fun marks h => absurd hopen h.not_leavesOpen
  · rw [specified_iff_of_reads h, tokenizeCommand_reads h, scan_eq_commandWords_iff]
    exact ⟨fun hread marks' h' => h.unique h' ▸ hread, fun hall => hall marks h⟩

end Specified

/-- A command of two lines is to be rejected, and is read as one of two words. -/
theorem line_break_splits_command :
    tokenizeCommand "node\nrm".toList = ["node".toList, "rm".toList] ∧
      ¬ Specified "node\nrm".toList (tokenizeCommand "node\nrm".toList) := by
  refine ⟨by decide, ?_⟩
  rw [specified_iff_of_reads (reads_map_bare (forall_mem_of_all (by decide)))]
  decide

end Neutralino.helpers
