import Mathlib.Data.List.Basic

/-!
Words under simple quote rules.

* `Mark`: a character of a text, bare or quoted.
* `Reads`: a text read from left to right, where single and double quotes each
  delimit quoted text; `LeavesOpen`: a text that ends within a quoted piece.
* `leavesOpen_or_reads`, `Reads.not_leavesOpen`, `Reads.unique`: a text leaves a
  quote open or else has one reading.
* `words`: the words of a reading, which are separated by bare white space.
* `wordsAfter`: the words where some of the first one has been read, and its
  equations.
-/

namespace Words

/-- A character, bare or quoted. -/
inductive Mark where
  | bare (c : Char)
  | quoted (c : Char)
  deriving DecidableEq

/-- The character of a mark. -/
def Mark.letter : Mark → Char
  | .bare c => c
  | .quoted c => c

/-- The two quotes. -/
def IsQuote (c : Char) : Prop := c = '\'' ∨ c = '"'

instance (c : Char) : Decidable (IsQuote c) := inferInstanceAs (Decidable (_ ∨ _))

/-- The reading of a text: what stands between two equal quotes is quoted, the
quotes are removed, and everything else is bare. -/
inductive Reads : List Char → List Mark → Prop
  | nil : Reads [] []
  | bare {c : Char} {s : List Char} {marks : List Mark} :
      ¬ IsQuote c → Reads s marks → Reads (c :: s) (.bare c :: marks)
  | quoted {quote : Char} {text s : List Char} {marks : List Mark} :
      IsQuote quote → quote ∉ text → Reads s marks →
      Reads (quote :: (text ++ quote :: s)) (text.map .quoted ++ marks)

/-- A quote is left open: it stands where a reading has come to its end, and does not
occur again. -/
def LeavesOpen (s : List Char) : Prop :=
  ∃ head quote text marks,
    s = head ++ quote :: text ∧ Reads head marks ∧ IsQuote quote ∧ quote ∉ text

/-! ### Readings -/

section Readings

variable {c quote : Char} {s text : List Char} {marks marks' : List Mark}

/-- What stands before the first occurrence of a character is determined. -/
lemma eq_of_append_cons_eq {a : Char} {text text' s s' : List Char} (h : a ∉ text) (h' : a ∉ text')
    (heq : text ++ a :: s = text' ++ a :: s') : text = text' ∧ s = s' := by
  have htake : ∀ {t u : List Char}, a ∉ t → (t ++ a :: u).takeWhile (· ≠ a) = t := by
    intro t u ht
    rw [List.takeWhile_append_of_pos fun b hb => by simpa using fun hba : b = a => ht (hba ▸ hb),
      List.takeWhile_cons_of_neg (by simp), List.append_nil]
  have htext : text = text' := by rw [← htake h (u := s), heq, htake h']
  subst htext
  exact ⟨rfl, (List.cons.inj (List.append_cancel_left heq)).2⟩

lemma reads_bare_iff (hc : ¬ IsQuote c) :
    Reads (c :: s) marks ↔ ∃ rest, marks = .bare c :: rest ∧ Reads s rest := by
  constructor
  · intro h
    cases h with
    | bare _ h => exact ⟨_, rfl, h⟩
    | quoted hquote _ _ => exact absurd hquote hc
  · rintro ⟨rest, rfl, h⟩
    exact .bare hc h

lemma reads_quoted_iff (hquote : IsQuote quote) (htext : quote ∉ text) :
    Reads (quote :: (text ++ quote :: s)) marks ↔
      ∃ rest, marks = text.map .quoted ++ rest ∧ Reads s rest := by
  constructor
  · intro h
    generalize hs : quote :: (text ++ quote :: s) = t at h
    cases h with
    | nil => cases hs
    | bare hc _ =>
        obtain ⟨rfl, -⟩ := List.cons.inj hs
        exact absurd hquote hc
    | quoted _ htext' h =>
        obtain ⟨rfl, hrest⟩ := List.cons.inj hs
        obtain ⟨rfl, rfl⟩ := eq_of_append_cons_eq htext htext' hrest
        exact ⟨_, rfl, h⟩
  · rintro ⟨rest, rfl, h⟩
    exact .quoted hquote htext h

/-- Without quotes everything is bare. -/
lemma reads_map_bare (h : ∀ c ∈ s, ¬ IsQuote c) : Reads s (s.map .bare) := by
  induction s with
  | nil => exact .nil
  | cons c s ih =>
      rw [List.forall_mem_cons] at h
      exact .bare h.1 (ih h.2)

/-- A quote that is not closed has no reading. -/
lemma not_reads_of_not_mem (hquote : IsQuote quote) (hs : quote ∉ s) :
    ¬ Reads (quote :: s) marks := by
  intro h
  cases h with
  | bare hc _ => exact hc hquote
  | quoted _ _ _ => simp at hs

/-- A text that goes on is read on. -/
theorem Reads.append_iff (h : Reads s marks) :
    Reads (s ++ text) marks' ↔ ∃ rest, marks' = marks ++ rest ∧ Reads text rest := by
  induction h generalizing marks' with
  | nil => simp
  | @bare c s marks hc _ ih =>
      rw [List.cons_append, reads_bare_iff hc]
      simp_rw [ih]
      constructor
      · rintro ⟨_, rfl, rest, rfl, hrest⟩
        exact ⟨rest, rfl, hrest⟩
      · rintro ⟨rest, rfl, hrest⟩
        exact ⟨marks ++ rest, rfl, rest, rfl, hrest⟩
  | @quoted quote text' s marks hquote htext _ ih =>
      rw [List.cons_append, List.append_assoc, List.cons_append, reads_quoted_iff hquote htext]
      simp_rw [ih]
      constructor
      · rintro ⟨_, rfl, rest, rfl, hrest⟩
        exact ⟨rest, (List.append_assoc ..).symm, hrest⟩
      · rintro ⟨rest, rfl, hrest⟩
        exact ⟨marks ++ rest, List.append_assoc .., rest, rfl, hrest⟩

/-- **A text has one reading** at most. -/
theorem Reads.unique (h : Reads s marks) (h' : Reads s marks') : marks = marks' := by
  rw [← List.append_nil s] at h'
  obtain ⟨rest, rfl, hrest⟩ := h.append_iff.mp h'
  cases hrest
  exact (List.append_nil marks).symm

/-- Where a quote is left open there is no reading. -/
theorem Reads.not_leavesOpen (h : Reads s marks) : ¬ LeavesOpen s := by
  rintro ⟨head, quote, text, marks', rfl, hhead, hquote, htext⟩
  obtain ⟨rest, -, hrest⟩ := hhead.append_iff.mp h
  exact not_reads_of_not_mem hquote htext hrest

lemma LeavesOpen.append (h : Reads s marks) (htext : LeavesOpen text) : LeavesOpen (s ++ text) := by
  obtain ⟨head, quote, tail, marks', rfl, hhead, hquote, htail⟩ := htext
  exact ⟨s ++ head, quote, tail, marks ++ marks', (List.append_assoc ..).symm,
    h.append_iff.mpr ⟨marks', rfl, hhead⟩, hquote, htail⟩

/-- **Every text has a reading** unless it leaves a quote open. -/
theorem leavesOpen_or_reads (s : List Char) : LeavesOpen s ∨ ∃ marks, Reads s marks := by
  -- a quoted piece may be of any length
  induction hlength : s.length using Nat.strongRecOn generalizing s with
  | ind length ih =>
      subst hlength
      cases s with
      | nil => exact .inr ⟨[], .nil⟩
      | cons c s =>
          by_cases hc : IsQuote c
          · by_cases hclosed : c ∈ s
            · obtain ⟨text, rest, rfl, htext⟩ := List.eq_append_cons_of_mem hclosed
              have hpiece : Reads (c :: (text ++ [c])) (text.map .quoted ++ []) :=
                .quoted hc htext .nil
              have heq : c :: (text ++ c :: rest) = c :: (text ++ [c]) ++ rest := by simp
              rw [heq]
              obtain hopen | ⟨marks, hrest⟩ := ih rest.length (by simp; omega) rest rfl
              · exact .inl (.append hpiece hopen)
              · exact .inr ⟨_, hpiece.append_iff.mpr ⟨marks, rfl, hrest⟩⟩
            · exact .inl ⟨[], c, s, [], rfl, .nil, hc, hclosed⟩
          · obtain hopen | ⟨marks, hrest⟩ := ih s.length (by simp) s rfl
            · exact .inl (.append (.bare hc .nil) hopen)
            · exact .inr ⟨_, .bare hc hrest⟩

end Readings

/-! ### Words -/

section Words

variable (space : Char → Bool)

/-- Bare white space. -/
def isGap : Mark → Bool
  | .bare c => space c
  | .quoted _ => false

/-- The words of a reading: the pieces between the gaps, without the empty ones. -/
def words (marks : List Mark) : List (List Char) :=
  ((marks.splitOnP (isGap space)).map (List.map Mark.letter)).filter (· ≠ [])

/-- The word that these marks spell, in reverse order, if it is one. -/
def wordOf (read : List Mark) : List (List Char) :=
  if read = [] then [] else [read.reverse.map Mark.letter]

/-- The words where the marks of the first one that were read are given in reverse
order. -/
def wordsAfter (read marks : List Mark) : List (List Char) :=
  (((marks.splitOnP (isGap space)).modifyHead (read.reverse ++ ·)).map
    (List.map Mark.letter)).filter (· ≠ [])

variable {space} {read marks : List Mark} {mark : Mark}

lemma wordsAfter_nil_left : wordsAfter space [] marks = words space marks := by
  rw [wordsAfter, words, List.reverse_nil, show ([] ++ · : List Mark → List Mark) = id from rfl,
    List.modifyHead_id, id]

lemma filter_wordOf (read : List Mark) (pieces : List (List Mark)) :
    ((read.reverse :: pieces).map (List.map Mark.letter)).filter (· ≠ []) =
      wordOf read ++ (pieces.map (List.map Mark.letter)).filter (· ≠ []) := by
  rw [List.map_cons, wordOf]
  by_cases hread : read = []
  · subst hread
    simp
  · rw [if_neg hread, List.filter_cons_of_pos (by simpa using hread), List.singleton_append]

lemma wordsAfter_nil : wordsAfter space read [] = wordOf read := by
  have h := filter_wordOf read []
  rw [List.map_nil, List.filter_nil, List.append_nil] at h
  rw [wordsAfter, List.splitOnP_nil, List.modifyHead_cons, List.append_nil, h]

/-- A gap ends a word. -/
lemma wordsAfter_gap (h : isGap space mark = true) :
    wordsAfter space read (mark :: marks) = wordOf read ++ wordsAfter space [] marks := by
  have hsplit : ((mark :: marks).splitOnP (isGap space)).modifyHead (read.reverse ++ ·) =
      read.reverse :: marks.splitOnP (isGap space) := by
    rw [List.splitOnP_cons_eq_if_modifyHead, if_pos h, List.modifyHead_cons, List.append_nil]
  calc wordsAfter space read (mark :: marks)
      = ((read.reverse :: marks.splitOnP (isGap space)).map
          (List.map Mark.letter)).filter (· ≠ []) := by rw [wordsAfter, hsplit]
    _ = wordOf read ++ words space marks := filter_wordOf read _
    _ = wordOf read ++ wordsAfter space [] marks := by rw [wordsAfter_nil_left]

/-- Another mark goes on with it. -/
lemma wordsAfter_letter (h : isGap space mark = false) :
    wordsAfter space read (mark :: marks) = wordsAfter space (mark :: read) marks := by
  have hcons : (read.reverse ++ ·) ∘ (List.cons mark) = ((mark :: read).reverse ++ ·) := by
    funext piece
    simp
  rw [wordsAfter, wordsAfter, List.splitOnP_cons_eq_if_modifyHead, if_neg (by simp [h]),
    List.modifyHead_modifyHead, hcons]

/-- So does quoted text. -/
lemma wordsAfter_quoted (text : List Char) :
    wordsAfter space read (text.map .quoted ++ marks) =
      wordsAfter space ((text.map Mark.quoted).reverse ++ read) marks := by
  induction text generalizing read with
  | nil => rfl
  | cons c text ih =>
      rw [List.map_cons, List.cons_append, wordsAfter_letter rfl, ih, List.reverse_cons,
        List.append_assoc, List.singleton_append]

/-- A word that was begun comes to an end. -/
lemma wordsAfter_ne_nil (hread : read ≠ []) : wordsAfter space read marks ≠ [] := by
  induction marks generalizing read with
  | nil => simp [wordsAfter_nil, wordOf, hread]
  | cons mark marks ih =>
      cases hgap : isGap space mark with
      | true => simp [wordsAfter_gap hgap, wordOf, hread]
      | false =>
          rw [wordsAfter_letter hgap]
          exact ih (by simp)

/-- There is no word where all marks are gaps. -/
lemma words_eq_nil_iff : words space marks = [] ↔ ∀ mark ∈ marks, isGap space mark = true := by
  induction marks with
  | nil => simp [← wordsAfter_nil_left, wordsAfter_nil, wordOf]
  | cons mark marks ih =>
      rw [← wordsAfter_nil_left, List.forall_mem_cons]
      cases hgap : isGap space mark with
      | true =>
          rw [wordsAfter_gap hgap, wordOf, if_pos rfl, List.nil_append, wordsAfter_nil_left, ih]
          exact (and_iff_right rfl).symm
      | false =>
          rw [wordsAfter_letter hgap]
          exact iff_of_false (wordsAfter_ne_nil (by simp)) fun h => Bool.noConfusion h.1

end Words

end Words
