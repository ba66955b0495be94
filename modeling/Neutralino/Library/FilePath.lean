import Neutralino.Library.Lexical

/-!
POSIX path texts and the parts of `std::filesystem` that depend on which
files exist.

* `Name`, `segments`: a path text is cut at its slashes into segments;
  `segments_joinSegs` reads a joined list of segments back.
* `countP_segments_le`, `countP_segments_deepPath`: how many segments a text has,
  by its characters.
* `locate`: the location a path text denotes lexically, from a working
  directory.
* `FileTree`: a symlink-free file system, every file inside a directory;
  `FileTree.leading` counts the leading segments of a path that exist.
* `weaklyCanonical`, `absolute`: `std::filesystem::weakly_canonical` and
  `std::filesystem::absolute` on such a tree.
-/

namespace FilePath

open Lexical

/-- A text, as the list of its characters. -/
abbrev Text := List Char

/-! ### Names and segments -/

/-- Whether a text can name a directory entry. -/
def isName (s : Text) : Bool :=
  !s.isEmpty && !s.contains '/' && s != ['.'] && s != ['.', '.']

/-- The name of a directory entry: not empty, without a slash, neither `.` nor `..`. -/
structure Name where
  text : Text
  ok : isName text = true
  deriving DecidableEq

/-- A place in the tree: the names from the root down. -/
abbrev Location := List Name

/-- The segment a piece between two slashes stands for; the empty piece stands for none. -/
def toSeg (s : Text) : Option (Seg Name) :=
  if s = ['.'] then some .dot
  else if s = ['.', '.'] then some .dotdot
  else if h : isName s = true then some (.name ⟨s, h⟩)
  else none

/-- The text of a segment. -/
def segText : Seg Name → Text
  | .dot => ['.']
  | .dotdot => ['.', '.']
  | .name n => n.text

/-- The segments of a path text. -/
def segments (s : Text) : List (Seg Name) := (s.splitOn '/').filterMap toSeg

/-- Segments joined by slashes. -/
def joinSegs (ss : List (Seg Name)) : Text := ['/'].intercalate (ss.map segText)

namespace Name

lemma text_ne_nil (n : Name) : n.text ≠ [] := by
  have := n.ok
  simp only [isName, Bool.and_eq_true] at this
  simpa using this.1.1.1

lemma slash_not_mem (n : Name) : '/' ∉ n.text := by
  have := n.ok
  simp only [isName, Bool.and_eq_true] at this
  simpa using this.1.1.2

lemma text_ne_dot (n : Name) : n.text ≠ ['.'] := by
  have := n.ok
  simp only [isName, Bool.and_eq_true] at this
  simpa using this.1.2

lemma text_ne_dotdot (n : Name) : n.text ≠ ['.', '.'] := by
  have := n.ok
  simp only [isName, Bool.and_eq_true] at this
  simpa using this.2

end Name

@[simp] lemma toSeg_segText (s : Seg Name) : toSeg (segText s) = some s := by
  cases s with
  | dot => rfl
  | dotdot => rfl
  | name n => simp [toSeg, segText, n.text_ne_dot, n.text_ne_dotdot, n.ok]

lemma slash_not_mem_segText (s : Seg Name) : '/' ∉ segText s := by
  cases s with
  | dot => decide
  | dotdot => decide
  | name n => exact n.slash_not_mem

@[simp] lemma segments_nil : segments [] = [] := rfl

@[simp] lemma segments_append_slash (a b : Text) :
    segments (a ++ '/' :: b) = segments a ++ segments b := by
  simp [segments, List.splitOn_append_cons_self]

@[simp] lemma segments_slash (b : Text) : segments ('/' :: b) = segments b :=
  segments_append_slash [] b

/-- Joined segments are read back. -/
@[simp] theorem segments_joinSegs (ss : List (Seg Name)) : segments (joinSegs ss) = ss := by
  cases ss with
  | nil => rfl
  | cons s ss =>
      rw [segments, joinSegs, List.splitOn_intercalate]
      · simp [List.filterMap_map]
      · simp only [List.mem_map]
        rintro _ ⟨t, -, rfl⟩
        exact slash_not_mem_segText t
      · simp

/-- Joined segments end in the last of them. -/
lemma joinSegs_concat (ss : List (Seg Name)) (s : Seg Name) :
    ∃ a, joinSegs (ss ++ [s]) = a ++ segText s := by
  induction ss with
  | nil => exact ⟨[], by simp [joinSegs]⟩
  | cons u ss ih =>
      obtain ⟨a, ha⟩ := ih
      refine ⟨segText u ++ ['/'] ++ a, ?_⟩
      rw [List.append_assoc, ← ha]
      cases ss with
      | nil => simp [joinSegs, List.intercalate_cons_cons]
      | cons v ss => simp [joinSegs, List.intercalate_cons_cons]

/-- The pieces of a text hold no slash. -/
lemma slash_not_mem_piece {s p : Text} (hp : p ∈ s.splitOn '/') : '/' ∉ p := by
  induction s generalizing p with
  | nil => simp_all
  | cons c s ih =>
      rw [List.splitOn_cons_eq_if_modifyHead] at hp
      by_cases hc : c = '/'
      · simp only [hc, beq_self_eq_true, if_true] at hp
        rcases List.mem_cons.mp hp with rfl | hp
        · simp
        · exact ih hp
      · obtain ⟨q, qs, hq⟩ := List.exists_cons_of_ne_nil (List.splitOn_ne_nil '/' s)
        simp only [beq_iff_eq, hc, if_false, hq, List.modifyHead_cons] at hp
        rcases List.mem_cons.mp hp with rfl | hp
        · have := ih (p := q) (by simp [hq])
          simp [this, Ne.symm hc]
        · exact ih (by simp [hq, hp])

/-- A text that starts with no slash has a segment. -/
lemma segments_ne_nil {s : Text} (hs : s ≠ []) (ha : s.head? ≠ some '/') : segments s ≠ [] := by
  obtain ⟨c, t, rfl⟩ := List.exists_cons_of_ne_nil hs
  obtain ⟨p, ps, hp⟩ := List.exists_cons_of_ne_nil (List.splitOn_ne_nil '/' t)
  have hc : (c == '/') = false := by simpa using ha
  have hsplit : (c :: t).splitOn '/' = (c :: p) :: ps := by
    rw [List.splitOn_cons_eq_if_modifyHead, hc, hp]
    rfl
  have hslash : '/' ∉ c :: p := slash_not_mem_piece (s := c :: t) (by simp [hsplit])
  -- the first piece is not empty and holds no slash, so it stands for a segment
  have hseg : (toSeg (c :: p)).isSome := by
    simp only [toSeg]
    split_ifs with h1 h2 h3
    · rfl
    · rfl
    · rfl
    · simp [isName] at h3 h1 h2 hslash
      tauto
  obtain ⟨u, hu⟩ := Option.isSome_iff_exists.mp hseg
  simp [segments, hsplit, hu]

/-! ### Counting segments -/

/-- The segments of one kind are at most as many as the characters that each of
them needs. -/
lemma countP_segments_le {f : Seg Name → Bool} {c : Char → Bool}
    (h : ∀ p s, toSeg p = some s → f s = true → 0 < p.countP c) (s : Text) :
    (segments s).countP f ≤ s.countP c := by
  have hpiece : ∀ p : Text, (toSeg p).toList.countP f ≤ p.countP c := by
    intro p
    cases hp : toSeg p with
    | none => simp
    | some s =>
        by_cases hf : f s = true
        · simpa [hf] using h p s hp hf
        · simp [hf]
  have key : ∀ ps : List Text, (ps.filterMap toSeg).countP f ≤ (['/'].intercalate ps).countP c := by
    intro ps
    induction ps with
    | nil => simp
    | cons p ps ih =>
        have hcons : ((p :: ps).filterMap toSeg).countP f ≤ p.countP c + (ps.filterMap toSeg).countP f := by
          have := hpiece p
          cases hp : toSeg p with
          | none => simp [hp]
          | some s =>
              rw [hp] at this
              rw [List.filterMap_cons_some hp, List.countP_cons]
              simp only [Option.toList_some, List.countP_singleton] at this
              omega
        cases ps with
        | nil => simpa using hcons
        | cons q ps =>
            rw [List.intercalate_cons_cons, List.countP_append, List.countP_append]
            omega
  have := key (s.splitOn '/')
  rwa [List.intercalate_splitOn] at this

lemma ups_segments_le (s : Text) : ups (segments s) ≤ s.count '.' := by
  refine countP_segments_le (fun p s hp hs => ?_) s
  cases s with
  | dotdot =>
      obtain rfl : p = ['.', '.'] := by
        rw [toSeg] at hp
        split_ifs at hp with h1 h2 <;> simp_all
      decide
  | dot => simp [Seg.isUp] at hs
  | name n => simp [Seg.isUp] at hs

@[simp] lemma segments_text (n : Name) : segments n.text = [.name n] := by
  simpa [joinSegs, segText] using segments_joinSegs [.name n]

/-- The path of `n` nested directories `z`. -/
def deepPath (z : Name) : ℕ → Text
  | 0 => []
  | n + 1 => deepPath z n ++ '/' :: z.text

lemma mem_deepPath {z : Name} {c : Char} {n : ℕ} (hc : c ∈ deepPath z n) : c = '/' ∨ c ∈ z.text := by
  induction n with
  | zero => cases hc
  | succ n ih =>
      rcases List.mem_append.mp hc with hc | hc
      · exact ih hc
      · exact List.mem_cons.mp hc

/-- Inside a path text, nested directories count as that many segments. -/
lemma countP_segments_deepPath {z : Name} {f : Seg Name → Bool} (hz : f (.name z) = true) (a b : Text)
    (n : ℕ) :
    (segments (a ++ deepPath z n ++ '/' :: b)).countP f =
      (segments a).countP f + n + (segments b).countP f := by
  induction n generalizing b with
  | zero => simp [deepPath]
  | succ n ih =>
      have := ih (z.text ++ '/' :: b)
      simp only [deepPath, List.append_assoc, List.cons_append] at this ⊢
      rw [this, segments_append_slash, segments_text, List.singleton_append, List.countP_cons, hz,
        if_pos rfl]
      omega

/-! ### Locations -/

/-- Whether a path text starts at the root. -/
def isAbsolute (s : Text) : Bool := s.head? == some '/'

/-- The path text of a location. -/
def absText (l : Location) : Text := '/' :: joinSegs (l.map .name)

/-- Where a path text starts: the root or the working directory. -/
def startOf (cwd : Location) (s : Text) : Location := if isAbsolute s then [] else cwd

/-- The location a path text denotes lexically, from the working directory `cwd`. -/
def locate (cwd : Location) (s : Text) : Location := walk (startOf cwd s) (segments s)

@[simp] lemma isAbsolute_absText (l : Location) : isAbsolute (absText l) = true := rfl

@[simp] lemma segments_absText (l : Location) : segments (absText l) = l.map .name := by
  simp [absText]

@[simp] lemma locate_absText (cwd l : Location) : locate cwd (absText l) = l := by
  simp [locate, startOf]

/-- A text that continues `a` after a slash denotes what its rest leads to from there. -/
lemma locate_append_slash (cwd : Location) {a : Text} (ha : a ≠ []) (b : Text) :
    locate cwd (a ++ '/' :: b) = walk (locate cwd a) (segments b) := by
  obtain ⟨c, a, rfl⟩ := List.exists_cons_of_ne_nil ha
  rw [locate, locate, segments_append_slash, walk_append]
  rfl

/-- A final slash names no segment. -/
lemma segments_append_final_slash (a : Text) : segments (a ++ ['/']) = segments a := by
  simp

/-! ### File systems -/

/-- What stands at a location. -/
inductive Kind where
  | file
  | directory
  deriving DecidableEq

/-- A file system without symbolic links: the root is a directory and every
entry stands in a directory. -/
structure FileTree where
  kind : Location → Option Kind
  root : kind [] = some .directory
  parent : ∀ l n, (kind (l ++ [n])).isSome → kind l = some .directory

namespace FileTree

variable (t : FileTree)

/-- One segment resolved on the file system; only a directory can be entered. -/
def enter (l : Location) (s : Seg Name) : Option Location :=
  if t.kind l = some .directory ∧ (t.kind (step l s)).isSome then some (step l s) else none

/-- The number of leading segments that exist. -/
def leading (l : Location) : List (Seg Name) → ℕ
  | [] => 0
  | s :: ss =>
      match t.enter l s with
      | some l' => leading l' ss + 1
      | none => 0

/-- Every ancestor of a directory is one. -/
lemma kind_dropLast {l : Location} (h : t.kind l = some .directory) :
    t.kind l.dropLast = some .directory := by
  rcases List.eq_nil_or_concat' l with rfl | ⟨l, n, rfl⟩
  · exact t.root
  · rw [List.dropLast_concat]
    exact t.parent l n (by simp [h])

/-- From a directory the first segment is missing only as a name without an entry. -/
lemma leading_eq_zero_iff {l : Location} (hl : t.kind l = some .directory) {ss : List (Seg Name)}
    (hss : ss ≠ []) :
    t.leading l ss = 0 ↔ ∃ n rest, ss = .name n :: rest ∧ t.kind (l ++ [n]) = none := by
  obtain ⟨s, ss, rfl⟩ := List.exists_cons_of_ne_nil hss
  cases s with
  | dot => simp [leading, enter, hl, step]
  | dotdot => simp [leading, enter, hl, step, t.kind_dropLast hl]
  | name n =>
      by_cases hn : t.kind (l ++ [n]) = none
      · simp [leading, enter, hl, step, hn]
      · have : (t.kind (l ++ [n])).isSome := Option.isSome_iff_ne_none.mpr hn
        simp [leading, enter, hl, step, this, hn]

/-- The file system that holds one directory and its ancestors. -/
def chain (l : Location) : FileTree where
  kind x := if x <+: l then some .directory else none
  root := by simp
  parent x n h := by
    have hx : x ++ [n] <+: l := by
      by_contra hx
      simp [hx] at h
    simp [(List.prefix_append x [n]).trans hx]

@[simp] lemma chain_kind_self (l : Location) : (chain l).kind l = some .directory := by
  simp [chain]

end FileTree

/-! ### `std::filesystem` -/

/-- A slash when the condition holds. -/
def slashIf (b : Bool) : Text := if b then ['/'] else []

/-- Whether the last element of a path is empty, `.` or `..`, so that its
normal form keeps a slash after the last name. -/
def openEnded (s : Text) : Bool :=
  s.getLast? == some '/' || (segments s).getLast?.any (!·.isName)

/-- The text of a relative normal form. -/
def relText (ss : List (Seg Name)) : Text :=
  if climb ss = 0 ∧ descent ss = [] then ['.']
  else joinSegs (List.replicate (climb ss) .dotdot ++ (descent ss).map .name)

/-- `weakly_canonical`: the canonical path of the longest leading part that
exists, then the remaining elements, in normal form.  A path none of whose
leading elements exists stays relative. -/
def weaklyCanonical (t : FileTree) (cwd : Location) (s : Text) : Text :=
  let start := startOf cwd s
  let ss := segments s
  let n := t.leading start ss
  if s = [] then []
  else if n = ss.length ∧
      (s.getLast? ≠ some '/' ∨ t.kind (walk start ss) = some .directory) then
    absText (walk start ss)
  else if isAbsolute s ∨ 0 < n then
    let l := walk (walk start (ss.take n)) (ss.drop n)
    absText l ++ slashIf (openEnded s && !l.isEmpty)
  else relText ss ++ slashIf (openEnded s && !(descent ss).isEmpty)

/-- `absolute`: the working directory is put in front of a relative path. -/
def absolute (cwd : Location) (s : Text) : Text :=
  if isAbsolute s then s else absText cwd ++ slashIf (!cwd.isEmpty) ++ s

@[simp] lemma segments_append_slashIf (a : Text) (b : Bool) :
    segments (a ++ slashIf b) = segments a := by
  cases b <;> simp [slashIf]

lemma isAbsolute_append {a : Text} (ha : a ≠ []) (b : Text) :
    isAbsolute (a ++ b) = isAbsolute a := by
  obtain ⟨c, a, rfl⟩ := List.exists_cons_of_ne_nil ha
  rfl

lemma segments_absolute_of_relative (cwd : Location) {s : Text} (hs : isAbsolute s = false) :
    segments (absolute cwd s) = cwd.map .name ++ segments s := by
  cases cwd with
  | nil => simp [absolute, hs, absText, slashIf, joinSegs]
  | cons n cwd =>
      have : absolute (n :: cwd) s = absText (n :: cwd) ++ '/' :: s := by
        simp [absolute, hs, slashIf]
      rw [this, segments_append_slash, segments_absText]

lemma isAbsolute_absolute (cwd : Location) (s : Text) : isAbsolute (absolute cwd s) = true := by
  by_cases hs : isAbsolute s
  · simp [absolute, hs]
  · simp only [absolute, hs, if_false, Bool.false_eq_true]
    rfl

/-- Joined segments do not start at the root. -/
lemma isAbsolute_joinSegs (ss : List (Seg Name)) : isAbsolute (joinSegs ss) = false := by
  cases ss with
  | nil => rfl
  | cons s ss =>
      obtain ⟨c, w, hw⟩ := List.exists_cons_of_ne_nil (show segText s ≠ [] from by
        cases s with
        | dot => decide
        | dotdot => decide
        | name n => exact n.text_ne_nil)
      have hc : c ≠ '/' := fun h => slash_not_mem_segText s (by simp [hw, h])
      cases ss with
      | nil => simp [joinSegs, hw, isAbsolute, hc]
      | cons u ss => simp [joinSegs, List.intercalate_cons_cons, hw, isAbsolute, hc]

/-- The segments of a relative normal form: the ascents and the names, or a
single dot when there are none. -/
lemma segments_relText (ss : List (Seg Name)) :
    segments (relText ss) =
      if climb ss = 0 ∧ descent ss = [] then [.dot]
      else List.replicate (climb ss) .dotdot ++ (descent ss).map .name := by
  rw [relText]
  split_ifs with h
  · rfl
  · exact segments_joinSegs _

lemma isAbsolute_relText (ss : List (Seg Name)) : isAbsolute (relText ss) = false := by
  rw [relText]
  split_ifs with h
  · rfl
  · exact isAbsolute_joinSegs _

lemma relText_ne_nil (ss : List (Seg Name)) : relText ss ≠ [] := by
  intro h
  have hseg := segments_relText ss
  rw [h, segments_nil] at hseg
  by_cases hss : climb ss = 0 ∧ descent ss = []
  · simp [hss] at hseg
  · rw [if_neg hss] at hseg
    obtain ⟨hk, hd⟩ := List.append_eq_nil_iff.mp hseg.symm
    exact hss ⟨by simpa using hk, by simpa using hd⟩

/-- Whether `weakly_canonical` leaves a path relative: it is relative and its
first segment is a name without an entry in the working directory. -/
def MissingHead (t : FileTree) (cwd : Location) (s : Text) : Prop :=
  isAbsolute s = false ∧ ∃ n rest, segments s = .name n :: rest ∧ t.kind (cwd ++ [n]) = none

section WeaklyCanonical

variable {t : FileTree} {cwd : Location} {s : Text}

/-- A path that starts at an existing place is resolved in full. -/
theorem weaklyCanonical_of_anchored (hcwd : t.kind cwd = some .directory) (hs : s ≠ [])
    (h : ¬ MissingHead t cwd s) :
    isAbsolute (weaklyCanonical t cwd s) = true ∧
      segments (weaklyCanonical t cwd s) = (locate cwd s).map .name := by
  have hanchor : isAbsolute s = true ∨ 0 < t.leading (startOf cwd s) (segments s) := by
    by_cases ha : isAbsolute s
    · exact .inl ha
    · right
      have hss : segments s ≠ [] := segments_ne_nil hs (by simpa [isAbsolute] using ha)
      simp only [startOf, ha, Bool.false_eq_true, if_false]
      refine Nat.pos_of_ne_zero fun h0 => h ⟨by simpa using ha, ?_⟩
      exact (t.leading_eq_zero_iff hcwd hss).mp h0
  simp only [weaklyCanonical, hs, if_false, hanchor, if_true]
  split_ifs with hfull
  · exact ⟨rfl, segments_absText _⟩
  · rw [← walk_append, List.take_append_drop]
    exact ⟨rfl, by rw [segments_append_slashIf, segments_absText]; rfl⟩

/-- Otherwise its relative normal form is all there is. -/
theorem weaklyCanonical_of_missingHead (hcwd : t.kind cwd = some .directory) (hs : s ≠ [])
    (h : MissingHead t cwd s) :
    ∃ b, weaklyCanonical t cwd s = relText (segments s) ++ slashIf b := by
  obtain ⟨ha, n, rest, hss, hn⟩ := h
  have hstart : startOf cwd s = cwd := by simp [startOf, ha]
  have h0 : t.leading cwd (segments s) = 0 :=
    (t.leading_eq_zero_iff hcwd (by simp [hss])).mpr ⟨n, rest, hss, hn⟩
  have hlen : ¬ 0 = (segments s).length := by simp [hss]
  refine ⟨openEnded s && !(descent (segments s)).isEmpty, ?_⟩
  simp only [weaklyCanonical, hs, hstart, h0, ha, hlen, if_false, false_and, Bool.false_eq_true,
    lt_irrefl, or_self]

end WeaklyCanonical

end FilePath
