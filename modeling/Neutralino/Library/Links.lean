import Mathlib.Data.List.TakeWhile
import Neutralino.Library.FilePath

/-!
Path texts on a file system with symbolic links, as POSIX calls and
`std::filesystem` read them.

* `callText`: a call sees a path text up to its first NUL.
* `LinkedTree`: a file system with links; `follow`, `lead` follow them.
* `canonical`: the leading segments that exist, and the segments left;
  `canonical_spec` says what they are.
* `usedPlace`, `entryPlace`: the place that a call uses, a link at the end
  being followed or not; `EndsInLink` is where the two differ.
* `status`, `weaklyCanonical`, `decided`: `std::filesystem::status` and
  `std::filesystem::weakly_canonical`, and the place that the latter spells.
* `decided_length`: the segments that are too long to exist all count in it;
  `decided_eq_of_noLink` is where it is the place that a call uses.
-/

namespace FilePath

open Lexical

/-- What a call sees of a path text: it ends at the first NUL. -/
def callText (s : Text) : Text := s.takeWhile (· ≠ '\x00')

lemma callText_eq_self {s : Text} (h : '\x00' ∉ s) : callText s = s :=
  List.takeWhile_eq_self_iff.mpr fun c hc => by simpa using ne_of_mem_of_not_mem hc h

lemma callText_append {a : Text} (h : '\x00' ∉ a) (b : Text) : callText (a ++ '\x00' :: b) = a := by
  rw [callText, List.takeWhile_append_of_pos]
  · simp
  · exact fun c hc => by simpa using ne_of_mem_of_not_mem hc h

/-- A text is what a call sees of it, unless a NUL follows that. -/
lemma callText_cases (s : Text) :
    callText s = s ∨ ∃ b, s = callText s ++ '\x00' :: b := by
  have hsplit := List.takeWhile_append_dropWhile (p := (· ≠ '\x00')) (l := s)
  cases hb : s.dropWhile (· ≠ '\x00') with
  | nil =>
      rw [hb, List.append_nil] at hsplit
      exact .inl hsplit
  | cons c b =>
      have hhead := List.head?_dropWhile_not (· ≠ '\x00') s
      rw [hb] at hhead
      obtain rfl : c = '\x00' := by simpa using hhead
      rw [hb] at hsplit
      exact .inr ⟨b, hsplit.symm⟩

lemma nul_not_mem_callText (s : Text) : '\x00' ∉ callText s := fun h => by
  simpa using List.mem_takeWhile_imp h

/-! ### File systems with links -/

/-- What stands at a location of a file system with symbolic links.  A link is
given by the place that it leads to, over any further links. -/
inductive Entry where
  | file
  | directory
  | link (place : Location)
  deriving DecidableEq

/-- A file system with symbolic links: the root is a directory, every entry
stands in a directory, links lead to what is not a link, and the names of the
entries are of bounded length and hold no NUL.  Links that lead in a circle are
left out: every call fails on them, the gate's own calls included. -/
structure LinkedTree where
  entry : Location → Option Entry
  root : entry [] = some .directory
  parent : ∀ l n, (entry (l ++ [n])).isSome → entry l = some .directory
  ends : ∀ l k m, entry l = some (.link k) → entry k ≠ some (.link m)
  nameMax : ℕ
  name : ∀ l n, (entry (l ++ [n])).isSome → n.text.length ≤ nameMax ∧ '\x00' ∉ n.text

namespace LinkedTree

variable (t : LinkedTree)

/-- Where one segment leads, a link being followed; a missing name stands for itself. -/
def follow (l : Location) : Seg Name → Location
  | .name n =>
      match t.entry (l ++ [n]) with
      | some (.link k) => k
      | _ => l ++ [n]
  | s => step l s

/-- Where a list of segments leads. -/
def lead (l : Location) (ss : List (Seg Name)) : Location := ss.foldl t.follow l

/-- The leading segments that exist: the place they lead to, and the segments
left.  Only a directory can be entered. -/
def canonical (l : Location) : List (Seg Name) → Location × List (Seg Name)
  | [] => (l, [])
  | s :: ss =>
      if t.entry l = some .directory ∧ (t.entry (t.follow l s)).isSome then
        canonical (t.follow l s) ss
      else (l, s :: ss)

@[simp] lemma lead_nil (l : Location) : t.lead l [] = l := rfl

lemma lead_append (l : Location) (ss us : List (Seg Name)) :
    t.lead l (ss ++ us) = t.lead (t.lead l ss) us := List.foldl_append

/-- Where no link is met, the segments lead where they lead lexically. -/
theorem lead_eq_walk {l : Location} {ss : List (Seg Name)}
    (h : ∀ pre n post k, ss = pre ++ .name n :: post → t.entry (walk l pre ++ [n]) ≠ some (.link k)) :
    t.lead l ss = walk l ss := by
  induction ss generalizing l with
  | nil => rfl
  | cons s ss ih =>
      have hstep : t.follow l s = step l s := by
        cases s with
        | name n =>
            rw [follow]
            cases he : t.entry (l ++ [n]) with
            | none => rfl
            | some e =>
                cases e with
                | link k => exact absurd he (h [] n ss k rfl)
                | file => rfl
                | directory => rfl
        | dot => rfl
        | dotdot => rfl
      show t.lead (t.follow l s) ss = walk (step l s) ss
      rw [hstep]
      exact ih fun pre n post k hss => h (s :: pre) n post k (by rw [hss]; rfl)

/-- Whether a segment is a name that is too long for an entry. -/
def isLong : Seg Name → Bool
  | .name n => t.nameMax < n.text.length
  | _ => false

/-- What stands somewhere was reached by no name that is too long. -/
lemma isLong_of_entry {l : Location} {s : Seg Name} (h : (t.entry (t.follow l s)).isSome) :
    t.isLong s = false := by
  cases s with
  | name n =>
      have hentry : (t.entry (l ++ [n])).isSome := by
        rw [follow] at h
        cases he : t.entry (l ++ [n]) with
        | none => simp [he] at h
        | some e => rfl
      simpa [isLong] using (t.name l n hentry).1
  | dot => rfl
  | dotdot => rfl

/-- **The leading segments that exist** lead to the place given, none of them is
too long, and the others are left. -/
theorem canonical_spec (l : Location) (ss : List (Seg Name)) :
    ∃ found, ss = found ++ (t.canonical l ss).2 ∧ t.lead l found = (t.canonical l ss).1 ∧
      ∀ s ∈ found, t.isLong s = false := by
  induction ss generalizing l with
  | nil => exact ⟨[], rfl, rfl, List.forall_mem_nil _⟩
  | cons s ss ih =>
      rw [canonical]
      split_ifs with h
      · obtain ⟨found, hsplit, hlead, hshort⟩ := ih (t.follow l s)
        refine ⟨s :: found, by rw [List.cons_append, ← hsplit], hlead, ?_⟩
        exact List.forall_mem_cons.mpr ⟨t.isLong_of_entry h.2, hshort⟩
      · exact ⟨[], rfl, rfl, List.forall_mem_nil _⟩

/-- From a directory nothing is found only where the first segment is a name
that leads to nothing. -/
lemma canonical_eq_self_iff {l : Location} (hl : t.entry l = some .directory) {ss : List (Seg Name)}
    (hss : ss ≠ []) :
    (t.canonical l ss).2.length = ss.length ↔
      ∃ n rest, ss = .name n :: rest ∧ t.entry (t.follow l (.name n)) = none := by
  obtain ⟨s, ss, rfl⟩ := List.exists_cons_of_ne_nil hss
  have hle : ∀ k, (t.canonical k ss).2.length ≤ ss.length := by
    intro k
    obtain ⟨found, hsplit, -⟩ := t.canonical_spec k ss
    have := congrArg List.length hsplit
    rw [List.length_append] at this
    omega
  have hparent : (t.entry l.dropLast).isSome := by
    rcases List.eq_nil_or_concat' l with rfl | ⟨l, n, rfl⟩
    · simp [hl]
    · rw [List.dropLast_concat, t.parent l n (by rw [hl]; rfl)]
      rfl
  rw [canonical]
  split_ifs with h
  · have := hle (t.follow l s)
    constructor
    · intro heq
      rw [List.length_cons] at heq
      omega
    · rintro ⟨n, rest, heq, hnone⟩
      rw [(List.cons.inj heq).1, hnone] at h
      cases h.2
  · refine iff_of_true rfl ?_
    cases s with
    | name n => exact ⟨n, ss, rfl, by simpa [hl] using h⟩
    | dot => simp [hl, follow, step] at h
    | dotdot => simp [hl, follow, step, hparent] at h

/-! ### What a call uses -/

variable (cwd : Location) (s : Text)

/-- The place that a call uses which follows a link at the end; the empty text
names nothing. -/
def usedPlace : Option Location :=
  if callText s = [] then none
  else some (t.lead (startOf cwd (callText s)) (segments (callText s)))

/-- The place that a call uses which takes a link at the end for itself. -/
def entryPlace : Option Location :=
  match (segments (callText s)).getLast? with
  | some (.name n) =>
      if (callText s).getLast? = some '/' then t.usedPlace cwd s
      else some (t.lead (startOf cwd (callText s)) (segments (callText s)).dropLast ++ [n])
  | _ => t.usedPlace cwd s

/-- Whether a call that follows no link at the end would find one there. -/
def EndsInLink : Prop :=
  (callText s).getLast? ≠ some '/' ∧ ∃ ss n k, segments (callText s) = ss ++ [.name n] ∧
    t.entry (t.lead (startOf cwd (callText s)) ss ++ [n]) = some (.link k)

variable {t cwd s}

/-- A link at the end is named by the last segment. -/
lemma EndsInLink.exists_name (h : t.EndsInLink cwd s) :
    ∃ n, (segments (callText s)).getLast? = some (.name n) := by
  obtain ⟨-, ss, n, k, hss, -⟩ := h
  exact ⟨n, by rw [hss, List.getLast?_concat]⟩

/-- Where the last segment is a name, it is looked up in what the others lead to. -/
lemma endsInLink_iff {ss : List (Seg Name)} {n : Name} (hss : segments (callText s) = ss ++ [.name n])
    (hslash : (callText s).getLast? ≠ some '/') :
    t.EndsInLink cwd s ↔
      ∃ k, t.entry (t.lead (startOf cwd (callText s)) ss ++ [n]) = some (.link k) := by
  constructor
  · rintro ⟨-, ss', n', k, hss', hk⟩
    obtain ⟨rfl, hn⟩ := List.append_inj' (hss.symm.trans hss') rfl
    obtain rfl : n = n' := by simpa using hn
    exact ⟨k, hk⟩
  · rintro ⟨k, hk⟩
    exact ⟨hslash, ss, n, k, hss, hk⟩

/-- A name is followed to itself unless it is a link. -/
lemma follow_name_eq_iff (l : Location) (n : Name) :
    t.follow l (.name n) = l ++ [n] ↔ ¬ ∃ k, t.entry (l ++ [n]) = some (.link k) := by
  rw [follow]
  cases he : t.entry (l ++ [n]) with
  | none => simp
  | some e =>
      cases e with
      | file => simp
      | directory => simp
      | link k =>
          -- what a link leads to is no link
          refine iff_of_false (fun h => ?_) (not_not.mpr ⟨k, rfl⟩)
          exact t.ends _ _ k he ((congrArg t.entry h).trans he)

/-- **The two places are the same** exactly when no link stands at the end. -/
theorem entryPlace_eq_usedPlace_iff : t.entryPlace cwd s = t.usedPlace cwd s ↔ ¬ t.EndsInLink cwd s := by
  by_cases hname : ∃ n, (segments (callText s)).getLast? = some (.name n)
  · obtain ⟨n, hlast⟩ := hname
    obtain ⟨ss, hss⟩ := List.getLast?_eq_some_iff.mp hlast
    by_cases hslash : (callText s).getLast? = some '/'
    · exact iff_of_true (by simp [entryPlace, hlast, hslash]) fun h => h.1 hslash
    · have hne : callText s ≠ [] := by
        intro h
        simp [h] at hss
      rw [endsInLink_iff hss hslash, ← follow_name_eq_iff, eq_comm]
      simp only [entryPlace, hlast, hslash, if_false, usedPlace, hne, Option.some.injEq]
      rw [hss, List.dropLast_concat, lead_append]
      rfl
  · refine iff_of_true ?_ fun h => hname h.exists_name
    rw [entryPlace]
    split
    · exact absurd ⟨_, ‹_›⟩ hname
    · rfl

variable (t cwd s)

/-! ### `std::filesystem` -/

/-- `status`: the place of what a path text names, where that exists.  A final
slash asks for a directory. -/
def status : Option Location :=
  let found := t.canonical (startOf cwd (callText s)) (segments (callText s))
  if callText s ≠ [] ∧ found.2 = [] ∧
      ((callText s).getLast? ≠ some '/' ∨ t.entry found.1 = some .directory) then
    some found.1
  else none

/-- `weakly_canonical`: what exists is resolved, as the calls see it; else the
leading elements that exist are, and the rest follows in normal form.  A path
none of whose elements exists stays relative. -/
def weaklyCanonical : Text :=
  if s = [] then []
  else
    match t.status cwd s with
    | some l => absText l
    | none =>
        let found := t.canonical (startOf cwd s) (segments s)
        if isAbsolute s ∨ found.2.length < (segments s).length then
          let l := walk found.1 found.2
          absText l ++ slashIf (openEnded s && !l.isEmpty)
        else relText (segments s) ++ slashIf (openEnded s && !(descent (segments s)).isEmpty)

/-- The place that `weakly_canonical` spells: behind the elements that exist,
the rest is read without following links. -/
def decided : Location :=
  match t.status cwd s with
  | some l => l
  | none =>
      walk (t.canonical (startOf cwd s) (segments s)).1 (t.canonical (startOf cwd s) (segments s)).2

/-- Whether `weakly_canonical` leaves a path relative: nothing that the calls
see of it exists, and its first segment is a name that leads to nothing in the
working directory. -/
def MissingHead : Prop :=
  isAbsolute s = false ∧ t.status cwd s = none ∧
    ∃ n rest, segments s = .name n :: rest ∧ t.entry (t.follow cwd (.name n)) = none

variable {t cwd s}

/-- What exists is used where it is found. -/
lemma usedPlace_of_status {l : Location} (h : t.status cwd s = some l) : t.usedPlace cwd s = some l := by
  rw [status] at h
  split_ifs at h with hfound
  · obtain ⟨hne, hrest, -⟩ := hfound
    obtain ⟨found, hsplit, hlead, -⟩ :=
      t.canonical_spec (startOf cwd (callText s)) (segments (callText s))
    rw [hrest, List.append_nil] at hsplit
    rw [usedPlace, if_neg hne, ← h, ← hlead, ← hsplit]

/-- What exists has no segment that is too long. -/
lemma isLong_of_status {l : Location} (h : t.status cwd s = some l) :
    ∀ g ∈ segments (callText s), t.isLong g = false := by
  rw [status] at h
  split_ifs at h with hfound
  · obtain ⟨found, hsplit, -, hshort⟩ :=
      t.canonical_spec (startOf cwd (callText s)) (segments (callText s))
    rw [hfound.2.1, List.append_nil] at hsplit
    rwa [hsplit]

/-- **The segments that are too long all count** in the place that is decided
on, apart from what the ascents can undo. -/
theorem decided_length (h : t.status cwd s = none) :
    (segments s).countP t.isLong ≤ (t.decided cwd s).length + ups (segments s) := by
  obtain ⟨found, hsplit, -, hshort⟩ := t.canonical_spec (startOf cwd s) (segments s)
  set l := (t.canonical (startOf cwd s) (segments s)).1 with hl
  set rest := (t.canonical (startOf cwd s) (segments s)).2 with hrest
  have hdecided : t.decided cwd s = walk l rest := by simp [decided, h, hl, hrest]
  have hfound : found.countP t.isLong = 0 :=
    List.countP_eq_zero.mpr fun g hg => by simp [hshort g hg]
  have hnames : rest.countP t.isLong ≤ names rest := by
    refine List.countP_mono_left fun g _ hg => ?_
    cases g with
    | name n => rfl
    | dot => cases hg
    | dotdot => cases hg
  have hwalk := names_le_length_walk l rest
  rw [hdecided, hsplit, ups, List.countP_append, List.countP_append, hfound]
  rw [ups] at hwalk
  omega

/-- A path that is not left relative is resolved in full. -/
theorem weaklyCanonical_of_anchored (hcwd : t.entry cwd = some .directory) (hs : s ≠ [])
    (h : ¬ t.MissingHead cwd s) :
    isAbsolute (t.weaklyCanonical cwd s) = true ∧
      segments (t.weaklyCanonical cwd s) = (t.decided cwd s).map .name := by
  rw [weaklyCanonical, if_neg hs, decided]
  cases hstatus : t.status cwd s with
  | some l => exact ⟨rfl, segments_absText _⟩
  | none =>
      have hanchor : isAbsolute s = true ∨
          (t.canonical (startOf cwd s) (segments s)).2.length < (segments s).length := by
        by_cases ha : isAbsolute s = true
        · exact .inl ha
        · have hss : segments s ≠ [] := segments_ne_nil hs (by simpa [isAbsolute] using ha)
          have hself := (t.canonical_eq_self_iff hcwd hss).not.mpr fun hmissing =>
            h ⟨by simpa using ha, hstatus, hmissing⟩
          obtain ⟨found, hsplit, -⟩ := t.canonical_spec cwd (segments s)
          have hlength := congrArg List.length hsplit
          rw [List.length_append] at hlength
          refine .inr ?_
          rw [startOf, if_neg ha]
          omega
      simp only [hanchor, if_true]
      exact ⟨rfl, by rw [segments_append_slashIf, segments_absText]⟩

/-- Otherwise its relative normal form is all there is. -/
theorem weaklyCanonical_of_missingHead (hcwd : t.entry cwd = some .directory)
    (h : t.MissingHead cwd s) :
    (∃ b, t.weaklyCanonical cwd s = relText (segments s) ++ slashIf b) ∧
      t.decided cwd s = walk cwd (segments s) := by
  obtain ⟨ha, hstatus, hmissing⟩ := h
  have hs : s ≠ [] := by
    rintro rfl
    obtain ⟨n, rest, hss, -⟩ := hmissing
    cases hss
  have hss : segments s ≠ [] := by
    obtain ⟨n, rest, hss, -⟩ := hmissing
    simp [hss]
  have hstart : startOf cwd s = cwd := by simp [startOf, ha]
  have hself := (t.canonical_eq_self_iff hcwd hss).mpr hmissing
  obtain ⟨found, hsplit, hlead, -⟩ := t.canonical_spec cwd (segments s)
  have hfound : found = [] := by
    have hlength := congrArg List.length hsplit
    rw [List.length_append] at hlength
    exact List.length_eq_zero_iff.mp (by omega)
  rw [hfound, List.nil_append] at hsplit
  rw [hfound, lead_nil] at hlead
  constructor
  · refine ⟨openEnded s && !(descent (segments s)).isEmpty, ?_⟩
    simp only [weaklyCanonical, hs, hstatus, hstart, ha, hself, if_false, Bool.false_eq_true,
      lt_irrefl, or_self]
  · simp only [decided, hstatus, hstart, ← hlead]
    rw [← hsplit]

/-- **Where no link is met behind what exists**, and no NUL ends the path, the
place that is decided on is the place that the calls use. -/
theorem decided_eq_of_noLink (hnul : '\x00' ∉ s) (hstatus : t.status cwd s = none)
    (h : ∀ pre n post k, (t.canonical (startOf cwd s) (segments s)).2 = pre ++ .name n :: post →
      t.entry (walk (t.canonical (startOf cwd s) (segments s)).1 pre ++ [n]) ≠ some (.link k)) :
    ∀ place ∈ t.usedPlace cwd s, t.decided cwd s = place := by
  intro place hplace
  obtain ⟨found, hsplit, hlead, -⟩ := t.canonical_spec (startOf cwd s) (segments s)
  rw [usedPlace, callText_eq_self hnul] at hplace
  split_ifs at hplace with hs
  · cases hplace
  · obtain rfl := Option.some.inj hplace
    rw [hsplit, lead_append, hlead, t.lead_eq_walk h]
    simp [decided, hstatus]

/-- The file system that holds some directories with their ancestors, and one link. -/
def oneLink (dirs : List Location) (dir : Location) (hdir : dir ∈ dirs) (n : Name) (place : Location)
    (hplace : place ≠ dir ++ [n]) (hname : ∀ m ∈ n :: dirs.flatten, '\x00' ∉ m.text) : LinkedTree where
  entry x := if ∃ d ∈ dirs, x <+: d then some .directory
    else if x = dir ++ [n] then some (.link place) else none
  root := if_pos ⟨dir, hdir, List.nil_prefix⟩
  parent l m h := by
    refine if_pos ?_
    split_ifs at h with hd hlink
    · obtain ⟨d, hd, hprefix⟩ := hd
      exact ⟨d, hd, (List.prefix_append l [m]).trans hprefix⟩
    · obtain ⟨rfl, -⟩ := List.append_inj' hlink rfl
      exact ⟨l, hdir, List.prefix_rfl⟩
    · cases h
  ends l k m hk hm := by
    split_ifs at hk with hd hlink
    · cases hk
    · obtain rfl : place = k := by simpa using hk
      split_ifs at hm
      · cases hm
  nameMax := ((n :: dirs.flatten).flatMap Name.text).length
  name l m h := by
    have hmem : m ∈ n :: dirs.flatten := by
      split_ifs at h with hd hlink
      · obtain ⟨d, hd, hprefix⟩ := hd
        have hm : m ∈ d := hprefix.subset (List.mem_append_right l List.mem_cons_self)
        exact List.mem_cons_of_mem _ (List.mem_flatten.mpr ⟨d, hd, hm⟩)
      · obtain ⟨-, hm⟩ := List.append_inj' hlink rfl
        exact (List.cons.inj hm).1 ▸ List.mem_cons_self
      · cases h
    exact ⟨(List.sublist_flatten_of_mem (List.mem_map_of_mem hmem)).length_le, hname m hmem⟩

end LinkedTree

end FilePath
