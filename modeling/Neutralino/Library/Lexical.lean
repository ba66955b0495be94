import Mathlib.Data.List.Basic
import Mathlib.Data.List.Infix

/-!
Walking a tree of names by segments: the lexical reading of a path.

* `Seg`, `walk`: a segment stays, goes up or goes down; a walk follows a list
  of segments from a location, going up at the root staying there.
* `rel`: the relative normal form of a walk, the number of directories it
  leaves and the names it then follows; `walk_eq_rel` reads every walk off it.
* `Sinks`, `Level`: the two counting conditions on a list of segments under
  which its normal form begins with an ascent (`climb_eq_zero_iff`) or is
  empty (`descent_eq_nil_iff`).
* `prefix_walk_iff`: a walk ends below where it started exactly when it comes
  back through the directories it left.
-/

namespace Lexical

variable {ν : Type*}

/-- A path segment over the names `ν`: `.`, `..` or a name. -/
inductive Seg (ν : Type*) where
  | dot
  | dotdot
  | name (n : ν)
  deriving DecidableEq

namespace Seg

/-- Whether a segment is a name. -/
def isName : Seg ν → Bool
  | name _ => true
  | _ => false

/-- Whether a segment goes up. -/
def isUp : Seg ν → Bool
  | dotdot => true
  | _ => false

lemma isName_iff {s : Seg ν} : s.isName = true ↔ ∃ n, s = name n := by
  cases s <;> simp [isName]

end Seg

/-! ### Walks -/

/-- One segment followed from a location, which is a list of names from the root. -/
def step (l : List ν) : Seg ν → List ν
  | .dot => l
  | .dotdot => l.dropLast
  | .name n => l ++ [n]

/-- The location that a list of segments leads to. -/
def walk (l : List ν) (ss : List (Seg ν)) : List ν := ss.foldl step l

@[simp] lemma walk_nil (l : List ν) : walk l [] = l := rfl

@[simp] lemma walk_cons (l : List ν) (s : Seg ν) (ss : List (Seg ν)) :
    walk l (s :: ss) = walk (step l s) ss := rfl

lemma walk_append (l : List ν) (ss ts : List (Seg ν)) :
    walk l (ss ++ ts) = walk (walk l ss) ts := List.foldl_append

lemma walk_concat (l : List ν) (ss : List (Seg ν)) (s : Seg ν) :
    walk l (ss ++ [s]) = step (walk l ss) s := by rw [walk_append]; rfl

@[simp] lemma walk_names (l ns : List ν) : walk l (ns.map .name) = l ++ ns := by
  induction ns generalizing l with
  | nil => simp
  | cons n ns ih => simp [step, ih]

/-- A walk that never goes up ends below its start. -/
lemma prefix_walk {ss : List (Seg ν)} (h : ∀ s ∈ ss, s.isUp = false) (l : List ν) :
    l <+: walk l ss := by
  induction ss generalizing l with
  | nil => exact List.prefix_rfl
  | cons s ss ih =>
      rw [walk_cons]
      refine List.IsPrefix.trans ?_ (ih (fun t ht => h t (List.mem_cons_of_mem _ ht)) _)
      cases s with
      | dot => exact List.prefix_rfl
      | dotdot => exact absurd (h _ List.mem_cons_self) (by simp [Seg.isUp])
      | name n => exact List.prefix_append _ _

/-- Ascents alone take names off the end. -/
lemma walk_replicate_dotdot (l : List ν) (k : ℕ) :
    walk l (List.replicate k .dotdot) = l.take (l.length - k) := by
  induction k with
  | zero => simp
  | succ k ih =>
      rw [List.replicate_succ', walk_concat, ih, step, List.dropLast_eq_take, List.take_take,
        List.length_take]
      congr 1
      omega

/-- A walk that follows names, then goes up, then follows names, and in the end
is back below the first names, passes only through places above its end. -/
lemma prefix_walk_of_dip {l ns : List ν} {k : ℕ} {ss ts : List (Seg ν)}
    (h : ss ++ ts = l.map .name ++ (List.replicate k .dotdot ++ ns.map .name))
    (hl : l <+: walk [] (ss ++ ts)) : walk [] ss <+: walk [] (ss ++ ts) := by
  rcases List.append_eq_append_iff.mp h with ⟨us, hus, -⟩ | ⟨us, rfl, hus⟩
  · -- still on the first names
    obtain ⟨l₁, l₂, rfl, rfl, -⟩ := List.map_eq_append_iff.mp hus
    rw [walk_names, List.nil_append]
    exact (List.prefix_append _ _).trans hl
  · rcases List.append_eq_append_iff.mp hus with ⟨vs, rfl, hvs⟩ | ⟨vs, hvs, -⟩
    · -- past the ascents: the rest never goes up
      rw [walk_append _ _ ts]
      refine prefix_walk (fun s hs => ?_) _
      have hmem : s ∈ ns.map Seg.name := hvs ▸ List.mem_append_right _ hs
      obtain ⟨n, -, rfl⟩ := List.mem_map.mp hmem
      rfl
    · -- among the ascents
      obtain ⟨-, hus, -⟩ := List.append_eq_replicate_iff.mp hvs.symm
      refine List.IsPrefix.trans ?_ hl
      rw [walk_append, walk_names, List.nil_append, hus, walk_replicate_dotdot]
      exact List.take_prefix _ _

/-! ### The relative normal form -/

/-- One segment added to a normal form: the ascents, then the names. -/
def relStep (r : ℕ × List ν) : Seg ν → ℕ × List ν
  | .dot => r
  | .dotdot => if r.2.isEmpty then (r.1 + 1, []) else (r.1, r.2.dropLast)
  | .name n => (r.1, r.2 ++ [n])

/-- The relative normal form of a list of segments. -/
def rel (ss : List (Seg ν)) : ℕ × List ν := ss.foldl relStep (0, [])

/-- The number of directories left. -/
def climb (ss : List (Seg ν)) : ℕ := (rel ss).1

/-- The names followed after the last ascent that is left standing. -/
def descent (ss : List (Seg ν)) : List ν := (rel ss).2

lemma rel_concat (ss : List (Seg ν)) (s : Seg ν) : rel (ss ++ [s]) = relStep (rel ss) s := by
  simp [rel]

/-- **The walk is its normal form**: leave `climb` directories, follow `descent`. -/
theorem walk_eq_rel (l : List ν) (ss : List (Seg ν)) :
    walk l ss = l.take (l.length - climb ss) ++ descent ss := by
  induction ss using List.reverseRecOn with
  | nil => simp [climb, descent, rel]
  | append_singleton ss s ih =>
      simp only [climb, descent, rel_concat] at ih ⊢
      rw [walk_concat, ih]
      cases s with
      | dot => rfl
      | name n => simp [step, relStep]
      | dotdot =>
          by_cases hd : (rel ss).2 = []
          · have hr : relStep (rel ss) .dotdot = ((rel ss).1 + 1, []) := by simp [relStep, hd]
            rw [hr, hd, step, List.append_nil, List.append_nil, List.dropLast_eq_take,
              List.take_take, List.length_take]
            congr 1
            omega
          · have hr : relStep (rel ss) .dotdot = ((rel ss).1, (rel ss).2.dropLast) := by
              simp [relStep, hd]
            rw [hr, step, List.dropLast_append_of_ne_nil hd]

/-- A walk ends below its start exactly when it comes back through the
directories it left. -/
theorem prefix_walk_iff (l : List ν) (ss : List (Seg ν)) :
    l <+: walk l ss ↔ l.drop (l.length - climb ss) <+: descent ss := by
  rw [walk_eq_rel]
  nth_rewrite 1 [← List.take_append_drop (l.length - climb ss) l]
  exact List.prefix_append_right_inj _

/-! ### Counting -/

/-- The number of names. -/
def names (ss : List (Seg ν)) : ℕ := ss.countP Seg.isName

/-- The number of ascents. -/
def ups (ss : List (Seg ν)) : ℕ := ss.countP Seg.isUp

/-- Some leading part has more ascents than names. -/
def Sinks (ss : List (Seg ν)) : Prop := ∃ i ≤ ss.length, names (ss.take i) < ups (ss.take i)

/-- There are as many ascents as names. -/
def Level (ss : List (Seg ν)) : Prop := names ss = ups ss

instance (ss : List (Seg ν)) : Decidable (Sinks ss) :=
  decidable_of_iff (∃ i < ss.length + 1, names (ss.take i) < ups (ss.take i))
    (by simp only [Sinks, Nat.lt_succ_iff])

instance (ss : List (Seg ν)) : Decidable (Level ss) := inferInstanceAs (Decidable (_ = _))

/-- Up to the directories left, the names that remain are those not undone. -/
lemma names_add_climb (ss : List (Seg ν)) :
    names ss + climb ss = ups ss + (descent ss).length := by
  induction ss using List.reverseRecOn with
  | nil => rfl
  | append_singleton ss s ih =>
      simp only [names, ups, climb, descent, rel_concat, List.countP_append] at ih ⊢
      cases s with
      | dot => simpa [relStep, Seg.isName, Seg.isUp] using ih
      | name n =>
          simp only [relStep, Seg.isName, Seg.isUp, List.countP_singleton, List.length_append,
            List.length_singleton]
          simp only [if_true, Bool.false_eq_true, if_false]
          omega
      | dotdot =>
          by_cases hd : (rel ss).2 = []
          · simp [relStep, hd, Seg.isName, Seg.isUp] at ih ⊢
            omega
          · have hpos : 0 < (rel ss).2.length := List.length_pos_iff.mpr hd
            simp [relStep, hd, Seg.isName, Seg.isUp]
            omega

/-- A normal form begins with an ascent exactly when some leading part has
more ascents than names. -/
theorem climb_eq_zero_iff (ss : List (Seg ν)) : climb ss = 0 ↔ ¬ Sinks ss := by
  induction ss using List.reverseRecOn with
  | nil => simp [climb, rel, Sinks, names, ups]
  | append_singleton ss s ih =>
      have hsinks : Sinks (ss ++ [s]) ↔ Sinks ss ∨ names (ss ++ [s]) < ups (ss ++ [s]) := by
        constructor
        · rintro ⟨i, hi, h⟩
          rcases Nat.lt_or_ge ss.length i with hlt | hle
          · right
            rwa [List.take_of_length_le (by simp; omega)] at h
          · left
            rw [List.take_append_of_le_length hle] at h
            exact ⟨i, hle, h⟩
        · rintro (⟨i, hi, h⟩ | h)
          · exact ⟨i, by simp; omega, by rwa [List.take_append_of_le_length hi]⟩
          · exact ⟨_, le_rfl, by rwa [List.take_length]⟩
      have hcount := names_add_climb ss
      have hcount' := names_add_climb (ss ++ [s])
      have hstep : climb (ss ++ [s]) = 0 ↔ climb ss = 0 ∧ ups (ss ++ [s]) ≤ names (ss ++ [s]) := by
        rw [climb, rel_concat] at hcount' ⊢
        cases s with
        | dot => simp [relStep, names, ups, Seg.isName, Seg.isUp, climb] at hcount ⊢; omega
        | name n => simp [relStep, names, ups, Seg.isName, Seg.isUp, climb] at hcount ⊢; omega
        | dotdot =>
            by_cases hd : (rel ss).2 = []
            · simp [relStep, hd, names, ups, Seg.isName, Seg.isUp, climb, descent] at hcount ⊢
              omega
            · have hpos : 0 < (rel ss).2.length := List.length_pos_iff.mpr hd
              simp [relStep, hd, names, ups, Seg.isName, Seg.isUp, climb, descent] at hcount ⊢
              omega
      rw [hstep, ih, hsinks]
      simp only [not_or, not_lt]

/-- A normal form that begins with no ascent is empty exactly at a level list. -/
theorem descent_eq_nil_iff {ss : List (Seg ν)} (h : ¬ Sinks ss) : descent ss = [] ↔ Level ss := by
  have h0 := (climb_eq_zero_iff ss).mpr h
  have hcount := names_add_climb ss
  rw [Level, ← List.length_eq_zero_iff]
  omega

/-- A walk loses at most one directory for each ascent. -/
lemma names_le_length_walk (l : List ν) (ss : List (Seg ν)) :
    l.length + names ss ≤ (walk l ss).length + ups ss := by
  have hcount := names_add_climb ss
  rw [walk_eq_rel, List.length_append, List.length_take]
  omega

end Lexical
