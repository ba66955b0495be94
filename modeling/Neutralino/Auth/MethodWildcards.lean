import Mathlib.Data.List.TakeWhile
import Neutralino.Auth.MethodLists
import Neutralino.Library.Glob

/-!
What `*` stands for in the entries of a method list.

* `Globs`: a method matches an entry as a whole, where `*` stands for any run of
  characters.
* `Settled`, `Missed`, `TooWide`: the entries that are read as patterns, those whose
  `*` is not, and those that take more than they match; `taken_iff` and `globs_iff`
  say that there are no others.
* `wildcards_iff`: when the decision of a list is that of its patterns.
-/

namespace Neutralino.permission

open Regex

/-! ### Patterns -/

/-- The pattern of an entry. -/
def entryPattern (entry : Str) : List (Glob.Piece Char) :=
  entry.map fun c => if c = '*' then .run else .letter c

/-- A method matches an entry as a whole. -/
def Globs (entry m : Str) : Prop := Glob.Matches (entryPattern entry) m

instance (entry m : Str) : Decidable (Globs entry m) := inferInstanceAs (Decidable (Glob.Matches _ _))

section Patterns

variable {entry m mod rest name u v : Str}

lemma entryPattern_of_not_mem (h : '*' ∉ entry) : entryPattern entry = entry.map .letter :=
  List.map_congr_left fun c hc => if_neg fun heq : c = '*' => h (heq ▸ hc)

/-- An entry without `*` matches itself only. -/
lemma globs_iff_eq (h : '*' ∉ entry) : Globs entry m ↔ m = entry := by
  rw [Globs, entryPattern_of_not_mem h, Glob.matches_letters_iff]

lemma globs_append_iff : Globs (u ++ v) m ↔ ∃ s t, m = s ++ t ∧ Globs u s ∧ Globs v t := by
  rw [Globs, entryPattern, List.map_append, Glob.matches_append_iff]
  rfl

/-- Every entry matches itself. -/
lemma globs_self (entry : Str) : Globs entry entry := by
  induction entry with
  | nil => exact .nil
  | cons c entry ih =>
      by_cases hc : c = '*'
      · subst hc
        exact .run ['*'] ih
      · rw [Globs, entryPattern, List.map_cons, if_neg hc]
        exact .letter ih

lemma globs_dot_cons_iff : Globs ('.' :: rest) m ↔ ∃ name, m = '.' :: name ∧ Globs rest name := by
  rw [Globs, entryPattern, List.map_cons, if_neg (by decide), Glob.matches_letter_iff]
  rfl

/-- `mod.*` matches what begins with `mod.`. -/
lemma globs_module (mod name : Str) : Globs (mod ++ ['.', '*']) (mod ++ '.' :: name) := by
  refine globs_append_iff.mpr ⟨mod, '.' :: name, rfl, globs_self mod, ?_⟩
  exact globs_dot_cons_iff.mpr ⟨name, rfl, List.append_nil name ▸ .run name .nil⟩

lemma dot_mem_of_globs (h : Globs entry m) (hdot : '.' ∈ entry) : '.' ∈ m :=
  Glob.Matches.mem_of_letter_mem h (List.mem_map.mpr ⟨'.', hdot, rfl⟩)

end Patterns

/-! ### Entries and methods -/

/-- The registered entry takes the method. -/
def Taken (entry m : Str) : Prop :=
  if isWildcardMatch entry then moduleOf entry = moduleOf m else entry = m

/-- The entries that take a method which matches them: the method itself, its module
with `.*`, and a longer entry with `.*` that happens to match.  Such an entry takes every method
of its module, and whether one of them matches it is a coincidence, which only `Globs` can
tell. -/
inductive Settled : Str → Str → Prop
  | itself (m : Str) : Settled m m
  | module {mod : Str} (name : Str) : '.' ∉ mod → (∀ c ∈ mod, isLineTerminator c = false) →
      Settled (mod ++ ['.', '*']) (mod ++ '.' :: name)
  | longer {mod rest name : Str} : '.' ∉ mod → rest ≠ ['*'] →
      isWildcardMatch (mod ++ '.' :: rest) = true →
      Globs (mod ++ '.' :: rest) (mod ++ '.' :: name) →
      Settled (mod ++ '.' :: rest) (mod ++ '.' :: name)

/-- The entries that a method matches and that do not take it: the `*` stands somewhere
else than in a final `.*`, or also in the module, which is another. -/
inductive Missed : Str → Str → Prop
  | elsewhere {entry m : Str} : isWildcardMatch entry = false → '*' ∈ entry → entry ≠ m →
      Globs entry m → Missed entry m
  | inModule {entry m : Str} : isWildcardMatch entry = true → '*' ∈ moduleOf entry →
      moduleOf entry ≠ moduleOf m → Globs entry m → Missed entry m

/-- The entries that take a method which does not match them: the method is a module
without a name in it, or the entry goes on after its module. -/
inductive TooWide : Str → Str → Prop
  | bareModule {mod rest : Str} : '.' ∉ mod → isWildcardMatch (mod ++ '.' :: rest) = true →
      TooWide (mod ++ '.' :: rest) mod
  | longer {mod rest name : Str} : '.' ∉ mod → rest ≠ ['*'] →
      isWildcardMatch (mod ++ '.' :: rest) = true →
      ¬ Globs (mod ++ '.' :: rest) (mod ++ '.' :: name) →
      TooWide (mod ++ '.' :: rest) (mod ++ '.' :: name)

section Entries

variable {entry m mod : Str}

lemma not_mem_moduleOf (m : Str) : '.' ∉ moduleOf m := fun h => by
  simpa using List.mem_takeWhile_imp h

lemma moduleOf_of_not_mem (h : '.' ∉ m) : moduleOf m = m :=
  List.takeWhile_eq_self_iff.mpr fun c hc => by simpa using fun heq : c = '.' => h (heq ▸ hc)

/-- What has a dot is a module and what follows it. -/
lemma exists_eq_moduleOf_append (h : '.' ∈ m) : ∃ name, m = moduleOf m ++ '.' :: name := by
  obtain ⟨mod, name, rfl, hmod⟩ := List.eq_append_cons_of_mem h
  exact ⟨name, by rw [moduleOf_append hmod]⟩

lemma dot_mem_of_isWildcardMatch (h : isWildcardMatch entry = true) : '.' ∈ entry := by
  obtain ⟨u, rfl, -⟩ := isWildcardMatch_iff.mp h
  simp

lemma isWildcardMatch_module_iff :
    isWildcardMatch (mod ++ ['.', '*']) = true ↔ ∀ c ∈ mod, isLineTerminator c = false := by
  rw [isWildcardMatch_iff]
  constructor
  · rintro ⟨u, heq, hu⟩
    obtain rfl : mod = u := List.append_cancel_right heq
    exact hu
  · exact fun h => ⟨mod, rfl, h⟩

/-- **The entries that take a method.** -/
theorem taken_iff : Taken entry m ↔ Settled entry m ∨ TooWide entry m := by
  rw [Taken]
  constructor
  · intro h
    by_cases hwild : isWildcardMatch entry = true
    · rw [if_pos hwild] at h
      obtain ⟨rest, hentry⟩ := exists_eq_moduleOf_append (dot_mem_of_isWildcardMatch hwild)
      have hmod := not_mem_moduleOf entry
      generalize moduleOf entry = mod at h hentry hmod
      subst hentry
      by_cases hdot : '.' ∈ m
      · obtain ⟨name, hm⟩ := exists_eq_moduleOf_append hdot
        rw [hm, ← h]
        by_cases hrest : rest = ['*']
        · subst hrest
          exact .inl (.module name hmod (isWildcardMatch_module_iff.mp hwild))
        · by_cases hglobs : Globs (mod ++ '.' :: rest) (mod ++ '.' :: name)
          · exact .inl (.longer hmod hrest hwild hglobs)
          · exact .inr (.longer hmod hrest hwild hglobs)
      · rw [← moduleOf_of_not_mem hdot, ← h]
        exact .inr (.bareModule hmod hwild)
    · rw [if_neg hwild] at h
      exact .inl (h ▸ .itself entry)
  · rintro (h | h)
    · cases h with
      | itself => split <;> rfl
      | module name hmod hline =>
          rw [if_pos (isWildcardMatch_module_iff.mpr hline), moduleOf_append hmod,
            moduleOf_append hmod]
      | longer hmod _ hwild _ => rw [if_pos hwild, moduleOf_append hmod, moduleOf_append hmod]
    · cases h with
      | bareModule hmod hwild => rw [if_pos hwild, moduleOf_append hmod, moduleOf_of_not_mem hmod]
      | longer hmod _ hwild _ => rw [if_pos hwild, moduleOf_append hmod, moduleOf_append hmod]

/-- A method that matches a module entry of another module matches a `*` in it. -/
lemma star_mem_moduleOf (h : Globs entry m) (hdot : '.' ∈ entry) (hne : moduleOf entry ≠ moduleOf m) :
    '*' ∈ moduleOf entry := by
  by_contra hstar
  obtain ⟨rest, hentry⟩ := exists_eq_moduleOf_append hdot
  rw [hentry] at h
  obtain ⟨s, t, rfl, hs, ht⟩ := globs_append_iff.mp h
  obtain ⟨name, rfl, -⟩ := globs_dot_cons_iff.mp ht
  obtain rfl := (globs_iff_eq hstar).mp hs
  exact hne (moduleOf_append (not_mem_moduleOf entry) name).symm

/-- **The entries that a method matches.** -/
theorem globs_iff : Globs entry m ↔ Settled entry m ∨ Missed entry m := by
  constructor
  · intro h
    by_cases hwild : isWildcardMatch entry = true
    · have hdot := dot_mem_of_isWildcardMatch hwild
      by_cases hsame : moduleOf entry = moduleOf m
      · obtain ⟨rest, hentry⟩ := exists_eq_moduleOf_append hdot
        obtain ⟨name, hm⟩ := exists_eq_moduleOf_append (dot_mem_of_globs h hdot)
        have hmod := not_mem_moduleOf entry
        rw [← hsame] at hm
        generalize moduleOf entry = mod at hentry hm hmod
        subst hentry hm
        by_cases hrest : rest = ['*']
        · subst hrest
          exact .inl (.module name hmod (isWildcardMatch_module_iff.mp hwild))
        · exact .inl (.longer hmod hrest hwild h)
      · exact .inr (.inModule hwild (star_mem_moduleOf h hdot hsame) hsame h)
    · by_cases heq : entry = m
      · exact .inl (heq ▸ .itself entry)
      · have hstar : '*' ∈ entry := by
          by_contra hstar
          exact heq ((globs_iff_eq hstar).mp h).symm
        exact .inr (.elsewhere (by simpa using hwild) hstar heq h)
  · rintro (h | h)
    · cases h with
      | itself => exact globs_self entry
      | module name => exact globs_module _ name
      | longer _ _ _ h => exact h
    · cases h with
      | elsewhere _ _ _ h => exact h
      | inModule _ _ _ h => exact h

end Entries

/-! ### The decision of a list -/

/-- The two method lists. -/
inductive MethodList where
  | block
  | allow
  deriving DecidableEq

/-- The option that holds a list. -/
def MethodList.key : MethodList → Str
  | .block => "nativeBlockList"
  | .allow => "nativeAllowList"

def MethodList.other : MethodList → MethodList
  | .block => .allow
  | .allow => .block

/-- The access to a method in the list. -/
def MethodList.verdict : MethodList → Bool
  | .block => false
  | .allow => true

/-- A list is configured, and the other is not. -/
structure OnlyList (options : Json) (list : MethodList) (entries : List Str) : Prop where
  configured : listOption options list.key = .ok (some entries)
  absent : listOption options list.other.key = .ok none

/-- The access to a method is that of its list just if some entry matches it. -/
def DecidesAsPattern (perm : Permission) (list : MethodList) (entries : List Str) (m : Str) : Prop :=
  ∃ access, hasMethodAccess perm m = .ok access ∧
    (access = list.verdict ↔ ∃ entry ∈ entries, Globs entry m)

section Decision

variable {host : Host} {options : Json} {perm : Permission} {list : MethodList}
  {entries : List Str} {m : Str}

/-- A registered list contains what its entries take. -/
lemma inList_iff_taken : inList entries m = true ↔ ∃ entry ∈ entries, Taken entry m := by
  simp only [inList, modulesOf, methodsOf, Taken, Bool.or_eq_true, List.contains_eq_mem,
    decide_eq_true_eq, List.mem_map, List.mem_filter, Bool.not_eq_true']
  constructor
  · rintro (⟨entry, ⟨hmem, hwild⟩, heq⟩ | ⟨hmem, hwild⟩)
    · exact ⟨entry, hmem, by rwa [if_pos hwild]⟩
    · exact ⟨m, hmem, by simp [hwild]⟩
  · rintro ⟨entry, hmem, htaken⟩
    cases hwild : isWildcardMatch entry with
    | true => exact .inl ⟨entry, ⟨hmem, hwild⟩, by simpa [hwild] using htaken⟩
    | false =>
        obtain rfl : entry = m := by simpa [hwild] using htaken
        exact .inr ⟨hmem, hwild⟩

/-- A list that is configured alone decides by what its entries take. -/
lemma hasMethodAccess_onlyList (hinit : init host options = .ok perm)
    (honly : OnlyList options list entries) (hm : m ≠ []) :
    hasMethodAccess perm m = .ok (inList entries m == list.verdict) := by
  obtain ⟨allow, ha, block, hb, commands, -, scopes, -, rfl⟩ := init_eq_ok.mp hinit
  rw [hasMethodAccess_registered hm]
  cases list with
  | block =>
      obtain rfl : some entries = block := Except.ok.inj (honly.configured.symm.trans hb)
      exact congrArg Except.ok (beq_false _).symm
  | allow =>
      obtain rfl : some entries = allow := Except.ok.inj (honly.configured.symm.trans ha)
      obtain rfl : none = block := Except.ok.inj (honly.absent.symm.trans hb)
      exact congrArg Except.ok (beq_true _).symm

/-- The text without a module is indexed past its end. -/
lemma hasMethodAccess_nil (perm : Permission) :
    hasMethodAccess perm [] = .error .undefinedBehaviour := rfl

lemma beq_verdict_eq_verdict_iff (taken : Bool) :
    (taken == list.verdict) = list.verdict ↔ taken = true := by
  cases list <;> cases taken <;> decide

/-- **The decision of a list is that of its patterns** for a method that is not empty just
if some entry settles it, or the list misses it exactly where it also takes it too wide. -/
theorem wildcards_iff (hinit : init host options = .ok perm)
    (honly : OnlyList options list entries) (m : Str) :
    DecidesAsPattern perm list entries m ↔
      m ≠ [] ∧ ((∃ entry ∈ entries, Settled entry m) ∨
        ((∃ entry ∈ entries, Missed entry m) ↔ ∃ entry ∈ entries, TooWide entry m)) := by
  by_cases hm : m = []
  · subst hm
    rw [DecidesAsPattern, hasMethodAccess_nil]
    simp
  · rw [DecidesAsPattern, hasMethodAccess_onlyList hinit honly hm, and_iff_right hm]
    simp only [Except.ok.injEq, exists_eq_left', beq_verdict_eq_verdict_iff, inList_iff_taken,
      taken_iff, globs_iff, and_or_left, exists_or]
    by_cases hsettled : ∃ entry, entry ∈ entries ∧ Settled entry m
    · simp only [hsettled, true_or]
    · simp only [hsettled, false_or]
      exact iff_comm

end Decision

/-- A configuration with one method list of one entry. -/
def oneEntry (list : MethodList) (entry : Str) : Json := .obj [(list.key, .arr [.str entry])]

lemma onlyList_oneEntry (list : MethodList) (entry : Str) :
    OnlyList (oneEntry list entry) list [entry] := by
  cases list <;> exact ⟨rfl, rfl⟩

/-- What is registered for such a configuration. -/
def oneEntryPermission (list : MethodList) (entry : Str) : Permission :=
  match list with
  | .block => registered none (some [entry]) none none
  | .allow => registered (some [entry]) none none none

lemma init_oneEntry (host : Host) (list : MethodList) (entry : Str) :
    init host (oneEntry list entry) = .ok (oneEntryPermission list entry) := by
  refine init_eq_ok.mpr ?_
  cases list with
  | block => exact ⟨none, rfl, some [entry], rfl, none, rfl, none, rfl, rfl⟩
  | allow => exact ⟨some [entry], rfl, none, rfl, none, rfl, none, rfl, rfl⟩

theorem app_exit_decided :
    DecidesAsPattern (oneEntryPermission .allow "app.*") .allow ["app.*"] "app.exit" := by
  have hsettled : Settled "app.*" "app.exit" :=
    @Settled.module "app" "exit" (by decide) (forall_mem_of_all (by decide))
  exact (wildcards_iff (init_oneEntry emptyWorkDir .allow "app.*")
    (onlyList_oneEntry .allow "app.*") "app.exit").mpr
      ⟨by decide, .inl ⟨_, List.mem_singleton_self _, hsettled⟩⟩

/-- A block list that is to cover a method by a part of its name leaves it open. -/
theorem partial_name_left_open :
    init emptyWorkDir (oneEntry .block "os.exec*") = .ok (oneEntryPermission .block "os.exec*") ∧
      hasMethodAccess (oneEntryPermission .block "os.exec*") "os.execCommand" = .ok true ∧
      Globs "os.exec*" "os.execCommand" ∧
      ¬ DecidesAsPattern (oneEntryPermission .block "os.exec*") .block ["os.exec*"]
        "os.execCommand" := by
  have haccess : hasMethodAccess (oneEntryPermission .block "os.exec*") "os.execCommand" =
      .ok true := rfl
  have hglobs : Globs "os.exec*" "os.execCommand" := by decide
  refine ⟨init_oneEntry _ _ _, haccess, hglobs, ?_⟩
  rintro ⟨access, hdecided, hiff⟩
  obtain rfl : true = access := Except.ok.inj (haccess.symm.trans hdecided)
  exact Bool.noConfusion (hiff.mpr ⟨_, List.mem_singleton_self _, hglobs⟩)

end Neutralino.permission
