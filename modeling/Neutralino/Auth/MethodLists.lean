import Neutralino.Auth.Registration

/-!
What the block list and the allow list decide about a method together.

* `EntryForm`, `EntryMatches`: the entries of the two lists, and the methods
  an entry matches.
* `Permitted`: a method is permitted when no block entry matches it and, where
  there is an allow list, some allow entry does.
* `inList_iff`, `inList_iff_mem`: what the registered modules and methods of a
  list amount to.
* `hasMethodAccess_iff_permitted_iff`: **when the decision is the permission**.
  A block list, even an empty one, switches the allow list off.
-/

namespace Neutralino.permission

open Regex

/-- The entries of a method list: `mod.*` with no dot in `mod`, or a method
without `*`. -/
def EntryForm (entry : Str) : Prop :=
  (∃ mod, '.' ∉ mod ∧ entry = mod ++ ['.', '*']) ∨ '*' ∉ entry

/-- `mod.*` matches every method of the module, an entry without `*` itself. -/
def EntryMatches (entry m : Str) : Prop :=
  (∃ mod name, '.' ∉ mod ∧ entry = mod ++ ['.', '*'] ∧ m = mod ++ '.' :: name) ∨
    ('*' ∉ entry ∧ m = entry)

/-- Some entry of the list matches the method. -/
def MatchedBy (entries : List Str) (m : Str) : Prop := ∃ entry ∈ entries, EntryMatches entry m

/-- The permission that a block list and an allow list give, where they exist. -/
def Permitted (block allow : Option (List Str)) (m : Str) : Prop :=
  (∀ b ∈ block, ¬ MatchedBy b m) ∧ ∀ a ∈ allow, MatchedBy a m

/-! ### Registered lists -/

/-- Whether a registered list contains a method, by its module or by itself. -/
def inList (entries : List Str) (m : Str) : Bool :=
  (modulesOf entries).contains (moduleOf m) || (methodsOf entries).contains m

lemma hasMethodAccess_registered {m : Str} (hm : m ≠ []) (allow block commands : Option (List Str))
    (scopes : Option (List (Str × Str))) :
    hasMethodAccess (registered allow block commands scopes) m =
      .ok (match block, allow with
        | some b, _ => !inList b m
        | none, some a => inList a m
        | none, none => true) := by
  rw [hasMethodAccess, getModuleFromMethod_of_ne_nil hm, ok_bind]
  cases block with
  | some b =>
      by_cases h1 : moduleOf m ∈ modulesOf b <;> by_cases h2 : m ∈ methodsOf b <;>
        simp [registered, inList, h1, h2, pure, Except.pure]
  | none =>
      cases allow with
      | none => rfl
      | some a =>
          by_cases h1 : moduleOf m ∈ modulesOf a <;> by_cases h2 : m ∈ methodsOf a <;>
            simp [registered, inList, h1, h2, pure, Except.pure]

/-- The text before the first dot of a method. -/
lemma moduleOf_append {mod : Str} (hmod : '.' ∉ mod) (name : Str) :
    moduleOf (mod ++ '.' :: name) = mod := by
  have hall : ∀ c ∈ mod, c ≠ '.' := fun c hc h => hmod (h ▸ hc)
  rw [moduleOf, List.takeWhile_append_of_pos (by simpa using hall)]
  simp

/-- Two splittings at a first dot are equal. -/
lemma append_dot_inj {mod mod' : Str} (hmod : '.' ∉ mod) (hmod' : '.' ∉ mod') {u v : Str} :
    mod ++ '.' :: u = mod' ++ '.' :: v ↔ mod = mod' ∧ u = v := by
  constructor
  · intro h
    have := congrArg moduleOf h
    rw [moduleOf_append hmod, moduleOf_append hmod'] at this
    subst this
    simpa using h
  · rintro ⟨rfl, rfl⟩
    rfl

variable {entries : List Str} {mod name : Str}

lemma mem_methodsOf {m : Str} :
    m ∈ methodsOf entries ↔ m ∈ entries ∧ isWildcardMatch m = false := by
  simp [methodsOf]

/-- The modules of a list are those of its wildcard entries without a line
terminator. -/
lemma mem_modulesOf (hform : ∀ e ∈ entries, EntryForm e) (hmod : '.' ∉ mod) :
    mod ∈ modulesOf entries ↔
      mod ++ ['.', '*'] ∈ entries ∧ ∀ c ∈ mod, isLineTerminator c = false := by
  simp only [modulesOf, List.mem_map, List.mem_filter]
  constructor
  · rintro ⟨e, ⟨he, hw⟩, rfl⟩
    obtain ⟨u, rfl, hu⟩ := isWildcardMatch_iff.mp hw
    rcases hform _ he with ⟨mod', hmod', h⟩ | h
    · obtain rfl : u = mod' := by simpa using h
      rw [moduleOf_append hmod']
      exact ⟨he, hu⟩
    · simp at h
  · rintro ⟨he, hline⟩
    exact ⟨_, ⟨he, isWildcardMatch_iff.mpr ⟨mod, rfl, hline⟩⟩, moduleOf_append hmod _⟩

/-- What an entry list matches of the methods of one module. -/
lemma matchedBy_iff (hform : ∀ e ∈ entries, EntryForm e) (hmod : '.' ∉ mod) :
    MatchedBy entries (mod ++ '.' :: name) ↔
      mod ++ ['.', '*'] ∈ entries ∨ mod ++ '.' :: name ∈ entries := by
  constructor
  · rintro ⟨e, he, ⟨mod', name', hmod', rfl, h⟩ | ⟨-, rfl⟩⟩
    · obtain ⟨rfl, -⟩ := (append_dot_inj hmod hmod').mp h
      exact .inl he
    · exact .inr he
  · rintro (he | he)
    · exact ⟨_, he, .inl ⟨mod, name, hmod, rfl, rfl⟩⟩
    · rcases hform _ he with ⟨mod', hmod', h⟩ | h
      · obtain ⟨rfl, rfl⟩ := (append_dot_inj hmod hmod').mp h
        exact ⟨_, he, .inl ⟨mod, ['*'], hmod, rfl, rfl⟩⟩
      · exact ⟨_, he, .inr ⟨h, rfl⟩⟩

/-- A registered list contains the methods of a module that its entries match,
but those of a module with a line terminator only when it names them. -/
lemma inList_iff (hform : ∀ e ∈ entries, EntryForm e) (hmod : '.' ∉ mod) :
    inList entries (mod ++ '.' :: name) = true ↔
      MatchedBy entries (mod ++ '.' :: name) ∧
        ((∃ c ∈ mod, isLineTerminator c = true) → mod ++ '.' :: name ∈ entries) := by
  have hcontains : inList entries (mod ++ '.' :: name) = true ↔
      mod ∈ modulesOf entries ∨ mod ++ '.' :: name ∈ methodsOf entries := by
    simp [inList, moduleOf_append hmod]
  have hwild : isWildcardMatch (mod ++ '.' :: name) = true → mod ++ '.' :: name ∈ entries →
      name = ['*'] ∧ ∀ c ∈ mod, isLineTerminator c = false := by
    intro hw he
    obtain ⟨u, hu, hline⟩ := isWildcardMatch_iff.mp hw
    rcases hform _ he with ⟨mod', hmod', h⟩ | h
    · obtain ⟨rfl, rfl⟩ := (append_dot_inj hmod hmod').mp h
      obtain rfl : u = mod := by simpa using hu.symm
      exact ⟨rfl, hline⟩
    · simp [hu] at h
  rw [hcontains, matchedBy_iff hform hmod, mem_modulesOf hform hmod, mem_methodsOf]
  by_cases hline : ∀ c ∈ mod, isLineTerminator c = false
  · have hnone : ¬ ∃ c ∈ mod, isLineTerminator c = true := fun ⟨c, hc, h⟩ => by
      simp [hline c hc] at h
    simp only [hnone, false_imp_iff, and_true]
    constructor
    · rintro (⟨h, -⟩ | ⟨h, -⟩)
      · exact .inl h
      · exact .inr h
    · rintro (h | h)
      · exact .inl ⟨h, hline⟩
      · by_cases hw : isWildcardMatch (mod ++ '.' :: name)
        · obtain ⟨rfl, -⟩ := hwild hw h
          exact .inl ⟨h, hline⟩
        · exact .inr ⟨h, by simpa using hw⟩
  · have hsome : ∃ c ∈ mod, isLineTerminator c = true := by simpa using hline
    simp only [hline, and_false, false_or, hsome, true_imp_iff]
    constructor
    · rintro ⟨h, -⟩
      exact ⟨.inr h, h⟩
    · rintro ⟨-, h⟩
      refine ⟨h, ?_⟩
      by_contra hw
      exact hline (hwild (by simpa using hw) h).2

/-! ### The decision -/

section Decision

variable {host : Host} {options : Json} {perm : Permission} {block allow : Option (List Str)}

/-- **The decision is the permission** exactly when one of two present lists
matches the method, and the consulted list names a method it matches whose
module has a line terminator. -/
theorem hasMethodAccess_iff_permitted_iff (hinit : init host options = .ok perm)
    (hblock : listOption options "nativeBlockList" = .ok block)
    (hallow : listOption options "nativeAllowList" = .ok allow)
    (hform : ∀ l, l ∈ block ∨ l ∈ allow → ∀ e ∈ l, EntryForm e) (hmod : '.' ∉ mod) :
    (hasMethodAccess perm (mod ++ '.' :: name) = .ok true ↔
        Permitted block allow (mod ++ '.' :: name)) ↔
      (∀ b ∈ block, ∀ a ∈ allow,
        MatchedBy b (mod ++ '.' :: name) ∨ MatchedBy a (mod ++ '.' :: name)) ∧
      ((∃ c ∈ mod, isLineTerminator c = true) → ∀ l ∈ block <|> allow,
        MatchedBy l (mod ++ '.' :: name) → mod ++ '.' :: name ∈ l) := by
  obtain ⟨allow', ha, block', hb, commands, -, scopes, -, rfl⟩ := init_eq_ok.mp hinit
  obtain rfl : allow = allow' := Except.ok.inj (hallow.symm.trans ha)
  obtain rfl : block = block' := Except.ok.inj (hblock.symm.trans hb)
  rw [hasMethodAccess_registered (by simp)]
  have hin : ∀ l, l ∈ block ∨ l ∈ allow → (inList l (mod ++ '.' :: name) = true ↔ _) :=
    fun l hl => inList_iff (hform l hl) hmod
  generalize mod ++ '.' :: name = m at hin ⊢
  generalize (∃ c ∈ mod, isLineTerminator c = true) = terminated at hin ⊢
  simp only [Except.ok.injEq, Permitted]
  cases block with
  | none =>
      cases allow with
      | none => simp
      | some a =>
          simp only [hin a (by simp), Option.mem_def, reduceCtorEq, IsEmpty.forall_iff,
            implies_true, Option.some.injEq, forall_eq', true_and, Option.orElse_eq_orElse,
            Option.orElse_eq_or, Option.or_some, Option.getD_none]
          tauto
  | some b =>
      simp only [Bool.not_eq_true', Bool.eq_false_iff, ne_eq, hin b (by simp)]
      cases allow with
      | none =>
          simp only [Option.mem_def, Option.some.injEq, forall_eq', reduceCtorEq,
            IsEmpty.forall_iff, implies_true, and_true, Option.orElse_eq_orElse,
            Option.orElse_eq_or, Option.or_none, true_and]
          tauto
      | some a =>
          simp only [Option.mem_def, Option.some.injEq, forall_eq', Option.orElse_eq_orElse,
            Option.orElse_eq_or, Option.or_some, Option.getD_some]
          tauto

end Decision

/-- Two method lists at the places where the sample configuration has them: an
empty block list at the root, an allow list in the cloud mode. -/
def sampleLists : Json :=
  .obj [("defaultMode", .str "cloud"),
    ("modes", .obj [("cloud", .obj [("nativeAllowList", .arr [.str "app.*", .str "storage.*"])])]),
    ("nativeBlockList", .arr [])]

/-- The entries of the allow list. -/
def sampleAllow : List Str := ["app.*", "storage.*"]

lemma sampleAllow_entryForm : ∀ e ∈ sampleAllow, EntryForm e := by
  simp only [sampleAllow, List.mem_cons, List.not_mem_nil, or_false, forall_eq_or_imp, forall_eq]
  exact ⟨.inl ⟨"app", by decide, rfl⟩, .inl ⟨"storage", by decide, rfl⟩⟩

theorem app_exit_permitted :
    hasMethodAccess (registered (some sampleAllow) (some []) none none) "app.exit" = .ok true ↔
      Permitted (some []) (some sampleAllow) "app.exit" := by
  refine (@hasMethodAccess_iff_permitted_iff "app" "exit" emptyWorkDir sampleLists _ (some [])
    (some sampleAllow) rfl rfl rfl ?_ (by decide)).mpr ⟨?_, fun ⟨c, hc, hline⟩ => ?_⟩
  · rintro l (⟨⟨⟩⟩ | ⟨⟨⟩⟩) e he
    · cases he
    · exact sampleAllow_entryForm e he
  · rintro b - a ⟨⟨⟩⟩
    exact .inr ⟨"app.*", by decide, .inl ⟨"app", "exit", by decide, rfl, rfl⟩⟩
  · have hnone : ("app".toList.all fun c => !isLineTerminator c) = true := by decide
    simpa [hline] using List.all_eq_true.mp hnone c hc

/-- In the cloud mode of the sample configuration every module is open. -/
theorem empty_block_list_disables_allow_list :
    ∃ perm, init emptyWorkDir sampleLists = .ok perm ∧
      listOption sampleLists "nativeBlockList" = .ok (some []) ∧
      listOption sampleLists "nativeAllowList" = .ok (some sampleAllow) ∧
      hasMethodAccess perm "os.execCommand" = .ok true ∧
      ¬ Permitted (some []) (some sampleAllow) "os.execCommand" := by
  refine ⟨registered (some sampleAllow) (some []) none none, rfl, rfl, rfl, rfl, fun h => ?_⟩
  have hmatch := (@matchedBy_iff sampleAllow "os" "execCommand" sampleAllow_entryForm
    (by decide)).mp (h.2 _ rfl)
  revert hmatch
  decide

end Neutralino.permission
