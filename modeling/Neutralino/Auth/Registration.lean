import Neutralino.Auth.Permission

/-!
The permission state that `permission::init` leaves behind, read off the
configuration.

* `optionFor`, `listOption`, `scopeOption`: the values of the list options and of the scope
  map for the current mode.
* `modulesOf`, `methodsOf`, `scopesOf`: what the entries of a list contribute.
* `registered`: the permission state for given option values.
* `init_eq_ok`: `init` returns exactly the state registered for the options.
-/

namespace Neutralino.permission

open Regex

/-! ### Options -/

/-- The value of an option for the current mode as `read` gives it, absent where
it is null. -/
def optionFor {α : Type} (options : Json) (key : Str) (read : Json → Except Fault α) :
    Except Fault (Option α) := do
  let value ← settings.getOptionForCurrentMode options key
  if value.isNull then return none
  let entries ← read value
  return some entries

/-- The texts of a list option. -/
def listOption (options : Json) (key : Str) : Except Fault (Option (List Str)) :=
  optionFor options key Json.getStrings

/-- One entry of the scope map: its normalised path and its mode. -/
def readScope (host : Host) (entry : Str × Json) : Except Fault (Str × Str) := do
  let perm ← entry.2.getString
  let normalizedScope ← normalizeScopePath host entry.1
  return (normalizedScope, perm)

/-- The scope map. -/
def scopeOption (host : Host) (options : Json) : Except Fault (Option (List (Str × Str))) :=
  optionFor options "filesystemScopes" fun value => value.items.mapM (readScope host)

lemma readScope_eq_ok {host : Host} {item : Str × Json} {scope mode : Str} :
    readScope host item = .ok (scope, mode) ↔
      item.2.getString = .ok mode ∧ normalizeScopePath host item.1 = .ok scope := by
  simp only [readScope, bind_eq_ok, pure, Except.pure, Except.ok.injEq, Prod.mk.injEq]
  constructor
  · rintro ⟨mode, hmode, scope, hscope, rfl, rfl⟩
    exact ⟨hmode, hscope⟩
  · rintro ⟨hmode, hscope⟩
    exact ⟨mode, hmode, scope, hscope, rfl, rfl⟩

/-- A scope map that is present was read entry by entry. -/
lemma scopeOption_eq_some {host : Host} {options : Json} {entries : List (Str × Str)}
    (h : scopeOption host options = .ok (some entries)) :
    ∃ value, settings.getOptionForCurrentMode options "filesystemScopes" = .ok value ∧
      value.items.mapM (readScope host) = .ok entries := by
  obtain ⟨value, hvalue, hread⟩ := bind_eq_ok.mp h
  refine ⟨value, hvalue, ?_⟩
  cases hn : value.isNull with
  | true => simp [hn, pure, Except.pure] at hread
  | false =>
      simp only [hn, Bool.false_eq_true, if_false] at hread
      obtain ⟨entries', hentries, hsome⟩ := bind_eq_ok.mp hread
      obtain rfl : entries' = entries := Option.some.inj (Except.ok.inj hsome)
      exact hentries

/-- A registration keeps the state when its option is null, and updates it with
the value otherwise. -/
lemma register_optionFor {α : Type} (options : Json) (key : Str) (read : Json → Except Fault α)
    (absent : Permission) (present : α → Permission) :
    (do let value ← settings.getOptionForCurrentMode options key
        if value.isNull then return absent
        let entries ← read value
        return present entries) =
      (do return (← optionFor options key read).elim absent present) := by
  rw [optionFor]
  cases settings.getOptionForCurrentMode options key with
  | error e => rfl
  | ok value =>
      simp only [ok_bind]
      by_cases hn : value.isNull
      · simp only [hn, if_true]
        rfl
      · simp only [hn, if_false, Bool.false_eq_true]
        cases read value with
        | error e => rfl
        | ok entries => rfl

/-! ### Method lists -/

/-- The text before the first dot. -/
def moduleOf (entry : Str) : Str := entry.takeWhile (· ≠ '.')

/-- The modules that the wildcard entries of a list name. -/
def modulesOf (entries : List Str) : List Str :=
  (entries.filter fun e => isWildcardMatch e).map moduleOf

/-- The entries of a list that are no wildcards. -/
def methodsOf (entries : List Str) : List Str := entries.filter fun e => !isWildcardMatch e

/-- A wildcard entry ends in `.*` and holds no line terminator before it. -/
lemma isWildcardMatch_iff {entry : Str} :
    isWildcardMatch entry = true ↔
      ∃ u, entry = u ++ ['.', '*'] ∧ ∀ c ∈ u, isLineTerminator c = false := by
  rw [isWildcardMatch, Re.test_iff, Re.matches_cat]
  constructor
  · rintro ⟨u, v, hu, hv, rfl⟩
    exact ⟨u, by rw [Re.matches_lit.mp hv], matches_dotStar.mp hu⟩
  · rintro ⟨u, rfl, hu⟩
    exact ⟨u, _, matches_dotStar.mpr hu, Re.matches_lit.mpr rfl, rfl⟩

lemma getModuleFromMethod_of_ne_nil {m : Str} (hm : m ≠ []) :
    getModuleFromMethod m = .ok (moduleOf m) := by
  have hhead := helpers.head_splitTwo hm '.'
  rw [getModuleFromMethod]
  cases hs : helpers.splitTwo m '.' with
  | nil => simp [hs] at hhead
  | cons part parts => simpa [hs, moduleOf] using hhead

/-- Sorting a list of entries never fails. -/
lemma sortEntries_eq (modules methods entries : List Str) :
    sortEntries modules methods entries =
      .ok (modules ++ modulesOf entries, methods ++ methodsOf entries) := by
  induction entries generalizing modules methods with
  | nil => simp [sortEntries, modulesOf, methodsOf]
  | cons entry entries ih =>
      by_cases hw : isWildcardMatch entry
      · have hne : entry ≠ [] := by
          obtain ⟨u, rfl, -⟩ := isWildcardMatch_iff.mp hw
          simp
        simp [sortEntries, hw, getModuleFromMethod_of_ne_nil hne, ih, modulesOf, methodsOf, bind,
          Except.bind]
      · simp [sortEntries, hw, ih, modulesOf, methodsOf]

/-! ### Scopes -/

/-- Whether a mode includes a kind of access. -/
def modeIncludes (mode : Str) : FileSystemAccessPermission → Bool
  | .read => mode = "read-write".toList || mode = "read".toList
  | .write => mode = "read-write".toList || mode = "write".toList

/-- The normalised paths of the entries whose mode includes a kind of access. -/
def scopesOf (kind : FileSystemAccessPermission) (entries : List (Str × Str)) : List Str :=
  (entries.filter fun e => modeIncludes e.2 kind).map Prod.fst

/-- A permission state with scopes added. -/
def addScopes (p : Permission) (entries : List (Str × Str)) : Permission :=
  { p with
    fileSystemReadScopes := p.fileSystemReadScopes ++ scopesOf .read entries
    fileSystemWriteScopes := p.fileSystemWriteScopes ++ scopesOf .write entries }

lemma addScopes_addScopes (p : Permission) (entries entries' : List (Str × Str)) :
    addScopes (addScopes p entries) entries' = addScopes p (entries ++ entries') := by
  simp [addScopes, scopesOf]

lemma modeIncludes_read (mode : Str) :
    (mode = "read-write".toList ∨ mode = "read".toList) ↔ modeIncludes mode .read = true := by
  rw [modeIncludes, Bool.or_eq_true, decide_eq_true_iff, decide_eq_true_iff]

lemma modeIncludes_write (mode : Str) :
    (mode = "read-write".toList ∨ mode = "write".toList) ↔ modeIncludes mode .write = true := by
  rw [modeIncludes, Bool.or_eq_true, decide_eq_true_iff, decide_eq_true_iff]

lemma scopesOf_singleton (kind : FileSystemAccessPermission) (entry : Str × Str) :
    scopesOf kind [entry] = if modeIncludes entry.2 kind then [entry.1] else [] := by
  by_cases h : modeIncludes entry.2 kind <;> simp [scopesOf, h]

lemma registerScope_eq (host : Host) (p : Permission) (entry : Str × Json) :
    registerScope host p entry = (do return addScopes p [← readScope host entry]) := by
  rw [registerScope, readScope]
  cases entry.2.getString with
  | error e => rfl
  | ok perm =>
      cases normalizeScopePath host entry.1 with
      | error e => rfl
      | ok scope =>
          simp only [bind, Except.bind, pure, Except.pure, addScopes, scopesOf_singleton,
            modeIncludes_read, modeIncludes_write]
          by_cases hr : modeIncludes perm .read <;> by_cases hw : modeIncludes perm .write <;>
            simp [hr, hw]

lemma foldlM_registerScope (host : Host) (p : Permission) (items : List (Str × Json)) :
    items.foldlM (registerScope host) p =
      (do return addScopes p (← items.mapM (readScope host))) := by
  induction items generalizing p with
  | nil => simp [addScopes, scopesOf]
  | cons item items ih =>
      rw [List.foldlM_cons, List.mapM_cons, registerScope_eq]
      cases readScope host item with
      | error e => rfl
      | ok entry =>
          simp only [ih, bind, Except.bind, pure, Except.pure]
          cases items.mapM (readScope host) with
          | error e => rfl
          | ok entries => simp [addScopes_addScopes]

/-! ### The registered state -/

/-- The permission state for the values of the four options. -/
def registered (allow block commands : Option (List Str)) (scopes : Option (List (Str × Str))) :
    Permission where
  blockedMethods := methodsOf (block.getD [])
  blockedModules := modulesOf (block.getD [])
  allowedMethods := methodsOf (allow.getD [])
  allowedModules := modulesOf (allow.getD [])
  allowedCommandPatterns := commands.getD []
  fileSystemReadScopes := scopesOf .read (scopes.getD [])
  fileSystemWriteScopes := scopesOf .write (scopes.getD [])
  shouldCheckBlockList := block.isSome
  shouldCheckAllowList := allow.isSome
  shouldCheckCommandAllowList := commands.isSome
  shouldCheckScopesLists := scopes.isSome

@[simp] lemma activeScopes_registered (allow block commands : Option (List Str))
    (scopes : Option (List (Str × Str))) (kind : FileSystemAccessPermission) :
    activeScopes (registered allow block commands scopes) kind = scopesOf kind (scopes.getD []) := by
  cases kind <;> rfl

variable (host : Host) (options : Json)

lemma registerAllowList_eq :
    registerAllowList options {} =
      (do return registered (← listOption options "nativeAllowList") none none none) := by
  simp only [registerAllowList, sortEntries_eq, ok_bind, register_optionFor]
  refine congrArg _ (funext fun allow => ?_)
  cases allow <;> rfl

lemma registerBlockList_eq (allow : Option (List Str)) :
    registerBlockList options (registered allow none none none) =
      (do return registered allow (← listOption options "nativeBlockList") none none) := by
  simp only [registerBlockList, sortEntries_eq, ok_bind, register_optionFor]
  refine congrArg _ (funext fun block => ?_)
  cases block <;> rfl

lemma regiserCommandAllowList_eq (allow block : Option (List Str)) :
    regiserCommandAllowList options (registered allow block none none) =
      (do return registered allow block (← listOption options "commandAllowList") none) := by
  simp only [regiserCommandAllowList, register_optionFor]
  refine congrArg _ (funext fun commands => ?_)
  cases commands <;> rfl

lemma registerScopesLists_eq (allow block commands : Option (List Str)) :
    registerScopesLists host options (registered allow block commands none) =
      (do return registered allow block commands (← scopeOption host options)) := by
  simp only [registerScopesLists, foldlM_registerScope, bind_assoc, pure_bind, register_optionFor]
  refine congrArg _ (funext fun scopes => ?_)
  cases scopes <;> rfl

/-- `init` reads the four options and registers their values. -/
theorem init_eq :
    init host options = (do
      let allow ← listOption options "nativeAllowList"
      let block ← listOption options "nativeBlockList"
      let commands ← listOption options "commandAllowList"
      let scopes ← scopeOption host options
      return registered allow block commands scopes) := by
  simp only [init, registerAllowList_eq, registerBlockList_eq, regiserCommandAllowList_eq,
    registerScopesLists_eq, bind_assoc, pure_bind]

variable {host options}

/-- `init` returns exactly the state registered for the values of the options. -/
theorem init_eq_ok {perm : Permission} :
    init host options = .ok perm ↔
      ∃ allow, listOption options "nativeAllowList" = .ok allow ∧
      ∃ block, listOption options "nativeBlockList" = .ok block ∧
      ∃ commands, listOption options "commandAllowList" = .ok commands ∧
      ∃ scopes, scopeOption host options = .ok scopes ∧
        perm = registered allow block commands scopes := by
  simp only [init_eq, bind_eq_ok, pure, Except.pure, Except.ok.injEq, @eq_comm _ _ perm]

end Neutralino.permission
