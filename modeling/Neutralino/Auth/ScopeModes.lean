import Neutralino.Auth.Registration

/-!
What the entries of the scope map grant.

* `ScopeMode`, `scopeMap`: the modes of a scope entry, and the option value for
  a list of entries.
* `Granted`: an access is granted where there are no entries, and else by an
  entry whose mode includes it and whose path covers the accessed one.
* `hasFileSystemPathAccess_registered`: the decision in a registered state.
* `CoveredBy`: the same for any value of the option, the entries having been
  normalised on a host of their own; `hasFileSystemPathAccess_iff_coveredBy`.
* `hasFileSystemPathAccess_iff_granted_iff`: **when the decision is the
  grant**.  A scope map without entries denies every access.
-/

namespace Neutralino.permission

/-- The mode of a scope entry. -/
inductive ScopeMode where
  | read
  | write
  | readWrite
  deriving DecidableEq

namespace ScopeMode

/-- The mode as the configuration spells it. -/
def text : ScopeMode → Str
  | read => "read"
  | write => "write"
  | readWrite => "read-write"

/-- The kinds of access a mode is meant for. -/
def includes : ScopeMode → FileSystemAccessPermission → Bool
  | read, kind => kind = .read
  | write, kind => kind = .write
  | readWrite, _ => true

lemma modeIncludes_text (mode : ScopeMode) (kind : FileSystemAccessPermission) :
    modeIncludes mode.text kind = mode.includes kind := by
  cases mode <;> cases kind <;> decide

end ScopeMode

/-- The value of the option `filesystemScopes` for a list of entries. -/
def scopeMap : Option (List (Str × ScopeMode)) → Json
  | none => .null
  | some entries => .obj (entries.map fun e => (e.1, .str e.2.text))

/-- An access is granted when the scope map is absent or empty, and otherwise
by an entry whose mode includes it and whose normalised path covers the path. -/
def Granted (host : Host) (scopes : Option (List (Str × ScopeMode))) (path : Str)
    (kind : FileSystemAccessPermission) : Prop :=
  scopes = none ∨ scopes = some [] ∨
    ∃ entries ∈ scopes, ∃ e ∈ entries, e.2.includes kind = true ∧
      ∃ scope, normalizeScopePath host e.1 = .ok scope ∧ isPathInScope host path scope = .ok true

/-! ### The decision -/

section Decision

variable {host : Host} {options : Json} {perm : Permission} {path : Str}
  {kind : FileSystemAccessPermission}

/-- The loop over the scopes finds a scope that covers the path. -/
lemma anyInScope_iff {scopes : List Str} :
    anyInScope host path scopes = .ok true ↔
      ∃ scope ∈ scopes, isPathInScope host path scope = .ok true := by
  induction scopes with
  | nil => simp [anyInScope]
  | cons scope scopes ih =>
      rw [anyInScope, bind_eq_ok, List.exists_mem_cons_iff, ← ih]
      constructor
      · rintro ⟨b, hb, h⟩
        cases b with
        | true => exact .inl hb
        | false => exact .inr (by simpa using h)
      · rintro (h | h)
        · exact ⟨true, h, rfl⟩
        · -- a path that cannot be normalised fails on every scope alike
          cases hs : isPathInScope host path scope with
          | ok b => exact ⟨b, rfl, by cases b <;> simp [h, pure, Except.pure]⟩
          | error e =>
              obtain ⟨s, -, hin⟩ := ih.mp h
              rw [isPathInScope, bind_eq_ok] at hin
              obtain ⟨r, hr, -⟩ := hin
              simp [isPathInScope, hr, pure, Except.pure] at hs

/-- The decision in a registered state. -/
theorem hasFileSystemPathAccess_registered (allow block commands : Option (List Str))
    (scopes : Option (List (Str × Str))) :
    hasFileSystemPathAccess host (registered allow block commands scopes) path kind = .ok true ↔
      ∀ entries ∈ scopes, ∃ scope ∈ scopesOf kind entries,
        isPathInScope host path scope = .ok true := by
  rw [hasFileSystemPathAccess, activeScopes_registered]
  cases scopes with
  | none => simp [registered]
  | some entries =>
      cases hscopes : scopesOf kind entries with
      | nil => simp [registered, hscopes]
      | cons scope rest => simp [registered, hscopes, anyInScope_iff]

/-- A path is covered by an entry of the option `filesystemScopes` whose mode
includes the kind of access; the entry was normalised on the host of `init`. -/
def CoveredBy (initHost host : Host) (scopes : Json) (path : Str) (kind : FileSystemAccessPermission) :
    Prop :=
  ∃ item ∈ scopes.items, ∃ mode, item.2.getString = .ok mode ∧ modeIncludes mode kind = true ∧
    ∃ scope, normalizeScopePath initHost item.1 = .ok scope ∧ isPathInScope host path scope = .ok true

/-- Where the option is not null, an access is granted to what is covered. -/
theorem hasFileSystemPathAccess_iff_coveredBy {initHost : Host} {scopes : Json}
    (hinit : init initHost options = .ok perm)
    (hscopes : settings.getOptionForCurrentMode options "filesystemScopes" = .ok scopes)
    (hne : scopes.isNull = false) :
    hasFileSystemPathAccess host perm path kind = .ok true ↔
      CoveredBy initHost host scopes path kind := by
  obtain ⟨allow, -, block, -, commands, -, registeredScopes, hreg, rfl⟩ := init_eq_ok.mp hinit
  rw [scopeOption, optionFor, hscopes, ok_bind, hne] at hreg
  obtain ⟨l, hl, hsome⟩ := bind_eq_ok.mp (show
    (do return some (← scopes.items.mapM (readScope initHost))) = Except.ok registeredScopes
      from hreg)
  obtain rfl : some l = registeredScopes := Except.ok.inj hsome
  rw [hasFileSystemPathAccess_registered]
  simp only [Option.mem_def, Option.some.injEq, forall_eq', scopesOf, List.mem_map, List.mem_filter,
    mem_mapM_iff hl]
  constructor
  · rintro ⟨_, ⟨⟨scope, mode⟩, ⟨⟨item, hitem, hread⟩, hincludes⟩, rfl⟩, hin⟩
    obtain ⟨hmode, hscope⟩ := readScope_eq_ok.mp hread
    exact ⟨item, hitem, mode, hmode, hincludes, scope, hscope, hin⟩
  · rintro ⟨item, hitem, mode, hmode, hincludes, scope, hscope, hin⟩
    exact ⟨scope, ⟨(scope, mode), ⟨⟨item, hitem, readScope_eq_ok.mpr ⟨hmode, hscope⟩⟩, hincludes⟩,
      rfl⟩, hin⟩

lemma scopeOption_eq_ok {scopes : Option (List (Str × ScopeMode))}
    {registeredScopes : Option (List (Str × Str))}
    (hscopes : settings.getOptionForCurrentMode options "filesystemScopes" = .ok (scopeMap scopes))
    (h : scopeOption host options = .ok registeredScopes) :
    (scopes = none ∧ registeredScopes = none) ∨
      ∃ entries l, scopes = some entries ∧ registeredScopes = some l ∧
        (entries.map fun e => (e.1, Json.str e.2.text)).mapM (readScope host) = .ok l := by
  rw [scopeOption, optionFor, hscopes, ok_bind] at h
  cases scopes with
  | none =>
      refine .inl ⟨rfl, ?_⟩
      simpa [scopeMap, Json.isNull, pure, Except.pure, eq_comm] using h
  | some entries =>
      replace h : (do return some (← (scopeMap (some entries)).items.mapM (readScope host))) =
        Except.ok registeredScopes := h
      obtain ⟨l, hl, ⟨⟩⟩ := bind_eq_ok.mp h
      exact .inr ⟨entries, l, rfl, rfl, hl⟩

/-- The scopes of a kind are the normalised paths of the entries whose mode
includes it. -/
lemma mem_scopesOf_iff {entries : List (Str × ScopeMode)} {l : List (Str × Str)}
    (h : (entries.map fun e => (e.1, Json.str e.2.text)).mapM (readScope host) = .ok l)
    {scope : Str} :
    scope ∈ scopesOf kind l ↔
      ∃ e ∈ entries, e.2.includes kind = true ∧ normalizeScopePath host e.1 = .ok scope := by
  simp only [scopesOf, List.mem_map, List.mem_filter, mem_mapM_iff h]
  constructor
  · rintro ⟨⟨scope, mode⟩, ⟨⟨_, ⟨e, he, rfl⟩, hread⟩, hmode⟩, rfl⟩
    obtain ⟨⟨⟩, hscope⟩ := readScope_eq_ok.mp hread
    exact ⟨e, he, by rwa [← ScopeMode.modeIncludes_text], hscope⟩
  · rintro ⟨e, he, hmode, hscope⟩
    refine ⟨(scope, e.2.text), ⟨⟨_, ⟨e, he, rfl⟩, ?_⟩, ?_⟩, rfl⟩
    · exact readScope_eq_ok.mpr ⟨rfl, hscope⟩
    · rwa [ScopeMode.modeIncludes_text]

/-- **The decision is the grant** exactly when the scope map is not an empty one. -/
theorem hasFileSystemPathAccess_iff_granted_iff {scopes : Option (List (Str × ScopeMode))}
    (hinit : init host options = .ok perm)
    (hscopes : settings.getOptionForCurrentMode options "filesystemScopes" =
      .ok (scopeMap scopes)) :
    (hasFileSystemPathAccess host perm path kind = .ok true ↔ Granted host scopes path kind) ↔
      scopes ≠ some [] := by
  obtain ⟨allow, -, block, -, commands, -, registeredScopes, hreg, rfl⟩ := init_eq_ok.mp hinit
  rw [hasFileSystemPathAccess_registered]
  rcases scopeOption_eq_ok hscopes hreg with ⟨rfl, rfl⟩ | ⟨entries, l, rfl, rfl, hl⟩
  · simp [Granted]
  · have hdecision : (∃ scope ∈ scopesOf kind l, isPathInScope host path scope = .ok true) ↔
        ∃ e ∈ entries, e.2.includes kind = true ∧ ∃ scope,
          normalizeScopePath host e.1 = .ok scope ∧ isPathInScope host path scope = .ok true := by
      simp only [mem_scopesOf_iff hl]
      constructor
      · rintro ⟨scope, ⟨e, he, hmode, hscope⟩, hin⟩
        exact ⟨e, he, hmode, scope, hscope, hin⟩
      · rintro ⟨e, he, hmode, scope, hscope, hin⟩
        exact ⟨scope, ⟨e, he, hmode, hscope⟩, hin⟩
    simp only [Granted, Option.mem_def, Option.some.injEq, forall_eq', exists_eq_left', hdecision,
      reduceCtorEq, false_or]
    cases entries with
    | nil => simp
    | cons e entries => simp

end Decision

theorem read_scope_grants_no_write :
    hasFileSystemPathAccess emptyWorkDir (registered none none none (some [("/data", "read")]))
        "/data/file" .write = .ok true ↔
      Granted emptyWorkDir (some [("/data", .read)]) "/data/file" .write :=
  (@hasFileSystemPathAccess_iff_granted_iff emptyWorkDir
    (.obj [("filesystemScopes", .obj [("/data", .str "read")])]) _ _ _ (some [("/data", .read)])
    rfl rfl).mpr (by simp)

/-- A present scope map without entries denies an access it is meant to grant. -/
theorem empty_scope_map_denies :
    ∃ perm, init emptyWorkDir (.obj [("filesystemScopes", .obj [])]) = .ok perm ∧
      hasFileSystemPathAccess emptyWorkDir perm "/data/file" .read = .ok false ∧
      Granted emptyWorkDir (some []) "/data/file" .read :=
  ⟨registered none none none (some []), rfl, rfl, .inr (.inl rfl)⟩

end Neutralino.permission
