import Neutralino.Server.Lookups

/-!
When the recursion of `router::getAsset` comes to an end.

* `Site.fileAt`: the file that a completed path leads to.
* `ended_page`: one call of `getAsset` on a completed path.
* `Responds`: some number of calls suffices for a response.
* `Settles`, `RespondsWhen`: the condition, one fallback deep.
* `responds_iff`: **when `getAsset` returns**.  A start page without a dot is
  completed each time, and no longer compares equal to the path that failed.
-/

namespace Neutralino.router

variable {site : Site} {prependData path page start : Str} {readerOptions : fs.FileReaderOptions}

/-- The file that `getAsset` reads for a completed path. -/
def Site.fileAt (site : Site) (readerOptions : fs.FileReaderOptions) (page : Str) :
    Except Fault fs.FileReaderResult := do
  site.read readerOptions (← lookupOf site.options site.mounts page)

/-! ### One call -/

/-- How a call on a completed path ends. -/
lemma ended_page (fuel : ℕ) (hpage : completed page = some page) :
    (getAsset site prependData readerOptions (fuel + 1) page).ended =
      match site.fileAt readerOptions page with
      | .error fault => some (.error fault)
      | .ok file =>
          if file.status = .NE_ST_OK then some (.ok (respond page prependData readerOptions file))
          else
            match spaFallback site.options page with
            | .error fault => some (.error fault)
            | .ok none => some (.ok (respond page prependData readerOptions file))
            | .ok (some newPath) =>
                (getAsset site prependData readerOptions fuel newPath).ended := by
  rw [getAsset, if_neg (not_lt_of_completed hpage), Site.fileAt]
  cases lookupOf site.options site.mounts page with
  | error fault => rfl
  | ok lookup =>
      simp only [ok_bind, Served.after]
      cases site.read readerOptions lookup with
      | error fault => rfl
      | ok file =>
          by_cases hstatus : file.status = .NE_ST_OK
          · simp [hstatus]
          · simp only [hstatus, if_false]
            cases spaFallback site.options page with
            | error fault => rfl
            | ok newPath => cases newPath <;> rfl

/-- `getAsset` returns a response after so many calls. -/
def RespondsIn (site : Site) (prependData : Str) (readerOptions : fs.FileReaderOptions) (fuel : ℕ)
    (path : Str) : Prop :=
  ∃ response, (getAsset site prependData readerOptions fuel path).ended = some (.ok response)

/-- `getAsset` makes finitely many calls on a path and returns a response. -/
def Responds (site : Site) (prependData : Str) (readerOptions : fs.FileReaderOptions) (path : Str) :
    Prop :=
  ∃ fuel, RespondsIn site prependData readerOptions fuel path

lemma not_respondsIn_zero : ¬ RespondsIn site prependData readerOptions 0 path := by
  rintro ⟨response, hended⟩
  cases hended

/-- The empty path does not return. -/
lemma completed_isSome_of_respondsIn {fuel : ℕ}
    (h : RespondsIn site prependData readerOptions fuel path) : ∃ page, completed path = some page := by
  cases hpage : completed path with
  | some page => exact ⟨page, rfl⟩
  | none =>
      obtain ⟨response, hended⟩ := h
      cases fuel with
      | zero => cases hended
      | succ fuel =>
          rw [getAsset_of_completed_eq_none fuel hpage] at hended
          cases hended

/-- The completion of a path takes one call. -/
lemma respondsIn_completed (fuel : ℕ) (hpage : completed path = some page) (hne : page ≠ path) :
    RespondsIn site prependData readerOptions (fuel + 1) path ↔
      RespondsIn site prependData readerOptions fuel page := by
  rw [RespondsIn, getAsset_completed site fuel hpage hne, RespondsIn]

/-- A completed path is read, and it is found, or what it falls back to returns. -/
lemma respondsIn_page (fuel : ℕ) (hpage : completed page = some page) :
    RespondsIn site prependData readerOptions (fuel + 1) page ↔
      ∃ file, site.fileAt readerOptions page = .ok file ∧
        (file.status = .NE_ST_OK ∨ ∃ fallback, spaFallback site.options page = .ok fallback ∧
          ∀ start ∈ fallback, RespondsIn site prependData readerOptions fuel start) := by
  rw [RespondsIn, ended_page fuel hpage]
  cases site.fileAt readerOptions page with
  | error fault => simp
  | ok file =>
      by_cases hstatus : file.status = .NE_ST_OK
      · simp [hstatus]
      · cases spaFallback site.options page with
        | error fault => simp [hstatus]
        | ok newPath =>
            cases newPath with
            | none => simp [hstatus]
            | some newPath => simp [hstatus, RespondsIn]

/-- A path returns where its completion does. -/
lemma responds_completed (hpage : completed path = some page) :
    Responds site prependData readerOptions path ↔ Responds site prependData readerOptions page := by
  by_cases hne : page = path
  · rw [hne]
  constructor
  · rintro ⟨fuel, h⟩
    cases fuel with
    | zero => exact absurd h not_respondsIn_zero
    | succ fuel => exact ⟨fuel, (respondsIn_completed fuel hpage hne).mp h⟩
  · rintro ⟨fuel, h⟩
    exact ⟨fuel + 1, (respondsIn_completed fuel hpage hne).mpr h⟩

/-- A completed path returns where it is found, or where its fallback does. -/
lemma responds_page (hpage : completed page = some page) :
    Responds site prependData readerOptions page ↔
      ∃ file, site.fileAt readerOptions page = .ok file ∧
        (file.status = .NE_ST_OK ∨ ∃ fallback, spaFallback site.options page = .ok fallback ∧
          ∀ start ∈ fallback, Responds site prependData readerOptions start) := by
  constructor
  · rintro ⟨fuel, h⟩
    cases fuel with
    | zero => exact absurd h not_respondsIn_zero
    | succ fuel =>
        obtain ⟨file, hfile, hreturns⟩ := (respondsIn_page fuel hpage).mp h
        exact ⟨file, hfile, hreturns.imp_right fun ⟨fallback, hfallback, hstart⟩ =>
          ⟨fallback, hfallback, fun start hmem => ⟨fuel, hstart start hmem⟩⟩⟩
  · rintro ⟨file, hfile, hfound | ⟨fallback, hfallback, hstart⟩⟩
    · exact ⟨1, (respondsIn_page 0 hpage).mpr ⟨file, hfile, .inl hfound⟩⟩
    · cases fallback with
      | none => exact ⟨1, (respondsIn_page 0 hpage).mpr ⟨file, hfile, .inr ⟨none, hfallback, nofun⟩⟩⟩
      | some start =>
          obtain ⟨fuel, h⟩ := hstart start rfl
          refine ⟨fuel + 1, (respondsIn_page fuel hpage).mpr ⟨file, hfile, .inr ⟨_, hfallback, ?_⟩⟩⟩
          rintro _ ⟨⟩
          exact h

/-! ### The condition -/

/-- The start page is not empty, what it leads to can be read, and no further
fallback follows: it is found, it names a file itself, or it is no index page. -/
def Settles (site : Site) (readerOptions : fs.FileReaderOptions) (start : Str) : Prop :=
  ∃ page file, completed start = some page ∧ site.fileAt readerOptions page = .ok file ∧
    (file.status = .NE_ST_OK ∨ page = start ∨ indexPage.test page = false)

/-- What a path leads to can be read, and it is found, or the options of the
fallback can be read and there is none, or the start page settles. -/
def RespondsWhen (site : Site) (readerOptions : fs.FileReaderOptions) (path : Str) : Prop :=
  ∃ page file, completed path = some page ∧ site.fileAt readerOptions page = .ok file ∧
    (file.status = .NE_ST_OK ∨ ∃ fallback, spaFallback site.options page = .ok fallback ∧
      ∀ start ∈ fallback, Settles site readerOptions start)

/-- Where one path falls back to the start page, another does unless it is the
start page or no index page. -/
lemma spaFallback_of_spaFallback {options : Json} (h : spaFallback options path = .ok (some start))
    (page : Str) :
    spaFallback options page =
      .ok (if page = start ∨ indexPage.test page = false then none else some start) := by
  have hstart := startPage_of_spaFallback h
  obtain ⟨jSpaServing, hserving, h⟩ := bind_eq_ok.mp h
  by_cases hnull : jSpaServing.isNull = true
  · simp [hnull, pure, Except.pure] at h
  rw [if_neg hnull] at h
  obtain ⟨serving, hbool, h⟩ := bind_eq_ok.mp h
  cases serving with
  | false => simp [pure, Except.pure] at h
  | true =>
      rw [spaFallback, hserving, ok_bind, if_neg hnull, hbool, ok_bind]
      by_cases htest : indexPage.test page = true
      · simp [htest, hstart, pure, Except.pure, eq_comm]
      · simp [htest, pure, Except.pure]

/-! ### The result -/

/-- What the start page of a fallback needs to return. -/
lemma settles_of_respondsIn (hspa : spaFallback site.options path = .ok (some start)) (fuel : ℕ)
    (h : RespondsIn site prependData readerOptions fuel start) : Settles site readerOptions start := by
  -- a start page that is completed and not found is come back to two calls later
  induction fuel using Nat.strong_induction_on with
  | _ fuel ih =>
      obtain ⟨page, hpage⟩ := completed_isSome_of_respondsIn h
      have hself := completed_completed hpage
      cases fuel with
      | zero => exact absurd h not_respondsIn_zero
      | succ fuel =>
          by_cases hne : page = start
          · obtain ⟨file, hfile, -⟩ := (respondsIn_page fuel (hne ▸ hself)).mp h
            exact ⟨page, file, hpage, hne ▸ hfile, .inr (.inl hne)⟩
          replace h := (respondsIn_completed fuel hpage hne).mp h
          cases fuel with
          | zero => exact absurd h not_respondsIn_zero
          | succ fuel =>
              obtain ⟨file, hfile, hfound | ⟨fallback, hfallback, hreturns⟩⟩ :=
                (respondsIn_page fuel hself).mp h
              · exact ⟨page, file, hpage, hfile, .inl hfound⟩
              · by_cases htest : indexPage.test page = false
                · exact ⟨page, file, hpage, hfile, .inr (.inr htest)⟩
                · rw [spaFallback_of_spaFallback hspa, if_neg (by simp [hne, htest])] at hfallback
                  exact ih fuel (by omega) (hreturns start (Except.ok.inj hfallback ▸ rfl))

/-- A start page returns exactly when it settles. -/
lemma returns_start_iff (hspa : spaFallback site.options path = .ok (some start)) :
    Responds site prependData readerOptions start ↔ Settles site readerOptions start := by
  constructor
  · rintro ⟨fuel, h⟩
    exact settles_of_respondsIn hspa fuel h
  · rintro ⟨page, file, hpage, hfile, hsettled⟩
    refine (responds_completed hpage).mpr ((responds_page (completed_completed hpage)).mpr ?_)
    refine ⟨file, hfile, hsettled.imp_right fun hlast => ?_⟩
    have hnone := spaFallback_of_spaFallback hspa page
    rw [if_pos hlast] at hnone
    exact ⟨none, hnone, nofun⟩

/-- **`getAsset` returns** exactly when what the path leads to can be read, and it
is found or falls back at most to a start page that settles. -/
theorem responds_iff (site : Site) (prependData : Str) (readerOptions : fs.FileReaderOptions)
    (path : Str) :
    Responds site prependData readerOptions path ↔ RespondsWhen site readerOptions path := by
  have hstart : ∀ {page fallback}, spaFallback site.options page = .ok fallback →
      ((∀ start ∈ fallback, Responds site prependData readerOptions start) ↔
        ∀ start ∈ fallback, Settles site readerOptions start) := by
    intro page fallback hfallback
    refine forall₂_congr fun start hmem => ?_
    obtain rfl := hmem
    exact returns_start_iff hfallback
  cases hpage : completed path with
  | none =>
      constructor
      · rintro ⟨fuel, h⟩
        obtain ⟨page, hsome⟩ := completed_isSome_of_respondsIn h
        rw [hpage] at hsome
        cases hsome
      · rintro ⟨page, _, hsome, -⟩
        rw [hpage] at hsome
        cases hsome
  | some page =>
      rw [responds_completed hpage, responds_page (completed_completed hpage)]
      constructor
      · rintro ⟨file, hfile, hreturns⟩
        refine ⟨page, file, hpage, hfile, hreturns.imp_right ?_⟩
        exact fun ⟨fallback, hfallback, h⟩ => ⟨fallback, hfallback, (hstart hfallback).mp h⟩
      · rintro ⟨page', file, hpage', hfile, hsettles⟩
        obtain rfl := Option.some.inj (hpage.symm.trans hpage')
        refine ⟨file, hfile, hsettles.imp_right ?_⟩
        exact fun ⟨fallback, hfallback, h⟩ => ⟨fallback, hfallback, (hstart hfallback).mpr h⟩

/-- A configuration with single-page serving, a start page without a dot, and no
document root. -/
def slashUrl : Json := .obj [("singlePageServe", .bool true), ("url", .str "/")]

/-- Where no file can be found, the start page `/` is completed to `/index.html`,
and this falls back to the start page, without end. -/
theorem slashUrl_not_responds :
    (∀ fuel, (getAsset (.directory slashUrl {} "/app" .empty) [] {} fuel "/index.html").ended = none) ∧
      ¬ Responds (.directory slashUrl {} "/app" .empty) [] {} "/index.html" := by
  have hpage : completed "/index.html" = some "/index.html".toList := by decide
  have hstart : completed "/" = some "/index.html".toList := by decide
  have hended : ∀ fuel,
      (getAsset (.directory slashUrl {} "/app" .empty) [] {} fuel "/index.html").ended = none ∧
        (getAsset (.directory slashUrl {} "/app" .empty) [] {} fuel "/").ended = none := by
    intro fuel
    induction fuel with
    | zero => exact ⟨rfl, rfl⟩
    | succ fuel ih =>
        rw [ended_page fuel hpage, getAsset_completed _ fuel hstart (by decide)]
        exact ⟨ih.2, ih.1⟩
  refine ⟨fun fuel => (hended fuel).1, ?_⟩
  rintro ⟨fuel, response, h⟩
  rw [(hended fuel).1] at h
  cases h

end Neutralino.router
