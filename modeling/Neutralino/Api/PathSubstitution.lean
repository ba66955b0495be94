import Neutralino.Api.PathConstants
import Neutralino.Library.Substitution

/-!
The path constants of `fs::applyPathConstants` against the names of `os::getPath`.

* `constant`, `directory`: the constant of the application path or of an accepted
  name, and what it stands for.
* `substituted`: the path with every constant replaced, all of them at once.
* `Undisturbed`: the directories put in for the constants of a path are literal, and
  no constant is found nested in what the passes have written.
* `applyPathConstants_iff`: **when the passes come to the same**: the loop leaves the
  constant of the configuration folder out.
-/

namespace Neutralino.fs

open Replace

/-- The constants: `none` is that of the application path. -/
def constant : Option Str → Str
  | none => appPathConstant
  | some name => folderConstant name

/-- The directory that a constant stands for. -/
def directory (host : Host) : Option Str → Str
  | none => host.appPath
  | some name => os.getPath host name

/-- The constants of the application path and of every name that `getPath` accepts. -/
def accepted : List (Option Str) := none :: os.knownPaths.map some

/-- The constants that are replaced, in their order. -/
def replaced : List (Option Str) := none :: pathNames.map some

/-- The pieces of a path. -/
def piecesOf (path : Str) : List (Piece (Option Str)) := pieces accepted constant path

/-- The path with every constant replaced by its directory, all of them at once. -/
def substituted (host : Host) (path : Str) : Str := render (directory host) (piecesOf path)

/-- The constant of the configuration folder. -/
def configConstant : Option Str := some "config".toList

/-- The directories put in are literal, and no pass finds a constant but those of the
path. -/
structure Undisturbed (host : Host) (path : Str) : Prop where
  isLiteral : ∀ k ∈ replaced, .key k ∈ piecesOf path → isLiteral (directory host k) = true
  nestFree : NestFree constant (directory host) (piecesOf path) [] replaced

lemma applyPathConstants_eq_replaced (host : Host) (path : Str) :
    applyPathConstants host path =
      replaced.foldl (fun s k => replaceAll (constant k) (directory host k) s) path := by
  rw [replaced, List.foldl_cons, List.foldl_map]
  rfl

/-- Only the configuration folder is accepted and not replaced. -/
lemma mem_replaced {k : Option Str} (hk : k ∈ accepted) (hne : k ≠ configConstant) :
    k ∈ replaced := by
  have hall : ∀ k ∈ accepted, k = configConstant ∨ k ∈ replaced := by decide
  exact (hall k hk).resolve_left hne

/-- The passes write the pieces with the directories of the replaced constants. -/
lemma applyPathConstants_eq_render {host : Host} {path : Str} (h : Undisturbed host path) :
    applyPathConstants host path =
      render (partly constant (directory host) replaced) (piecesOf path) := by
  have hne : ∀ k ∈ accepted, constant k ≠ [] := by decide
  have hreplaced : ∀ k ∈ replaced, constant k ≠ [] := by decide
  have hpath : render (partly constant (directory host) []) (piecesOf path) = path :=
    render_pieces hne path
  rw [applyPathConstants_eq_replaced]
  conv_lhs => rw [← hpath]
  exact foldl_replaceAll hreplaced (by decide) h.isLiteral h.nestFree

/-- The constants in the pieces of a path are accepted ones. -/
lemma mem_accepted {path : Str} {k : Option Str} (h : .key k ∈ piecesOf path) : k ∈ accepted :=
  mem_of_key_mem_pieces h

/-- **When the passes come to the same**: where the directories are literal and no
constant is nested, every constant of the path is replaced exactly when that of the
configuration folder is none of them, or its folder has that text. -/
theorem applyPathConstants_iff {host : Host} {path : Str} (h : Undisturbed host path) :
    applyPathConstants host path = substituted host path ↔
      .key configConstant ∉ piecesOf path ∨
        constant configConstant = directory host configConstant := by
  have hconfig : partly constant (directory host) replaced configConstant =
      constant configConstant := if_neg (by decide)
  have hpieces : render (partly constant (directory host) replaced) (piecesOf path) =
      render (fun k => if k = configConstant then constant k else directory host k)
        (piecesOf path) := by
    refine render_congr fun k hk => ?_
    by_cases hne : k = configConstant
    · rw [if_pos hne, hne, hconfig]
    · rw [if_neg hne, partly, if_pos (mem_replaced (mem_accepted hk) hne)]
  rw [applyPathConstants_eq_render h, hpieces, substituted,
    render_eq_iff (fun k hk => if_neg hk), if_pos rfl]

/-- A command below the application and the data folder. -/
theorem folders_substituted :
    applyPathConstants (emptyWorkDir.withFolders "/a" fun _ => "/d")
        "$\x7bNL_PATH\x7d/b:$\x7bNL_OSDATAPATH\x7d" =
      substituted (emptyWorkDir.withFolders "/a" fun _ => "/d")
        "$\x7bNL_PATH\x7d/b:$\x7bNL_OSDATAPATH\x7d" :=
  (applyPathConstants_iff ⟨by decide, by decide⟩).mpr (.inl (by decide))

/-- The constant of the configuration folder is left in the path. -/
theorem config_not_substituted :
    ¬ ∀ (host : Host) (path : Str), applyPathConstants host path = substituted host path := by
  intro h
  have hconfig := h emptyWorkDir "$\x7bNL_OSCONFIGPATH\x7d/x"
  revert hconfig
  decide

end Neutralino.fs
