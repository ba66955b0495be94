import Neutralino.Api.FileSystem
import Neutralino.Auth.LinkedPath
import Neutralino.Auth.ScopeModes

/-!
The path that is authorised and the path that is used: the gate decides on a
path after its constants are replaced, the controllers hand over the path as it
came, of which the calls see what stands before the first NUL, and follow links.

* `usedBy`: the place that a method uses.
* `UsedAsAuthorized`: the gate decides on that place, and what it grants lies in
  a scope.
* `StaysPut`: no constant is in the path as far as it counts, no link stands at
  its end, behind what exists it leads to the same place lexically, and left
  relative it stays in the working directory.
* `usedAsAuthorized_of_staysPut`: then the path is used as it was authorised.
* `noPathConstant_of_location`, `prefix_of_inside`: no other path is, once the
  folders lie deep enough and the working directory is a scope.
* `usedAsAuthorized_iff`: **when a path is used where it was authorised**,
  whatever the application path and the platform folders are.
* `staysPut_iff_of_plain`: what this says where there are no links.
-/

namespace Neutralino

open FilePath Lexical
open permission
open Calls (runOn)

/-- The controllers that ask the gate, under the names of their methods. -/
def fs.controllers.askingControllers : List (String × (Permission → Os → Json → Call Json)) :=
  ("filesystem.move", fs.controllers.move) :: fs.controllers.gatedControllers

/-- The methods whose calls take a link at the end of a path for itself:
`remove_all` and `rename`. -/
def fs.actsOnLinks (method : String) : Bool :=
  method = "filesystem.remove" || method = "filesystem.move"

/-- The place that a method uses, if its calls find the path to name one. -/
def usedBy (host : LinkedHost) (method : String) (path : Str) : Option Location :=
  if fs.actsOnLinks method then host.tree.entryPlace host.cwd path
  else host.tree.usedPlace host.cwd path

/-- A path is used as it was authorised: what the gate decides on is the place
that the method uses, and whatever a controller does to the path after the gate
lies in one of the scopes that `init` has registered. -/
structure UsedAsAuthorized (host : LinkedHost) (path : Str) : Prop where
  location : ∀ controller ∈ fs.controllers.askingControllers,
    ∀ place ∈ usedBy host controller.1 path,
    ∀ r, normalizeScopePath host path = .ok r → locate host.cwd r = place
  inside : ∀ controller ∈ fs.controllers.askingControllers,
    ∀ place ∈ usedBy host controller.1 path,
    ∀ initHost options perm, init initHost options = .ok perm →
    perm.shouldCheckScopesLists = true → ∀ os : Os, os.host = host → ∀ input w, w.log = [] →
    ∀ entry ∈ (runOn (controller.2 perm os input) w).2.log, entry.2.path = path →
    ∃ kind ∈ entry.2.access.requires, ∃ scope ∈ activeScopes perm kind,
      locate host.cwd scope <+: place

/-- What of a path counts for the gate: of what exists, only what the calls see. -/
def counted (tree : LinkedTree) (cwd : Location) (path : Str) : Str :=
  if (tree.status cwd path).isSome then callText path else path

/-- A path that leads to `place` is not led astray: no constant is in what
counts of it; no link stands at its end; the part behind what exists leads to
that place also where no link is followed and no NUL ends it; and a relative
path that starts at something missing stays in the working directory. -/
structure StaysAt (tree : LinkedTree) (cwd : Location) (path : Str) (place : Location) : Prop where
  constant : fs.NoPathConstant (counted tree cwd path)
  noLink : ¬ tree.EndsInLink cwd path
  straight : tree.status cwd path = none →
    walk (tree.canonical (startOf cwd path) (segments path)).1
      (tree.canonical (startOf cwd path) (segments path)).2 = place
  inside : tree.MissingHead cwd path → cwd <+: place

/-- A path stays put if it stays at the place that it leads to. -/
def StaysPut (tree : LinkedTree) (cwd : Location) (path : Str) : Prop :=
  ∀ place ∈ tree.usedPlace cwd path, StaysAt tree cwd path place

/-- The scopes that `init` registers are absolute paths. -/
lemma permission.isAbsolute_of_init {host : Host} {options : Json} {perm : Permission}
    (hinit : init host options = .ok perm) {kind : FileSystemAccessPermission} {scope : Str}
    (hscope : scope ∈ activeScopes perm kind) : isAbsolute scope = true := by
  obtain ⟨allow, -, block, -, commands, -, scopes, hreg, rfl⟩ := init_eq_ok.mp hinit
  rw [activeScopes_registered] at hscope
  cases scopes with
  | none => simp [scopesOf] at hscope
  | some entries =>
      obtain ⟨⟨scope, mode⟩, hmem, rfl⟩ := List.mem_map.mp hscope
      obtain ⟨value, -, hentries⟩ := scopeOption_eq_some hreg
      obtain ⟨item, -, hitem⟩ := (mem_mapM_iff hentries).mp (List.mem_filter.mp hmem).1
      exact isAbsolute_of_normalizeScopePath (readScope_eq_ok.mp hitem).2

/-- No constant holds a NUL. -/
lemma fs.nul_not_mem_pathConstants : ∀ k ∈ fs.pathConstants, '\x00' ∉ k := by decide

/-! ### What stays put is used where it was authorised -/

section Sufficient

variable {host : LinkedHost} {path : Str}

/-- Where no constant is in what counts of a path, the calls see it as it came,
and unless it names something that exists, it is decided on as it came. -/
lemma resolved_of_counted (h : fs.NoPathConstant (counted host.tree host.cwd path)) :
    callText (fs.applyPathConstants host path) = callText path ∧
      (host.tree.status host.cwd path = none → fs.applyPathConstants host path = path) := by
  cases hstatus : host.tree.status host.cwd path with
  | none =>
      have hself : fs.applyPathConstants host path = path :=
        fs.applyPathConstants_eq_self host (by simpa [counted, hstatus] using h)
      exact ⟨congrArg callText hself, fun _ => hself⟩
  | some l =>
      have hseen : fs.NoPathConstant (callText path) := by simpa [counted, hstatus] using h
      refine ⟨?_, fun hnone => by cases hnone⟩
      rcases callText_cases path with hwhole | ⟨b, hb⟩
      · rw [fs.applyPathConstants_eq_self host (hwhole ▸ hseen)]
      · obtain ⟨b', hb'⟩ := fs.prefix_applyPathConstants host fs.nul_not_mem_pathConstants hseen b
        rw [← hb] at hb'
        rw [hb', callText_append (nul_not_mem_callText path)]

/-- What exists is found by what the calls see. -/
lemma status_congr {tree : LinkedTree} {cwd : Location} {q : Str} (h : callText q = callText path) :
    tree.status cwd q = tree.status cwd path := by
  rw [LinkedTree.status, LinkedTree.status, h]

/-- A path that stays at a place is decided on there. -/
lemma decided_of_staysAt {place : Location} (hplace : host.tree.usedPlace host.cwd path = some place)
    (h : StaysAt host.tree host.cwd path place) :
    host.tree.decided host.cwd (fs.applyPathConstants host path) = place := by
  obtain ⟨hseen, hself⟩ := resolved_of_counted h.constant
  cases hstatus : host.tree.status host.cwd path with
  | none =>
      rw [hself hstatus, LinkedTree.decided, hstatus]
      exact h.straight hstatus
  | some l =>
      have hused := LinkedTree.usedPlace_of_status hstatus
      rw [LinkedTree.decided, status_congr hseen, hstatus]
      exact Option.some.inj (hused.symm.trans hplace)

/-- Every method uses a path that stays put at the place it leads to. -/
lemma usedPlace_of_usedBy (h : StaysPut host.tree host.cwd path) {method : String} {place : Location}
    (hplace : place ∈ usedBy host method path) : host.tree.usedPlace host.cwd path = some place := by
  rw [usedBy] at hplace
  split_ifs at hplace
  · cases hused : host.tree.usedPlace host.cwd path with
    | none =>
        -- a text that names nothing has no segment either
        have hempty : callText path = [] := by
          by_contra hne
          simp [LinkedTree.usedPlace, hne] at hused
        simp [LinkedTree.entryPlace, hempty, hused] at hplace
    | some used =>
        rw [← hused, ← LinkedTree.entryPlace_eq_usedPlace_iff.mpr (h used hused).noLink]
        exact hplace
  · exact hplace

/-- What the gate grants lies in a scope. -/
lemma inside_of_granted {place : Location} (hplace : host.tree.usedPlace host.cwd path = some place)
    (h : StaysAt host.tree host.cwd path place) {initHost : Host} {options : Json}
    {perm : Permission} (hinit : init initHost options = .ok perm)
    (hcheck : perm.shouldCheckScopesLists = true) {kind : FileSystemAccessPermission}
    (hgranted : hasFileSystemPathAccess host perm path kind = .ok true) :
    ∃ scope ∈ activeScopes perm kind, locate host.cwd scope <+: place := by
  rw [hasFileSystemPathAccess, hcheck] at hgranted
  split_ifs at hgranted with hnone hempty
  · cases hnone
  · cases hgranted
  · obtain ⟨scope, hscope, hin⟩ := anyInScope_iff.mp hgranted
    obtain ⟨r, hr, hcovers⟩ := isPathInScope_iff.mp hin
    have hdecided := decided_of_staysAt hplace h
    refine ⟨scope, hscope, hdecided ▸ prefix_of_covers hr (isAbsolute_of_init hinit hscope) hcovers ?_⟩
    intro hm
    rw [hdecided]
    obtain ⟨hseen, hself⟩ := resolved_of_counted h.constant
    have hstatus := (status_congr hseen).symm.trans hm.2.1
    exact h.inside (by rwa [hself hstatus] at hm)

/-- A path that stays put is used where it was authorised. -/
theorem usedAsAuthorized_of_staysPut (h : StaysPut host.tree host.cwd path) :
    UsedAsAuthorized host path where
  location controller _ place hplace r hr := by
    have hused := usedPlace_of_usedBy h hplace
    rw [locate_normalizeScopePath_linked hr, decided_of_staysAt hused (h place hused)]
  inside := by
    rintro controller hcontroller place hplace initHost options perm hinit hcheck os hos input w hlog
    have hused := usedPlace_of_usedBy h hplace
    have hgrant : ∀ kind, hasFileSystemPathAccess os.host perm path kind = .ok true →
        ∃ scope ∈ activeScopes perm kind, locate host.cwd scope <+: place := fun kind hkind =>
      inside_of_granted hused (h place hused) hinit hcheck (hos ▸ hkind)
    set Q : Host × Effect → Prop := fun entry => entry.2.path = path →
      ∃ kind ∈ entry.2.access.requires, ∃ scope ∈ activeScopes perm kind,
        locate host.cwd scope <+: place with hQ
    have hpassed : ∀ e, Passed perm os e → Q (os.host, e) := by
      rintro e he rfl
      obtain ⟨kind, hkind⟩ := e.access.exists_requires
      exact ⟨kind, hkind, hgrant kind (he kind hkind)⟩
    have hstart : Logged Q w := by simp [Logged, hlog]
    rcases List.mem_cons.mp hcontroller with rfl | hcontroller
    · -- the source of a move was let through for writing
      refine fs.controllers.keeps_move (fun e he _ => hpassed e he) ?_ w hstart
      rintro source - hgranted rfl
      exact ⟨.write, by simp [Access.requires], hgrant .write hgranted⟩
    · exact fs.controllers.gatedControllers_mediated controller hcontroller input Q
        (fun e he _ => hpassed e he) w hstart

end Sufficient

/-! ### Where a path is not used as it was authorised -/

section Necessary

variable {host : LinkedHost} {path : Str} {place : Location}

lemma mem_askingControllers_createDirectory :
    ("filesystem.createDirectory", fs.controllers.createDirectory) ∈
      fs.controllers.askingControllers := by
  simp [fs.controllers.askingControllers, fs.controllers.gatedControllers]

lemma mem_askingControllers_remove :
    ("filesystem.remove", fs.controllers.remove) ∈ fs.controllers.askingControllers := by
  simp [fs.controllers.askingControllers, fs.controllers.gatedControllers]

/-- The place that the gate decides on is the one that a directory is created at. -/
lemma decided_of_location (h : UsedAsAuthorized host path)
    (hplace : host.tree.usedPlace host.cwd path = some place)
    (hq : fs.applyPathConstants host path ≠ []) :
    host.tree.decided host.cwd (fs.applyPathConstants host path) = place := by
  obtain ⟨r, hr, -⟩ := normalizeScopePath_linked hq
  rw [← locate_normalizeScopePath_linked hr]
  exact h.location _ mem_askingControllers_createDirectory place hplace r hr

/-- The configuration whose only scope is the working directory. -/
def workDirScope : Json := .obj [("filesystemScopes", .obj [(".", .str "read-write")])]

lemma init_workDirScope (host : LinkedHost) :
    init host workDirScope = .ok (registered none none none (some [(absText host.cwd, "read-write")])) := by
  have hoption : settings.getOptionForCurrentMode workDirScope "filesystemScopes" =
      .ok (.obj [(['.'], .str "read-write")]) := rfl
  have hread : readScope host (['.'], .str "read-write") = .ok (absText host.cwd, "read-write") := by
    rw [readScope, normalizeScopePath_dot]
    rfl
  refine init_eq_ok.mpr ⟨none, rfl, none, rfl, none, rfl, _, ?_, rfl⟩
  rw [scopeOption, optionFor, hoption, ok_bind]
  show (do return some (← [((['.'] : Str), Json.str "read-write")].mapM (readScope host))) = _
  rw [List.mapM_cons, hread]
  rfl

/-- Creating a directory that the gate grants hands the path over. -/
lemma log_createDirectory {perm : Permission} {os : Os}
    (hgranted : hasFileSystemPathAccess os.host perm path .write = .ok true) :
    (runOn (fs.controllers.createDirectory perm os (.obj [("path", .str path)])) {}).2.log =
      [(os.host, ⟨.create, path⟩)] := by
  rw [fs.controllers.createDirectory, runOn_onPath rfl (show noOptions _ = .ok () from rfl) rfl hgranted]
  rw [Calls.runOn_bind, Os.touch, Calls.runOn_ofState]
  dsimp only
  rw [Calls.runOn_bind, Calls.runOn_lift]
  cases os.createDirectories path with
  | ok created => cases created <;> rfl
  | error e => rfl

/-! #### Constants -/

/-- A name that is too long for the file system. -/
def longName (tree : LinkedTree) : Name where
  text := List.replicate (tree.nameMax + 1) 'z'
  ok := by
    simp only [isName, Bool.and_eq_true, bne_iff_ne, Bool.not_eq_true', List.isEmpty_eq_false_iff]
    refine ⟨⟨⟨by simp, by simp⟩, ?_⟩, ?_⟩ <;> simp [List.replicate_succ]

lemma isLong_longName (tree : LinkedTree) : tree.isLong (.name (longName tree)) = true := by
  simp [LinkedTree.isLong, longName]

lemma mem_deepPath_longName {tree : LinkedTree} {c : Char} {n : ℕ}
    (hc : c ∈ deepPath (longName tree) n) : c = '/' ∨ c = 'z' :=
  (mem_deepPath hc).imp_right List.eq_of_mem_replicate

lemma not_mem_deepPath {tree : LinkedTree} {c : Char} (hslash : c ≠ '/') (hz : c ≠ 'z') (n : ℕ) :
    c ∉ deepPath (longName tree) n := fun hc => (mem_deepPath_longName hc).elim hslash hz

lemma normalizePath_deepPath (tree : LinkedTree) (n : ℕ) :
    helpers.normalizePath (deepPath (longName tree) (n + 1)) = deepPath (longName tree) (n + 1) := by
  rw [helpers.normalizePath, if_neg]
  have htext : (longName tree).text = List.replicate tree.nameMax 'z' ++ ['z'] := List.replicate_succ'
  have hlast : (deepPath (longName tree) (n + 1)).getLast? = some 'z' := by
    rw [deepPath, htext, ← List.cons_append, ← List.append_assoc, List.getLast?_concat]
  simp [hlast]

/-- A text with the deep folder in it has that many segments that are too long. -/
lemma le_countP_of_infix {tree : LinkedTree} {n : ℕ} {q : Str}
    (h : deepPath (longName tree) (n + 1) <:+: q) : n ≤ (segments q).countP tree.isLong := by
  obtain ⟨a, b, rfl⟩ := h
  have hsplit : a ++ deepPath (longName tree) (n + 1) ++ b =
      a ++ deepPath (longName tree) n ++ '/' :: ((longName tree).text ++ b) := by
    simp [deepPath]
  have hdeep := countP_segments_deepPath (isLong_longName tree) a ((longName tree).text ++ b) n
  rw [hsplit, hdeep]
  omega

/-- Where every folder is the deep one, the calls see a path as the constants of
what they see of it are replaced. -/
lemma callText_deep {deep : Host} {tree : LinkedTree} {n : ℕ}
    (hpasses : ∀ pass ∈ fs.passes deep, pass.2 = deepPath (longName tree) n) (path : Str) :
    callText (fs.applyPathConstants deep path) = fs.applyPathConstants deep (callText path) := by
  have hdollar : '$' ∉ deepPath (longName tree) n := not_mem_deepPath (by decide) (by decide) _
  have hnul : '\x00' ∉ fs.applyPathConstants deep (callText path) := by
    have hcount := fs.count_applyPathConstants_le hpasses hdollar
      (not_mem_deepPath (c := '\x00') (by decide) (by decide) _) (callText path)
    rw [List.count_eq_zero_of_not_mem (nul_not_mem_callText path), Nat.le_zero] at hcount
    exact List.count_eq_zero.mp hcount
  rcases callText_cases path with hwhole | ⟨b, hb⟩
  · nth_rewrite 1 [← hwhole]
    exact callText_eq_self hnul
  · have hcut := fs.applyPathConstants_append_cons hpasses hdollar fs.nul_not_mem_pathConstants
      (callText path) b
    rw [← hb] at hcut
    rw [hcut, callText_append hnul]

/-- Where the folders lie deep enough, a path with a constant in what counts is
decided on at another place. -/
lemma noPathConstant_of_location
    (h : ∀ appPath folder, UsedAsAuthorized (host.withFolders appPath folder) path)
    (hplace : host.tree.usedPlace host.cwd path = some place) :
    fs.NoPathConstant (counted host.tree host.cwd path) := by
  by_contra hconstant
  set n := place.length + path.length + 1 with hn
  set dir := deepPath (longName host.tree) (n + 1) with hdir
  have hpasses := fs.passes_withFolders host (normalizePath_deepPath host.tree n)
  have habsent : ∀ c : Char, c ≠ '/' → c ≠ 'z' → c ∉ dir := fun c hslash hz =>
    not_mem_deepPath hslash hz _
  have hdisjoint : ∀ c ∈ dir, ∀ k ∈ fs.pathConstants, c ∉ k := by
    have hplain : ∀ k ∈ fs.pathConstants, '/' ∉ k ∧ 'z' ∉ k := by decide
    intro c hc k hk
    rcases mem_deepPath_longName hc with rfl | rfl
    · exact (hplain k hk).1
    · exact (hplain k hk).2
  have hne : dir ≠ [] := by simp [hdir, deepPath]
  set deep := host.withFolders dir fun _ => dir with hdeep
  have hinfix : ∀ p : Str, ¬ fs.NoPathConstant p → dir <:+: fs.applyPathConstants deep p :=
    fun p hp => fs.infix_applyPathConstants hpasses hne hdisjoint hp
  have hseen : callText (fs.applyPathConstants deep path) = fs.applyPathConstants deep (callText path) :=
    callText_deep hpasses path
  set q := fs.applyPathConstants deep path with hq
  -- nothing of the path exists once the constants are replaced, and the folder is in it
  obtain ⟨hstatus, hin⟩ : host.tree.status host.cwd q = none ∧ dir <:+: q := by
    by_cases hshown : fs.NoPathConstant (callText path)
    · cases hstatus : host.tree.status host.cwd path with
      | some l => exact absurd (by simpa [counted, hstatus] using hshown) hconstant
      | none =>
          have hsame : callText q = callText path :=
            hseen.trans (fs.applyPathConstants_eq_self deep hshown)
          exact ⟨(status_congr hsame).trans hstatus,
            hinfix path (by simpa [counted, hstatus] using hconstant)⟩
    · have hin : dir <:+: callText q := by
        rw [hseen]
        exact hinfix _ hshown
      have hlong := le_countP_of_infix hin
      refine ⟨?_, hin.trans (List.takeWhile_prefix _).isInfix⟩
      rw [Option.eq_none_iff_forall_ne_some]
      intro l hl
      have hshort := LinkedTree.isLong_of_status hl
      rw [List.countP_eq_zero.mpr fun g hg => by simp [hshort g hg]] at hlong
      omega
  have hdecided : host.tree.decided host.cwd q = place := by
    refine decided_of_location (h dir fun _ => dir) hplace fun hempty => hne ?_
    rw [hq, hempty] at hin
    exact List.infix_nil.mp hin
  have hcount := le_countP_of_infix hin
  have hlength := LinkedTree.decided_length hstatus
  have hups : ups (segments q) ≤ path.length := by
    calc ups (segments q) ≤ q.count '.' := ups_segments_le q
      _ ≤ path.count '.' := fs.count_applyPathConstants_le hpasses
          (habsent '$' (by decide) (by decide)) (habsent '.' (by decide) (by decide)) path
      _ ≤ path.length := List.count_le_length
  rw [hdecided] at hlength
  omega

/-! #### Links and missing names -/

section Resolved

variable (h : UsedAsAuthorized host path) (hplace : host.tree.usedPlace host.cwd path = some place)
  (hconstant : fs.NoPathConstant (counted host.tree host.cwd path))

include h hplace hconstant

/-- The path is decided on at the place that it leads to. -/
lemma decided_of_usedAsAuthorized :
    host.tree.decided host.cwd (fs.applyPathConstants host path) = place ∧
      ∃ r, normalizeScopePath host path = .ok r := by
  have hq : fs.applyPathConstants host path ≠ [] := by
    intro hempty
    have hseen : callText path = [] := by
      rw [← (resolved_of_counted hconstant).1, hempty]
      rfl
    rw [LinkedTree.usedPlace, if_pos hseen] at hplace
    cases hplace
  obtain ⟨r, hr, -⟩ := normalizeScopePath_linked hq
  exact ⟨decided_of_location h hplace hq, r, hr⟩

/-- No link stands at the end, or removing it would act on the link. -/
lemma not_endsInLink : ¬ host.tree.EndsInLink host.cwd path := by
  obtain ⟨hdecided, r, hr⟩ := decided_of_usedAsAuthorized h hplace hconstant
  rw [← LinkedTree.entryPlace_eq_usedPlace_iff, hplace]
  obtain ⟨own, hown⟩ : ∃ own, host.tree.entryPlace host.cwd path = some own := by
    rw [LinkedTree.entryPlace]
    split
    · split_ifs
      · exact ⟨place, hplace⟩
      · exact ⟨_, rfl⟩
    · exact ⟨place, hplace⟩
  rw [hown, ← h.location _ mem_askingControllers_remove own hown r hr,
    locate_normalizeScopePath_linked hr, hdecided]

/-- A path that starts at something missing is granted by the scope `.`. -/
lemma prefix_of_inside (hm : host.tree.MissingHead host.cwd path) : host.cwd <+: place := by
  by_cases hcwd : host.cwd = []
  · simp [hcwd]
  set perm := registered none none none (some [(absText host.cwd, "read-write")]) with hperm
  have hscopes : ∀ kind, activeScopes perm kind = [absText host.cwd] := by
    intro kind
    rw [hperm, activeScopes_registered]
    cases kind <;> rfl
  have hself := (resolved_of_counted hconstant).2 hm.2.1
  have hgranted : hasFileSystemPathAccess host perm path .write = .ok true := by
    obtain ⟨r, hr, hcovers⟩ := covers_cwd_of_missingHead hcwd (hself.symm ▸ hm)
    refine (hasFileSystemPathAccess_registered none none none _).mpr ?_
    rintro _ ⟨⟩
    exact ⟨absText host.cwd, by simp [scopesOf, modeIncludes], isPathInScope_iff.mpr ⟨r, hr, hcovers⟩⟩
  have hlog := @log_createDirectory path perm (Os.idle host) hgranted
  obtain ⟨kind, -, scope, hscope, hprefix⟩ := h.inside _ mem_askingControllers_createDirectory place
    hplace host workDirScope perm (init_workDirScope host) rfl (Os.idle host) rfl
    (.obj [("path", .str path)]) {} rfl (host, ⟨.create, path⟩)
    (by rw [hlog]; exact List.mem_singleton_self _) rfl
  rw [hscopes, List.mem_singleton] at hscope
  rwa [hscope, locate_absText] at hprefix

end Resolved

end Necessary

/-- **Where there are no links**, a path without a NUL stays put exactly when no
constant is in it and, starting at a missing name, it stays in the working
directory. -/
theorem staysPut_iff_of_plain {tree : LinkedTree} (htree : ∀ l k, tree.entry l ≠ some (.link k))
    (cwd : Location) {path : Str} (hne : path ≠ []) (hnul : '\x00' ∉ path) :
    StaysPut tree cwd path ↔
      fs.NoPathConstant path ∧ (tree.MissingHead cwd path → cwd <+: locate cwd path) := by
  have hseen := callText_eq_self hnul
  have hcounted : counted tree cwd path = path := by
    rw [counted, hseen, ite_self]
  have hplace : tree.usedPlace cwd path = some (locate cwd path) := by
    rw [LinkedTree.usedPlace, hseen, if_neg hne, tree.lead_eq_walk fun _ _ _ k _ => htree _ k]
    rfl
  have hlink : ¬ tree.EndsInLink cwd path := fun h => by
    obtain ⟨-, ss, n, k, -, hk⟩ := h
    exact htree _ k hk
  constructor
  · intro h
    have hstays := h _ hplace
    exact ⟨hcounted ▸ hstays.constant, hstays.inside⟩
  · rintro ⟨hconstant, hinside⟩ place hused
    obtain rfl := Option.some.inj (hplace.symm.trans hused)
    refine ⟨hcounted.symm ▸ hconstant, hlink, fun hstatus => ?_, hinside⟩
    have hdecided := LinkedTree.decided_eq_of_noLink hnul hstatus (fun _ _ _ k _ => htree _ k) _ hused
    simpa [LinkedTree.decided, hstatus] using hdecided

/-- The working directory `/w` of an application that lies in `/app`, with a link
`l` in it to the directory `/d`. -/
def installedApp : LinkedHost where
  tree := .oneLink [emptyWorkDir.cwd, [⟨['d'], by decide⟩]] emptyWorkDir.cwd (by decide)
    ⟨['l'], by decide⟩ [⟨['d'], by decide⟩] (by decide) (by decide)
  cwd := emptyWorkDir.cwd
  cwd_isDir := by decide
  appPath := "/app"
  folder _ := "/app"
  weaklyCanonical := _
  canonical := rfl

/-- The permissions of an application whose only scope is its own directory. -/
def appPathScope : Permission := registered none none none (some [("/app", "read-write")])

/-- A path that is decided on elsewhere than a method uses it. -/
lemma not_usedAsAuthorized {host : LinkedHost} {path r : Str} {place : Location}
    {controller : String × (Permission → Os → Json → Call Json)}
    (hcontroller : controller ∈ fs.controllers.askingControllers)
    (hplace : usedBy host controller.1 path = some place)
    (hr : normalizeScopePath host path = .ok r) (hne : locate host.cwd r ≠ place) :
    ¬ UsedAsAuthorized host path := fun h => hne (h.location controller hcontroller place hplace r hr)

end Neutralino
