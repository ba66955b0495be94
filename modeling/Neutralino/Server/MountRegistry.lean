import Mathlib.Data.List.DropRight
import Neutralino.Api.Ungated
import Neutralino.Library.Runs

/-!
The registry of mounts over runs of `server.mount` and `server.unmount`.

* `Request`, `Serves`: the calls and what they leave.
* `MountsSound`: failed calls change nothing, an unmount takes its mount back,
  every listed path can be unmounted, and trailing slashes tell no two apart.
* `Canonical`: the keys that `normalizePath` leaves as they are; it takes one
  trailing slash off, so that not every key it makes is one.
* `mounts_sound_iff`: **when the registry is sound along a run**.
-/

namespace Neutralino.server

open Calls (runOn runOn_bind runOn_lift runOn_ofState)
open Runs (Run Along)
open router (MountTable Mountable mountKey isMounted mountPath_cases)

/-! ### The calls -/

/-- A call, with the answers of the operating system during a mount. -/
inductive Request where
  | mount (os : Os) (path target : Str)
  | unmount (path : Str)

/-- The controller that a call runs, on its data. -/
def Request.call : Request → Call Json
  | .mount os path target =>
      server.mount os (.obj [("path", .str path), ("target", .str target)])
  | .unmount path => server.unmount (.obj [("path", .str path)])

/-- The steps: the calls, whether they succeed or fail. -/
def Serves (w : World) (request : Request) (w' : World) : Prop := w' = (runOn request.call w).2

/-- A call reports an error: it throws, or its output holds one. -/
def ReportsError (answer : Except Fault Json) : Prop :=
  ∀ output, answer = .ok output → output.contains "error" = true

/-- The paths that `getMounts` lists. -/
def listed (w : World) : List Str := w.mounts.entries.map Prod.fst

/-- `getMounts` lists them. -/
lemma runOn_getMounts (input : Json) (w : World) :
    ∃ members, runOn (getMounts input) w = (.ok (returned .null (.obj members)), w) ∧
      members.map Prod.fst = listed w := by
  refine ⟨w.mounts.entries.map fun m => (m.1, .str m.2), rfl, ?_⟩
  rw [listed, List.map_map]
  rfl

/-! ### Soundness -/

/-- Two paths that differ in trailing slashes at most. -/
def SameButSlashes (u v : Str) : Prop := u.rdropWhile (· = '/') = v.rdropWhile (· = '/')

/-- The registry is sound: a call that reports an error leaves it as it is, an
unmount of the path of a mount restores it, every path that is listed can be
unmounted, and no two of them differ only in trailing slashes. -/
structure MountsSound (w : World) : Prop where
  errors : ∀ request, ReportsError (runOn (Request.call request) w).1 →
    (runOn (Request.call request) w).2.mounts = w.mounts
  restores : ∀ os path target, ¬ ReportsError (runOn (Request.call (.mount os path target)) w).1 →
    (runOn (Request.call (.unmount path)) (runOn (Request.call (.mount os path target)) w).2).2.mounts =
      w.mounts
  unmounts : ∀ key ∈ listed w, ¬ ReportsError (runOn (Request.call (.unmount key)) w).1 ∧
    listed (runOn (Request.call (.unmount key)) w).2 = (listed w).filter (· ≠ key)
  slashes : ∀ key ∈ listed w, ∀ key' ∈ listed w, SameButSlashes key key' → key = key'

/-- A path ends in two slashes after something else. -/
def EndsInSlashes (path : Str) : Prop := ∃ u, u ≠ [] ∧ path = u ++ ['/', '/']

/-- The condition on a call: a path that can be mounted does not end in two
slashes after something else. -/
def KeepsCanonical (w : World) : Request → Prop
  | .mount os path target => Mountable os.disk w.mounts path target → ¬ EndsInSlashes path
  | .unmount _ => True

/-! ### What the calls do -/

section Calls

variable {w : World} {os : Os} {path target : Str}

/-- What `mount` does once it has its fields. -/
lemma runOn_mount : runOn (Request.call (.mount os path target)) w =
    match router.mountPath os.disk w.mounts path target with
    | .error fault => (.error fault, w)
    | .ok result =>
        if result.status = .NE_ST_OK then
          (.ok (reported .null (result.path ++ " mounts to ".toList ++ result.target)),
            { w with mounts := result.table, log := w.log ++ [(os.host, ⟨.expose, result.target⟩)] })
        else (.ok (failed .null result.status result.target), { w with mounts := result.table }) := by
  have hfields : helpers.missingRequiredField (.obj [("path", .str path), ("target", .str target)])
      ["path", "target"] = .ok none := by rfl
  have hpath : textField (.obj [("path", .str path), ("target", .str target)]) "path" = .ok path := by
    rfl
  have htarget : textField (.obj [("path", .str path), ("target", .str target)]) "target" =
      .ok target := by rfl
  rw [Request.call, mount, requiring, runOn_bind, runOn_lift, hfields]
  dsimp only
  rw [runOn_bind, runOn_lift, hpath]
  dsimp only
  rw [runOn_bind, runOn_lift, htarget]
  dsimp only
  rw [runOn_bind, runOn_ofState]
  cases router.mountPath os.disk w.mounts path target with
  | error fault => rfl
  | ok result =>
      dsimp only
      split_ifs <;> rfl

/-- What `unmount` does once it has its field. -/
lemma runOn_unmount : runOn (Request.call (.unmount path)) w =
    (.ok (if (router.unmountPath w.mounts path).1 then
      reported .null ((router.unmountPath w.mounts path).2.1 ++ " unmounted".toList)
      else failed .null .NE_SR_NOMTPTH (router.unmountPath w.mounts path).2.1),
      { w with mounts := (router.unmountPath w.mounts path).2.2 }) := by
  have htext : textField (.obj [("path", .str path)]) "path" = .ok path := by rfl
  rw [Request.call, unmount, runOn_bind, runOn_lift, htext]
  dsimp only
  rw [runOn_bind, runOn_ofState]
  dsimp only
  split_ifs <;> rfl

lemma reportsError_failed (code : errors.StatusCode) (param : Str) :
    ReportsError (.ok (failed .null code param)) := by
  rintro output ⟨⟩
  rfl

lemma not_reportsError_reported (message : Str) :
    ¬ ReportsError (.ok (reported .null message)) := by
  intro h
  have hcontains : (reported .null message).contains "error" = true := h _ rfl
  have hnot : (reported .null message).contains "error" = false := by rfl
  rw [hnot] at hcontains
  cases hcontains

/-- A path is mounted exactly if it is listed. -/
lemma isMounted_iff {key : Str} : isMounted w.mounts key = true ↔ key ∈ listed w := by
  simp [isMounted, listed]

/-- A mount of what can be mounted enters it. -/
lemma mount_of_mountable (h : Mountable os.disk w.mounts path target) :
    ¬ ReportsError (runOn (Request.call (.mount os path target)) w).1 ∧
      (runOn (Request.call (.mount os path target)) w).2.mounts.entries =
        insertMember (mountKey path) (helpers.normalizePath target) w.mounts.entries := by
  obtain ⟨-, result, hresult, hstatus, htable⟩ | ⟨hnot, -⟩ :=
    mountPath_cases os.disk w.mounts path target
  · rw [runOn_mount, hresult]
    dsimp only
    rw [if_pos hstatus]
    exact ⟨not_reportsError_reported _, htable⟩
  · exact absurd h hnot

/-- A mount of anything else reports an error and leaves the registry. -/
lemma mount_of_not_mountable (h : ¬ Mountable os.disk w.mounts path target) :
    ReportsError (runOn (Request.call (.mount os path target)) w).1 ∧
      (runOn (Request.call (.mount os path target)) w).2.mounts = w.mounts := by
  rw [runOn_mount]
  obtain ⟨hmountable, -⟩ | ⟨-, ⟨fault, hfault⟩ | ⟨result, hresult, hstatus, htable⟩⟩ :=
    mountPath_cases os.disk w.mounts path target
  · exact absurd hmountable h
  · rw [hfault]
    exact ⟨nofun, rfl⟩
  · rw [hresult]
    dsimp only
    rw [if_neg hstatus]
    exact ⟨reportsError_failed _ _, htable⟩

/-- A mount reports no error exactly if it can be made. -/
lemma not_reportsError_mount_iff :
    ¬ ReportsError (runOn (Request.call (.mount os path target)) w).1 ↔
      Mountable os.disk w.mounts path target := by
  constructor
  · intro h
    by_contra hnot
    exact h (mount_of_not_mountable hnot).1
  · exact fun h => (mount_of_mountable h).1

/-- An unmount of a key that is listed takes it out. -/
lemma unmount_of_listed (h : mountKey path ∈ listed w) :
    ¬ ReportsError (runOn (Request.call (.unmount path)) w).1 ∧
      (runOn (Request.call (.unmount path)) w).2.mounts.entries =
        w.mounts.entries.filter fun m => m.1 ≠ mountKey path := by
  have hmounted := isMounted_iff.mpr h
  rw [runOn_unmount, router.unmountPath, if_pos hmounted]
  exact ⟨not_reportsError_reported _, rfl⟩

/-- An unmount of anything else reports an error and leaves the registry. -/
lemma unmount_of_not_listed (h : mountKey path ∉ listed w) :
    ReportsError (runOn (Request.call (.unmount path)) w).1 ∧
      (runOn (Request.call (.unmount path)) w).2.mounts = w.mounts := by
  have hfree : ¬ isMounted w.mounts (mountKey path) = true := fun hm => h (isMounted_iff.mp hm)
  rw [runOn_unmount, router.unmountPath, if_neg hfree]
  exact ⟨reportsError_failed _ _, rfl⟩

end Calls

/-! ### Canonical keys -/

/-- A key that ends in a slash is nothing else. -/
def Canonical (key : Str) : Prop := key.getLast? = some '/' → key = ['/']

section Keys

variable {path key key' : Str}

/-- A trailing slash is taken off. -/
lemma mountKey_append_slash (hne : path ≠ []) : mountKey (path ++ ['/']) = path := by
  have hlength : 1 < (path ++ ['/']).length := by
    have := List.length_pos_iff.mpr hne
    simpa using this
  have hnorm : helpers.normalizePath (path ++ ['/']) = path := by
    rw [helpers.normalizePath, if_pos ⟨hlength, by simp⟩, List.dropLast_concat]
  rw [mountKey, hnorm, if_neg hne]

/-- Any other path is kept. -/
lemma mountKey_of_kept (hne : path ≠ []) (h : ¬ (1 < path.length ∧ path.getLast? = some '/')) :
    mountKey path = path := by
  have hnorm : helpers.normalizePath path = path := by rw [helpers.normalizePath, if_neg h]
  rw [mountKey, hnorm, if_neg hne]

lemma endsInSlashes_concat_iff {c : Char} :
    EndsInSlashes (path ++ [c]) ↔ c = '/' ∧ ∃ u, u ≠ [] ∧ path = u ++ ['/'] := by
  constructor
  · rintro ⟨u, hu, h⟩
    have h' : path ++ [c] = u ++ ['/'] ++ ['/'] := by simpa using h
    obtain ⟨rfl, hc⟩ := List.append_inj' h' rfl
    exact ⟨by simpa using hc, u, hu, rfl⟩
  · rintro ⟨rfl, u, hu, rfl⟩
    exact ⟨u, hu, by simp⟩

/-- The key of a path is canonical unless it ends in two slashes. -/
lemma canonical_mountKey_iff : Canonical (mountKey path) ↔ ¬ EndsInSlashes path := by
  rcases List.eq_nil_or_concat path with rfl | ⟨u, c, rfl⟩
  · refine iff_of_true (fun _ => rfl) ?_
    rintro ⟨u, -, h⟩
    exact absurd (congrArg List.length h) (by simp)
  · rw [List.concat_eq_append, endsInSlashes_concat_iff]
    by_cases hcut : c = '/' ∧ u ≠ []
    · obtain ⟨rfl, hu⟩ := hcut
      rw [mountKey_append_slash hu, Canonical]
      rcases List.eq_nil_or_concat u with rfl | ⟨v, d, rfl⟩
      · exact absurd rfl hu
      · rw [List.concat_eq_append]
        by_cases hd : d = '/'
        · subst hd
          simp
        · simp [hd]
    · have hkept : ¬ (1 < (u ++ [c]).length ∧ (u ++ [c]).getLast? = some '/') := by
        rintro ⟨hlength, hlast⟩
        refine hcut ⟨by simpa using hlast, ?_⟩
        rintro rfl
        simp at hlength
      rw [mountKey_of_kept (by simp) hkept, Canonical]
      by_cases hc : c = '/'
      · subst hc
        obtain rfl : u = [] := by simpa using hcut
        simp
      · simp [hc]

/-- A canonical key is the key of itself, and no other is. -/
lemma mountKey_eq_self_iff (hne : key ≠ []) : mountKey key = key ↔ Canonical key := by
  by_cases hcut : 1 < key.length ∧ key.getLast? = some '/'
  · obtain ⟨u, rfl⟩ := List.getLast?_eq_some_iff.mp hcut.2
    have hu : u ≠ [] := by
      rintro rfl
      simp at hcut
    rw [mountKey_append_slash hu]
    refine iff_of_false (fun h => ?_) fun h => ?_
    · exact absurd (congrArg List.length h) (by simp)
    · exact hu (by simpa using h hcut.2)
  · refine iff_of_true (mountKey_of_kept hne hcut) fun hlast => ?_
    have hlength : key.length = 1 := by
      have := List.length_pos_iff.mpr hne
      by_contra hlong
      exact hcut ⟨by omega, hlast⟩
    obtain ⟨c, rfl⟩ := List.length_eq_one_iff.mp hlength
    simpa using hlast

/-- Two canonical keys that differ in trailing slashes at most are the same. -/
lemma Canonical.eq_of_sameButSlashes (h : Canonical key) (h' : Canonical key') (hne : key ≠ [])
    (hne' : key' ≠ []) (hsame : SameButSlashes key key') : key = key' := by
  have hstrip : ∀ {k : Str}, Canonical k → k ≠ [] →
      k = ['/'] ∧ k.rdropWhile (· = '/') = [] ∨ k.rdropWhile (· = '/') = k := by
    intro k hk hk'
    by_cases hlast : k.getLast? = some '/'
    · rw [hk hlast]
      exact .inl ⟨rfl, rfl⟩
    · refine .inr (List.rdropWhile_eq_self_iff.mpr fun hl hslash => hlast ?_)
      rw [List.getLast?_eq_some_getLast hl]
      simpa using hslash
  rw [SameButSlashes] at hsame
  rcases hstrip h hne with ⟨rfl, hnil⟩ | hself
  · rcases hstrip h' hne' with ⟨rfl, -⟩ | hself'
    · rfl
    · exact absurd (hself'.symm.trans (hsame.symm.trans hnil)) hne'
  · rcases hstrip h' hne' with ⟨rfl, hnil'⟩ | hself'
    · exact absurd (hself.symm.trans (hsame.trans hnil')) hne
    · rw [← hself, hsame, hself']

end Keys

/-! ### Runs -/

section Runs

variable {w w' : World} {request : Request}

lemma ne_nil_of_mem_listed {key : Str} (h : key ∈ listed w) : key ≠ [] := by
  obtain ⟨m, hm, rfl⟩ := List.mem_map.mp h
  exact w.mounts.path_ne_nil m hm

/-- What an unmount of a listed key leaves. -/
lemma listed_unmount {path : Str} (h : mountKey path ∈ listed w) :
    listed (runOn (Request.call (.unmount path)) w).2 = (listed w).filter (· ≠ mountKey path) := by
  rw [listed, (unmount_of_listed h).2, listed, List.filter_map]
  rfl

/-- A refused call leaves the registry. -/
lemma mounts_of_reportsError (herror : ReportsError (runOn request.call w).1) :
    (runOn request.call w).2.mounts = w.mounts := by
  cases request with
  | mount os path target =>
      have hnot : ¬ Mountable os.disk w.mounts path target := fun hm =>
        (mount_of_mountable hm).1 herror
      exact (mount_of_not_mountable hnot).2
  | unmount path =>
      have hnot : mountKey path ∉ listed w := fun hm => (unmount_of_listed hm).1 herror
      exact (unmount_of_not_listed hnot).2

/-- An unmount takes its mount back. -/
lemma mounts_unmount_mount {os : Os} {path target : Str} (h : Mountable os.disk w.mounts path target) :
    (runOn (Request.call (.unmount path))
      (runOn (Request.call (.mount os path target)) w).2).2.mounts = w.mounts := by
  have hentries := (mount_of_mountable h).2
  have hfree : mountKey path ∉ listed w := fun hm => by
    have hmounted := isMounted_iff.mpr hm
    rw [h.2] at hmounted
    cases hmounted
  have hlisted : mountKey path ∈ listed (runOn (Request.call (.mount os path target)) w).2 := by
    rw [listed, hentries]
    exact List.mem_map.mpr ⟨_, mem_insertMember_self _ _ _, rfl⟩
  refine MountTable.eq_of_entries ?_
  rw [(unmount_of_listed hlisted).2, hentries]
  exact filter_insertMember _ hfree

/-- **Only canonical keys are sound**: the others cannot be unmounted. -/
lemma mountsSound_iff : MountsSound w ↔ ∀ key ∈ listed w, Canonical key := by
  constructor
  · intro h key hkey
    have hne := ne_nil_of_mem_listed hkey
    obtain ⟨hsucceeds, hlisted⟩ := h.unmounts key hkey
    refine (mountKey_eq_self_iff hne).mp ?_
    by_contra hother
    by_cases hmounted : mountKey key ∈ listed w
    · -- another key is unmounted in its place
      rw [listed_unmount hmounted] at hlisted
      have hmem : key ∈ (listed w).filter (· ≠ mountKey key) :=
        List.mem_filter.mpr ⟨hkey, by simpa using Ne.symm hother⟩
      rw [hlisted] at hmem
      simpa using (List.mem_filter.mp hmem).2
    · exact hsucceeds (unmount_of_not_listed hmounted).1
  · intro h
    refine ⟨fun request => mounts_of_reportsError,
      fun os path target hsucceeds => mounts_unmount_mount (not_reportsError_mount_iff.mp hsucceeds),
      fun key hkey => ?_, fun key hkey key' hkey' hsame => ?_⟩
    · have hself := (mountKey_eq_self_iff (ne_nil_of_mem_listed hkey)).mpr (h key hkey)
      have hmounted : mountKey key ∈ listed w := by rwa [hself]
      refine ⟨(unmount_of_listed hmounted).1, ?_⟩
      rw [listed_unmount hmounted, hself]
    · exact (h key hkey).eq_of_sameButSlashes (h key' hkey') (ne_nil_of_mem_listed hkey)
        (ne_nil_of_mem_listed hkey') hsame

/-- A call keeps a sound registry sound exactly under its condition. -/
lemma MountsSound.step_iff (hw : MountsSound w) (h : Serves w request w') :
    MountsSound w' ↔ KeepsCanonical w request := by
  obtain rfl : w' = (runOn request.call w).2 := h
  rw [mountsSound_iff] at hw ⊢
  cases request with
  | unmount path =>
      refine iff_of_true ?_ trivial
      by_cases hmounted : mountKey path ∈ listed w
      · rw [listed_unmount hmounted]
        exact fun key hkey => hw key (List.mem_of_mem_filter hkey)
      · rw [listed, (unmount_of_not_listed hmounted).2]
        exact hw
  | mount os path target =>
      by_cases hmountable : Mountable os.disk w.mounts path target
      · have hlisted : ∀ key, key ∈ listed (runOn (Request.call (.mount os path target)) w).2 ↔
            key = mountKey path ∨ key ∈ listed w := by
          have hfree : mountKey path ∉ listed w := fun hm => by
            have hmounted := isMounted_iff.mpr hm
            rw [hmountable.2] at hmounted
            cases hmounted
          intro key
          rw [listed, (mount_of_mountable hmountable).2,
            ((insertMember_perm _ hfree).map Prod.fst).mem_iff, List.map_cons, List.mem_cons]
          rfl
        rw [KeepsCanonical, ← canonical_mountKey_iff]
        constructor
        · exact fun h _ => h _ ((hlisted _).mpr (.inl rfl))
        · intro h key hkey
          rcases (hlisted key).mp hkey with rfl | hkey
          · exact h hmountable
          · exact hw key hkey
      · refine iff_of_true ?_ fun h => absurd h hmountable
        rw [listed, (mount_of_not_mountable hmountable).2]
        exact hw

/-- **The registry is sound along a run** from the empty one exactly if no path that
is mounted ends in two slashes after something else. -/
theorem mounts_sound_iff (hempty : w.mounts = {}) {trace : List (Request × World)}
    (h : Run Serves w trace) :
    (MountsSound w ∧ ∀ x ∈ trace, MountsSound x.2) ↔ Along KeepsCanonical w trace := by
  have hsound : MountsSound w := by
    rw [mountsSound_iff, listed, hempty]
    simp
  rw [and_iff_right hsound]
  exact h.good_iff (I := fun _ => True) (fun _ _ _ _ _ => trivial)
    (fun _ _ _ _ hs hst => hs.step_iff hst) trivial hsound

/-- An operating system with one directory. -/
def dataOs : Os :=
  { Os.idle emptyWorkDir with
    disk := {
      kindOf path := .ok (if path = "/data".toList then some .directory else none)
      kindOf_nil := by decide
      openForRead _ := .closed } }

/-- A directory is mounted with a trailing slash. -/
def mountedRun : List (Request × World) :=
  [(.mount dataOs "/app/" "/data", (runOn (Request.call (.mount dataOs "/app/" "/data")) {}).2)]

theorem mountedRun_sound : MountsSound {} ∧ ∀ x ∈ mountedRun, MountsSound x.2 := by
  refine (mounts_sound_iff rfl (.cons rfl (.nil _))).mpr ⟨fun _ => ?_, trivial⟩
  refine canonical_mountKey_iff.mp ?_
  have hkey : mountKey "/app/" = "/app".toList := by decide
  rw [hkey, Canonical]
  decide

/-- With two trailing slashes the path is listed with one of them, and cannot be
unmounted. -/
theorem doubleSlash_stuck :
    ¬ ∀ (w : World) (trace : List (Request × World)), w.mounts = {} → Run Serves w trace →
      MountsSound w ∧ ∀ x ∈ trace, MountsSound x.2 := by
  intro h
  have hrun : Run Serves {} [(.mount dataOs "/app//" "/data",
      (runOn (Request.call (.mount dataOs "/app//" "/data")) {}).2)] := .cons rfl (.nil _)
  have hsound := (h {} _ rfl hrun).2 _ List.mem_cons_self
  have hmountable : Mountable dataOs.disk ({} : World).mounts "/app//" "/data" := ⟨rfl, rfl⟩
  have hlisted : "/app/".toList ∈
      listed (runOn (Request.call (.mount dataOs "/app//" "/data")) {}).2 := by
    rw [listed, (mount_of_mountable hmountable).2]
    decide
  have hcanonical := mountsSound_iff.mp hsound _ hlisted
  exact absurd (hcanonical rfl) (by decide)

end Runs

end Neutralino.server
