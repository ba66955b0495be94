import Neutralino.Api.Ungated
import Neutralino.Library.Runs

/-!
The registry of file watchers: `fs::createWatcher`, `fs::removeWatcher` and what
`filesystem.getWatchers` lists, next to the watches that the library holds.

* `Watch`: a watch of the library.  Watches are recursive: a watch brings watches of the
  directories below it, and its removal ends these too.
* `Watchers`: `watchListeners`, the watches of the library, and the paths that it was asked
  to watch.
* `createWatcher`, `removeWatcher`, `getWatchers`: one step each, since each of them
  holds the lock; `runOn_createWatcher`, `runOn_removeWatcher` and
  `runOn_getWatchers` say that they are what the native methods do.
* `RegistrySound`: every entry is an active watch of its path, and no path stands twice.
* `watchers_sound_iff`: **when the registry is sound**.  A refused path is entered with the
  error code as its id, and a removal may end the watch of another entry below it, so this
  holds along a run exactly if no path is refused and no such watch is ended.
-/

namespace Neutralino.fs

open Runs Calls

variable {δ : Type}

/-- A watch that the library holds: its id, the directory it is on, and the ids of the watches
in whose trees it stands (`Parent`). -/
structure Watch (δ : Type) where
  id : ℤ
  directory : δ
  parents : List ℤ := []

/-- `mWatches.insert`: an id that is there keeps its watch. -/
def insertWatch (watches : List (Watch δ)) (watch : Watch δ) : List (Watch δ) :=
  if watches.any fun held => held.id = watch.id then watches else watches ++ [watch]

/-- What the library answers when it is asked for a watch: its id, or an error code, and the
watches that it brings of the directories below. -/
structure Answer (δ : Type) where
  id : ℤ
  below : List (Watch δ) := []

/-- The watches of the library after `addWatch`. -/
def addWatch (watches : List (Watch δ)) (answer : Answer δ) (directory : δ) : List (Watch δ) :=
  if 0 < answer.id then (⟨answer.id, directory, []⟩ :: answer.below).foldl insertWatch watches
  else watches

/-- The watches of the library after `removeWatch`: the watch is ended, and those in its tree. -/
def removeWatch (watches : List (Watch δ)) (watchId : ℤ) : List (Watch δ) :=
  watches.filter fun watch => watch.id ≠ watchId ∧ watchId ∉ watch.parents

/-- `watchListeners`, with the watches of the library and the paths that it was asked to watch
so far. -/
structure Watchers (δ : Type) where
  watchListeners : List (ℤ × Str) := []
  watches : List (Watch δ) := []
  asked : List Str := []

/-- `createWatcher`, where the library answers `answer` if it is asked and `directoryOf` tells
the directory of a path: what it returns, and the registry. -/
def createWatcher (directoryOf : Str → δ) (answer : Answer δ) (s : Watchers δ) (path : Str) :
    ℤ × Watchers δ :=
  match s.watchListeners.find? fun watcher => watcher.2 = path with
  | some watcher => (watcher.1, s)
  | none => (answer.id, {
      watchListeners := insertMember answer.id path s.watchListeners
      watches := addWatch s.watches answer (directoryOf path)
      asked := s.asked ++ [path] })

/-- `removeWatcher`. -/
def removeWatcher (s : Watchers δ) (watcherId : ℤ) : Bool × Watchers δ :=
  if s.watchListeners.any fun watcher => watcher.1 = watcherId then
    (true, {
      watchListeners := s.watchListeners.filter fun watcher => watcher.1 ≠ watcherId
      watches := removeWatch s.watches watcherId
      asked := s.asked })
  else (false, s)

/-- `getWatchers`. -/
def getWatchers (s : Watchers δ) : List (ℤ × Str) := s.watchListeners

/-! ### The native methods -/

/-- `createWatcher` is what `filesystem.createWatcher` calls. -/
lemma runOn_createWatcher (os : Os) (path : Str) (directoryOf : Str → δ) (below : List (Watch δ))
    (s : Watchers δ) {w : World} (h : w.watchListeners = s.watchListeners) :
    runOn (os.createWatcher path) w =
      (.ok (createWatcher directoryOf ⟨os.addWatch path, below⟩ s path).1, { w with
        watchListeners :=
          (createWatcher directoryOf ⟨os.addWatch path, below⟩ s path).2.watchListeners
        log := w.log ++ [(os.host, ⟨.watch, path⟩)] }) := by
  rw [Os.createWatcher, runOn_bind, createWatcher, ← h]
  simp only [Os.touch, runOn_ofState]
  cases w.watchListeners.find? fun watcher => watcher.2 = path with
  | none => rfl
  | some watcher => simp [h]

/-- `removeWatcher` is what `filesystem.removeWatcher` calls. -/
lemma runOn_removeWatcher {input : Json} {watcherId : ℤ}
    (hid : input.indexConst "id".toList = .ok (.num watcherId)) (s : Watchers δ) {w : World}
    (h : w.watchListeners = s.watchListeners) :
    runOn (controllers.removeWatcher input) w =
      (.ok (if (removeWatcher s watcherId).1 then returned .null (.num watcherId)
        else failed .null .NE_FS_NOWATID (decimal watcherId)),
      { w with watchListeners := (removeWatcher s watcherId).2.watchListeners }) := by
  have hfields : helpers.missingRequiredField input ["id".toList] = .ok none := by
    rw [helpers.missingRequiredField, helpers.hasField_of_indexConst hid]
    rfl
  rw [controllers.removeWatcher, requiring, runOn_bind, runOn_lift, hfields]
  dsimp only
  rw [runOn_bind, runOn_lift, hid]
  dsimp only
  rw [runOn_bind, runOn_lift, Json.getLong]
  dsimp only
  rw [runOn_bind, runOn_ofState, removeWatcher, ← h]
  dsimp only
  cases hany : w.watchListeners.any fun watcher => watcher.1 = watcherId with
  | true => rfl
  | false =>
      have hfilter : (w.watchListeners.filter fun watcher => watcher.1 ≠ watcherId) = w.watchListeners := by
        refine List.filter_eq_self.mpr fun watcher hwatcher => ?_
        simpa using List.any_eq_false.mp hany watcher hwatcher
      rw [hfilter]
      simp [h]

/-- `getWatchers` is what `filesystem.getWatchers` puts out. -/
lemma runOn_getWatchers (input : Json) (s : Watchers δ) {w : World}
    (h : w.watchListeners = s.watchListeners) :
    runOn (controllers.getWatchers input) w =
      (.ok (returned .null (.arr ((getWatchers s).map controllers.watcherJson))), w) := by
  rw [getWatchers, ← h]
  rfl

/-! ### Runs -/

/-- What is called: `createWatcher`, with what the library would answer, and
`removeWatcher`. -/
inductive WatcherOp (δ : Type) where
  | createWatcher (path : Str) (answer : Answer δ)
  | removeWatcher (watcherId : ℤ)

variable (directoryOf : Str → δ)

/-- What the library may answer: an error, or a positive id that no entry has, of a new watch or
of one that it holds already on the directory of the path, as part of another's tree. -/
def Answers (s : Watchers δ) (path : Str) (answer : Answer δ) : Prop :=
  0 < answer.id ∧ answer.id ∉ s.watchListeners.map Prod.fst ∧
      (∀ watch ∈ s.watches, watch.id = answer.id → watch.directory = directoryOf path) ∨
    answer.id < 0

/-- The steps: the calls.  Between them the directories that are watched stay. -/
inductive WatcherStep : Watchers δ → WatcherOp δ → Watchers δ → Prop
  | createWatcher {s : Watchers δ} {path : Str} {answer : Answer δ} :
      Answers directoryOf s path answer →
        WatcherStep s (.createWatcher path answer) (fs.createWatcher directoryOf answer s path).2
  | removeWatcher (s : Watchers δ) (watcherId : ℤ) :
      WatcherStep s (.removeWatcher watcherId) (fs.removeWatcher s watcherId).2

/-- The path has an entry. -/
def Watchers.Registered (s : Watchers δ) (path : Str) : Prop :=
  ∃ watcher ∈ s.watchListeners, watcher.2 = path

/-- A call of `createWatcher` asks the library for a watch. -/
def Watchers.Asks (s : Watchers δ) (path : Str) : Prop :=
  ∀ answer, (createWatcher directoryOf answer s path).2.asked = s.asked ++ [path]

/-- An entry is an active watch of its path. -/
def Watchers.Active (s : Watchers δ) (watcher : ℤ × Str) : Prop :=
  ∃ watch ∈ s.watches, watch.id = watcher.1 ∧ watch.directory = directoryOf watcher.2

/-- Every entry is an active watch of its path with a positive id, no path has two entries,
and a path without an active watch is asked for. -/
structure RegistrySound (s : Watchers δ) : Prop where
  active : ∀ watcher ∈ s.watchListeners, 0 < watcher.1 ∧ s.Active directoryOf watcher
  paths : (s.watchListeners.map Prod.snd).Nodup
  asks : ∀ path, (∀ watch ∈ s.watches, watch.directory ≠ directoryOf path) →
    s.Asks directoryOf path

/-- What a call leaves: an entry of the path is returned and nothing changes, and
a refusal leaves the registry and is not remembered. -/
def CallSound (s : Watchers δ) : WatcherOp δ → Prop
  | .createWatcher path answer =>
      (∀ watcher ∈ s.watchListeners, watcher.2 = path →
        createWatcher directoryOf answer s path = (watcher.1, s)) ∧
      (¬ s.Registered path → answer.id < 0 →
        getWatchers (createWatcher directoryOf answer s path).2 = getWatchers s ∧
          (createWatcher directoryOf answer s path).2.Asks directoryOf path)
  | .removeWatcher _ => True

/-- The library does not refuse a path that has no entry, and an entry that is removed has the
watch of no other entry in its tree. -/
def Granted (s : Watchers δ) : WatcherOp δ → Prop
  | .createWatcher path answer => ¬ s.Registered path → 0 < answer.id
  | .removeWatcher watcherId => watcherId ∈ s.watchListeners.map Prod.fst →
      ∀ watcher ∈ s.watchListeners, watcher.1 ≠ watcherId →
        ∀ watch ∈ s.watches, watch.id = watcher.1 → watcherId ∉ watch.parents

/-! ### The watches of the library -/

/-- The library holds one watch for an id. -/
def Distinct (watches : List (Watch δ)) : Prop := (watches.map Watch.id).Nodup

section Library

variable {watches : List (Watch δ)} {watch : Watch δ} {answer : Answer δ} {directory : δ}
  {watchId : ℤ}

lemma mem_insertWatch_of_mem {held : Watch δ} (h : held ∈ watches) :
    held ∈ insertWatch watches watch := by
  rw [insertWatch]
  split_ifs
  · exact h
  · exact List.mem_append_left _ h

lemma distinct_insertWatch (h : Distinct watches) (watch : Watch δ) :
    Distinct (insertWatch watches watch) := by
  rw [insertWatch]
  split_ifs with hheld
  · exact h
  · have hnew : watch.id ∉ watches.map Watch.id := by
      intro hmem
      obtain ⟨held, hmem, hid⟩ := List.mem_map.mp hmem
      exact hheld (List.any_eq_true.mpr ⟨held, hmem, by simpa using hid⟩)
    rw [Distinct, List.map_append, List.map_singleton]
    exact h.append (List.nodup_singleton _) (List.disjoint_singleton.mpr hnew)

/-- A watch that was there is there after an insertion, or one that was inserted. -/
lemma exists_mem_insertWatch (watches : List (Watch δ)) (watch : Watch δ) :
    ∃ held ∈ insertWatch watches watch, held.id = watch.id ∧ (held ∈ watches ∨ held = watch) := by
  rw [insertWatch]
  split_ifs with hheld
  · obtain ⟨held, hmem, hid⟩ := List.any_eq_true.mp hheld
    exact ⟨held, hmem, by simpa using hid, .inl hmem⟩
  · exact ⟨watch, List.mem_append_right _ (List.mem_singleton_self _), rfl, .inr rfl⟩

lemma mem_foldl_insertWatch {held : Watch δ} (h : held ∈ watches) (added : List (Watch δ)) :
    held ∈ added.foldl insertWatch watches := by
  induction added generalizing watches with
  | nil => exact h
  | cons watch added ih => exact ih (mem_insertWatch_of_mem h)

lemma distinct_foldl_insertWatch (h : Distinct watches) (added : List (Watch δ)) :
    Distinct (added.foldl insertWatch watches) := by
  induction added generalizing watches with
  | nil => exact h
  | cons watch added ih => exact ih (distinct_insertWatch h watch)

/-- No watch is ended by an addition. -/
lemma mem_addWatch_of_mem {held : Watch δ} (h : held ∈ watches) :
    held ∈ addWatch watches answer directory := by
  rw [addWatch]
  split_ifs
  · exact mem_foldl_insertWatch h _
  · exact h

lemma distinct_addWatch (h : Distinct watches) : Distinct (addWatch watches answer directory) := by
  rw [addWatch]
  split_ifs
  · exact distinct_foldl_insertWatch h _
  · exact h

/-- What is answered is a watch of the directory. -/
lemma exists_mem_addWatch (hpos : 0 < answer.id)
    (hheld : ∀ watch ∈ watches, watch.id = answer.id → watch.directory = directory) :
    ∃ watch ∈ addWatch watches answer directory,
      watch.id = answer.id ∧ watch.directory = directory := by
  obtain ⟨held, hmem, hid, hor⟩ := exists_mem_insertWatch watches ⟨answer.id, directory, []⟩
  refine ⟨held, ?_, hid, ?_⟩
  · rw [addWatch, if_pos hpos, List.foldl_cons]
    exact mem_foldl_insertWatch hmem _
  · rcases hor with hold | rfl
    · exact hheld held hold hid
    · rfl

lemma mem_removeWatch :
    watch ∈ removeWatch watches watchId ↔
      watch ∈ watches ∧ watch.id ≠ watchId ∧ watchId ∉ watch.parents := by
  rw [removeWatch, List.mem_filter, decide_eq_true_eq]

lemma distinct_removeWatch (h : Distinct watches) : Distinct (removeWatch watches watchId) :=
  h.sublist (List.filter_sublist.map _)

end Library

/-! ### What the calls do -/

section Calls

variable {directoryOf : Str → δ} {s : Watchers δ} {path : Str} {answer : Answer δ}

lemma find?_eq_none_iff :
    (s.watchListeners.find? fun watcher => watcher.2 = path) = none ↔ ¬ s.Registered path := by
  rw [List.find?_eq_none, Watchers.Registered, not_exists]
  simp only [decide_eq_true_eq, not_and]

/-- A path without an entry is asked for and entered. -/
lemma createWatcher_of_not_registered (h : ¬ s.Registered path) :
    createWatcher directoryOf answer s path = (answer.id, {
      watchListeners := insertMember answer.id path s.watchListeners
      watches := addWatch s.watches answer (directoryOf path)
      asked := s.asked ++ [path] }) := by
  rw [createWatcher, find?_eq_none_iff.mpr h]

/-- A path with an entry changes nothing. -/
lemma createWatcher_of_registered (h : s.Registered path) :
    (createWatcher directoryOf answer s path).2 = s := by
  rw [createWatcher]
  cases hfind : s.watchListeners.find? fun watcher => watcher.2 = path with
  | none => exact absurd h (find?_eq_none_iff.mp hfind)
  | some watcher => rfl

/-- The library is asked for a path exactly if it has no entry. -/
lemma asks_iff : s.Asks directoryOf path ↔ ¬ s.Registered path := by
  constructor
  · intro hasks hregistered
    have hlength := congrArg List.length (hasks ⟨0, []⟩)
    rw [createWatcher_of_registered hregistered, List.length_append] at hlength
    exact absurd hlength (by simp)
  · intro h answer
    rw [createWatcher_of_not_registered h]

lemma mem_removeWatcher {watcherId : ℤ} {watcher : ℤ × Str} :
    watcher ∈ (removeWatcher s watcherId).2.watchListeners ↔
      watcher ∈ s.watchListeners ∧ watcher.1 ≠ watcherId := by
  rw [removeWatcher]
  split_ifs with h
  · simp
  · have hne := List.any_eq_false.mp (Bool.eq_false_iff.mpr h)
    exact ⟨fun hmem => ⟨hmem, by simpa using hne watcher hmem⟩, fun h => h.1⟩

lemma any_iff_mem {watcherId : ℤ} :
    (s.watchListeners.any fun watcher => watcher.1 = watcherId) = true ↔
      watcherId ∈ s.watchListeners.map Prod.fst := by
  simp [List.any_eq_true, List.mem_map]

lemma distinct_step {op : WatcherOp δ} {t : Watchers δ} (hs : Distinct s.watches)
    (h : WatcherStep directoryOf s op t) : Distinct t.watches := by
  cases h with
  | @createWatcher path answer _ =>
      by_cases hregistered : s.Registered path
      · rwa [createWatcher_of_registered hregistered]
      · rw [createWatcher_of_not_registered hregistered]
        exact distinct_addWatch hs
  | removeWatcher watcherId =>
      rw [removeWatcher]
      split_ifs
      · exact distinct_removeWatch hs
      · exact hs

end Calls

/-! ### The condition -/

section Soundness

variable {directoryOf : Str → δ}

lemma distinct_empty : Distinct ({} : Watchers δ).watches := List.nodup_nil

lemma registrySound_empty : RegistrySound directoryOf {} :=
  ⟨by simp, List.nodup_nil, fun path _ => asks_iff.mpr (by simp [Watchers.Registered])⟩

end Soundness

namespace RegistrySound

variable {directoryOf : Str → δ} {s t : Watchers δ} {op : WatcherOp δ}
  (hs : RegistrySound directoryOf s)

include hs

/-- An entry of a sound registry is returned as it is. -/
lemma createWatcher_of_mem {watcher : ℤ × Str} (answer : Answer δ)
    (h : watcher ∈ s.watchListeners) :
    createWatcher directoryOf answer s watcher.2 = (watcher.1, s) := by
  rw [createWatcher]
  cases hfind : s.watchListeners.find? fun watcher' => watcher'.2 = watcher.2 with
  | none => exact absurd ⟨watcher, h, rfl⟩ (find?_eq_none_iff.mp hfind)
  | some watcher' =>
      have hpath : watcher'.2 = watcher.2 := by simpa using List.find?_some hfind
      have heq := List.inj_on_of_nodup_map hs.paths (List.mem_of_find?_eq_some hfind) h hpath
      rw [heq]

/-- A granted path keeps the registry sound. -/
lemma createWatcher {path : Str} {answer : Answer δ} (hanswers : Answers directoryOf s path answer)
    (hgranted : ¬ s.Registered path → 0 < answer.id) :
    RegistrySound directoryOf (fs.createWatcher directoryOf answer s path).2 := by
  by_cases hregistered : s.Registered path
  · rwa [createWatcher_of_registered hregistered]
  · have hpos := hgranted hregistered
    obtain ⟨-, hfresh, hheld⟩ := hanswers.resolve_right (by omega)
    have hperm := insertMember_perm path hfresh
    rw [createWatcher_of_not_registered hregistered]
    have hactive : ∀ watcher ∈ insertMember answer.id path s.watchListeners, 0 < watcher.1 ∧
        ∃ watch ∈ addWatch s.watches answer (directoryOf path),
          watch.id = watcher.1 ∧ watch.directory = directoryOf watcher.2 := by
      intro watcher hwatcher
      rcases List.mem_cons.mp (hperm.mem_iff.mp hwatcher) with rfl | hwatcher
      · exact ⟨hpos, exists_mem_addWatch hpos hheld⟩
      · obtain ⟨hpos', watch, hwatch, hof⟩ := hs.active watcher hwatcher
        exact ⟨hpos', watch, mem_addWatch_of_mem hwatch, hof⟩
    refine ⟨hactive, ?_, fun path' hpath' => asks_iff.mpr ?_⟩
    · refine (hperm.map Prod.snd).nodup_iff.mpr (List.nodup_cons.mpr ⟨fun hmem => ?_, hs.paths⟩)
      obtain ⟨watcher, hwatcher, heq⟩ := List.mem_map.mp hmem
      exact hregistered ⟨watcher, hwatcher, heq⟩
    · rintro ⟨watcher, hwatcher, rfl⟩
      obtain ⟨-, watch, hwatch, -, hdirectory⟩ := hactive watcher hwatcher
      exact hpath' watch hwatch hdirectory

/-- A removal keeps the registry sound exactly if no other entry's watch is in the tree. -/
lemma removeWatcher_iff (hdistinct : Distinct s.watches) (watcherId : ℤ) :
    RegistrySound directoryOf (fs.removeWatcher s watcherId).2 ↔
      Granted s (.removeWatcher watcherId) := by
  rw [Granted, ← any_iff_mem]
  by_cases hany : (s.watchListeners.any fun watcher => watcher.1 = watcherId) = true
  swap
  · rw [fs.removeWatcher, if_neg hany]
    exact iff_of_true hs fun h => absurd h hany
  have hwatches : (fs.removeWatcher s watcherId).2.watches = removeWatch s.watches watcherId := by
    rw [fs.removeWatcher, if_pos hany]
  constructor
  · intro ht _ watcher hwatcher hne watch hwatch hid
    obtain ⟨-, kept, hkept, hid', -⟩ := ht.active watcher (mem_removeWatcher.mpr ⟨hwatcher, hne⟩)
    rw [hwatches, mem_removeWatch] at hkept
    have heq := List.inj_on_of_nodup_map hdistinct hwatch hkept.1 (hid.trans hid'.symm)
    exact heq ▸ hkept.2.2
  · intro hgranted
    have hactive : ∀ watcher ∈ (fs.removeWatcher s watcherId).2.watchListeners,
        0 < watcher.1 ∧ (fs.removeWatcher s watcherId).2.Active directoryOf watcher := by
      intro watcher hwatcher
      obtain ⟨hold, hne⟩ := mem_removeWatcher.mp hwatcher
      obtain ⟨hpos, watch, hwatch, hid, hdirectory⟩ := hs.active watcher hold
      have hoff := hgranted hany watcher hold hne watch hwatch hid
      exact ⟨hpos, watch, hwatches ▸ mem_removeWatch.mpr ⟨hwatch, hid ▸ hne, hoff⟩, hid, hdirectory⟩
    refine ⟨hactive, ?_, fun path hpath => asks_iff.mpr ?_⟩
    · rw [fs.removeWatcher, if_pos hany]
      exact hs.paths.sublist (List.filter_sublist.map _)
    · rintro ⟨watcher, hwatcher, rfl⟩
      obtain ⟨-, watch, hwatch, -, hdirectory⟩ := hactive watcher hwatcher
      exact hpath watch hwatch hdirectory

/-- A step keeps a registry sound exactly if it is granted. -/
lemma step_iff (hdistinct : Distinct s.watches) (h : WatcherStep directoryOf s op t) :
    RegistrySound directoryOf t ↔ Granted s op := by
  cases h with
  | removeWatcher watcherId => exact hs.removeWatcher_iff hdistinct watcherId
  | @createWatcher path answer hanswers =>
      refine ⟨fun ht hregistered => ?_, fun hgranted => hs.createWatcher hanswers hgranted⟩
      rw [createWatcher_of_not_registered hregistered] at ht
      exact (ht.active _ (mem_insertMember_self answer.id path s.watchListeners)).1

/-- In a sound registry a call that is granted leaves what it should. -/
lemma callSound_of_granted (hgranted : Granted s op) : CallSound directoryOf s op := by
  cases op with
  | removeWatcher watcherId => trivial
  | createWatcher path answer =>
      refine ⟨fun watcher hwatcher hpath => ?_, fun hregistered hneg => ?_⟩
      · rw [← hpath]
        exact hs.createWatcher_of_mem answer hwatcher
      · exact absurd (hgranted hregistered) (by omega)

end RegistrySound

/-- **The registry is sound along a run** exactly if the library refuses no path that has no
entry, and no entry is removed in whose tree the watch of another entry stands. -/
theorem watchers_sound_iff {trace : List (WatcherOp δ × Watchers δ)}
    (h : Run (WatcherStep directoryOf) {} trace) :
    ((∀ x ∈ trace, RegistrySound directoryOf x.2) ∧ Along (CallSound directoryOf) {} trace) ↔
      Along Granted {} trace := by
  have hsound : (∀ x ∈ trace, RegistrySound directoryOf x.2) ↔ Along Granted {} trace :=
    h.good_iff (I := fun s => Distinct s.watches) (fun _ _ _ hs hst => distinct_step hs hst)
      (fun _ _ _ hdistinct hs hst => hs.step_iff hdistinct hst) distinct_empty registrySound_empty
  rw [hsound, and_iff_left_iff_imp]
  exact h.along_of_keep (I := fun s => Distinct s.watches ∧ RegistrySound directoryOf s)
    (fun _ _ _ hs hgranted hst =>
      ⟨distinct_step hs.1 hst, (hs.2.step_iff hs.1 hst).mpr hgranted⟩)
    (fun _ _ _ hs hgranted _ => hs.2.callSound_of_granted hgranted)
    ⟨distinct_empty, registrySound_empty⟩

/-- A directory is watched with one below it, and its watcher removed. -/
def watchedRun : List (WatcherOp Str × Watchers Str) :=
  [(.createWatcher "/tmp" ⟨1, [⟨2, "/tmp/a", [1]⟩]⟩,
      (createWatcher id ⟨1, [⟨2, "/tmp/a", [1]⟩]⟩ {} "/tmp").2),
    (.removeWatcher 1,
      (removeWatcher (createWatcher id ⟨1, [⟨2, "/tmp/a", [1]⟩]⟩ {} "/tmp").2 1).2)]

theorem watchedRun_sound :
    (∀ x ∈ watchedRun, RegistrySound id x.2) ∧ Along (CallSound id) {} watchedRun := by
  have hrun : Run (WatcherStep id) {} watchedRun :=
    .cons (.createWatcher (.inl ⟨by decide, by simp, by simp⟩)) (.cons (.removeWatcher _ 1) (.nil _))
  exact (watchers_sound_iff id hrun).mpr ⟨fun _ => by decide, fun _ watcher hwatcher hne =>
    absurd (congrArg Prod.fst (List.mem_singleton.mp hwatcher)) hne, trivial⟩

/-- A directory is watched, and then one below it, whose watch is part of the first one's tree. -/
def nestedWatchers : Watchers Str :=
  (createWatcher id ⟨2, []⟩ (createWatcher id ⟨1, [⟨2, "/a/b", [1]⟩]⟩ {} "/a").2 "/a/b").2

/-- A path that is not there is refused, and listed with the error as its id; and where nothing is
refused, removing the watcher of a directory ends the watch of an entry below it. -/
theorem refused_path_listed :
    (¬ ∀ trace : List (WatcherOp Str × Watchers Str), Run (WatcherStep id) {} trace →
      (∀ x ∈ trace, RegistrySound id x.2) ∧ Along (CallSound id) {} trace) ∧
    Run (WatcherStep id) {} [(.createWatcher "/a" ⟨1, [⟨2, "/a/b", [1]⟩]⟩,
        (createWatcher id ⟨1, [⟨2, "/a/b", [1]⟩]⟩ {} "/a").2),
      (.createWatcher "/a/b" ⟨2, []⟩, nestedWatchers),
      (.removeWatcher 1, (removeWatcher nestedWatchers 1).2)] ∧
    (removeWatcher nestedWatchers 1).2.watchListeners = [(2, "/a/b".toList)] ∧
    (removeWatcher nestedWatchers 1).2.watches = [] := by
  refine ⟨fun h => ?_, .cons (.createWatcher (.inl ⟨by decide, by simp, by simp⟩))
    (.cons (.createWatcher (.inl ⟨by decide, by decide, by decide⟩)) (.cons (.removeWatcher _ 1)
      (.nil _))), rfl, rfl⟩
  have hrun : Run (WatcherStep id) {} [(.createWatcher "/none".toList ⟨-1, []⟩,
      (createWatcher id ⟨-1, []⟩ {} "/none".toList).2)] :=
    .cons (.createWatcher (.inr (by decide))) (.nil _)
  have hsound := (h _ hrun).1 _ List.mem_cons_self
  exact absurd (hsound.active (-1, "/none".toList) List.mem_cons_self).1 (by decide)

end Neutralino.fs
