import Neutralino.Api.Ungated
import Neutralino.Auth.ScopeModes
import Neutralino.Library.Runs
import Neutralino.Server.Confinement
import Neutralino.Server.NativeCall

/-!
The running application: native calls and requests to the static server, in any
order, against the filesystem scopes.

* `Method`, `methods`: the native methods that touch paths or the registries,
  each with the effects it has unasked.
* `Server`, `Event`, `Server.next`: the application and its steps.
* `Covered`: what happens to a path is covered by the scope entries.
* `Asks`: the condition on a step, that what it does unasked would be granted.
* `covered_of_asks`: **every run of such steps is covered**.  `os.trashItem` and
  `server.mount` ask nothing.
-/

namespace Neutralino

open permission (hasFileSystemPathAccess CoveredBy)
open router (Lookup RequestLooks Inside NativeMessage executeNativeMethod)
open Calls (Keeps runOn)
open Runs (Run Along)

/-! ### The native methods -/

/-- A native method: its controller, and the effects that it has without asking
the gate. -/
structure Method where
  name : String
  run : Os → Json → Call Json
  unasked : Os → Json → List Effect := fun _ _ => []

/-- What `filesystem.move` does beyond the permissions it asks for. -/
def fs.movedAway (input : Json) : List Effect := (texts input "source").map (⟨.moveAway, ·⟩)

/-- The methods that act without the gate, and `filesystem.move`. -/
def ungatedMethods (perm : Permission) (store : Resources) : List Method :=
  [{ name := "filesystem.move", run := fs.controllers.move perm, unasked := fun _ => fs.movedAway },
    { name := "filesystem.updateOpenedFile", run := fs.controllers.updateOpenedFile },
    { name := "filesystem.getOpenedFileInfo", run := fun _ => fs.controllers.getOpenedFileInfo },
    { name := "filesystem.removeWatcher", run := fun _ => fs.controllers.removeWatcher },
    { name := "filesystem.getWatchers", run := fun _ => fs.controllers.getWatchers },
    { name := "os.trashItem", run := os.trashItem, unasked := fun _ => os.trashed },
    { name := "window.snapshot", run := window.snapshot, unasked := fun _ => window.saved },
    { name := "resources.extractFile", run := fun os => res.extractFile os store,
      unasked := fun os => res.extracted store os.host.appPath },
    { name := "resources.extractDirectory", run := fun os => res.extractDirectory os store,
      unasked := fun os => res.extractedAll store os.host.appPath },
    { name := "server.mount", run := server.mount, unasked := fun _ => server.exposed },
    { name := "server.unmount", run := fun _ => server.unmount },
    { name := "server.getMounts", run := fun _ => server.getMounts }]

/-- The native methods that touch paths or the registries behind them. -/
def methods (perm : Permission) (store : Resources) : List Method :=
  fs.controllers.gatedControllers.map (fun entry => { name := entry.1, run := entry.2 perm }) ++
    ungatedMethods perm store

/-- What a method does is let through by the gate, or it is among the effects
that it has unasked. -/
def Method.Mediated (perm : Permission) (m : Method) : Prop :=
  ∀ os input Q, (∀ e, Passed perm os e → Q (os.host, e)) → (∀ e ∈ m.unasked os input, Q (os.host, e)) →
    Keeps (Logged Q) (m.run os input)

section Methods

variable {perm : Permission} {store : Resources}

lemma Method.Mediated.of_touches {m : Method}
    (h : ∀ os input, Touches os (m.unasked os input) (m.run os input)) : m.Mediated perm :=
  fun os input Q _ hunasked => h os input Q hunasked

lemma move_mediated : Method.Mediated perm
    { name := "filesystem.move", run := fs.controllers.move perm, unasked := fun _ => fs.movedAway } := by
  intro os input Q hpassed hunasked
  refine fs.controllers.keeps_move (fun e he _ => hpassed e he) fun source hsource _ => ?_
  exact hunasked _ (List.mem_map_of_mem (mem_texts hsource))

lemma ungatedMethods_mediated : ∀ m ∈ ungatedMethods perm store, m.Mediated perm := by
  simp only [ungatedMethods, List.forall_mem_cons, List.not_mem_nil, IsEmpty.forall_iff,
    implies_true, and_true]
  exact ⟨move_mediated, .of_touches fun _ _ => touches_updateOpenedFile,
    .of_touches fun _ _ => touches_getOpenedFileInfo,
    .of_touches fun _ _ => touches_removeWatcher,
    .of_touches fun _ input => @touches_getWatchers _ input,
    .of_touches fun _ _ => touches_trashItem,
    .of_touches fun _ _ => touches_snapshot,
    .of_touches fun _ _ => res.touches_extractFile,
    .of_touches fun _ _ => res.touches_extractDirectory,
    .of_touches fun _ _ => touches_mount,
    .of_touches fun _ _ => touches_unmount,
    .of_touches fun _ input => @touches_getMounts _ input⟩

/-- **Every method is mediated.** -/
theorem methods_mediated : ∀ m ∈ methods perm store, m.Mediated perm := by
  intro m hm
  rcases List.mem_append.mp hm with hm | hm
  · obtain ⟨entry, hentry, rfl⟩ := List.mem_map.mp hm
    intro os input Q hpassed _
    exact fs.controllers.gatedControllers_mediated entry hentry input Q fun e he _ => hpassed e he
  · exact ungatedMethods_mediated m hm

end Methods

/-! ### The application and its steps -/

/-- The running application: what the gate of native calls reads, the resource
store, and the output of the methods that are not mediated here.  Some of these are given a
path too (`resources.readFile`, `resources.readBinaryFile`, `resources.getStats`,
`window.setIcon`, `os.setTray`); what is covered is decided by the gate's own predicate. -/
structure Server extends router.App where
  store : Resources
  others : Str → Json → Except Fault Json

/-- A step: a native call, or a request to the static server, with the answers
of the operating system during it. -/
inductive Event where
  | call (os : Os) (request : NativeMessage)
  | get (os : Os) (globals : Option Str) (readerOptions : fs.FileReaderOptions) (fuel : ℕ)
      (resource : Str)

namespace Server

variable (server : Server)

/-- The method of a name. -/
def methodOf (name : Str) : Option Method :=
  (methods server.permission server.store).find? fun m => m.name.toList = name

/-- The registered methods, as the gate of native calls invokes them. -/
def nativeMethods (os : Os) : Str → router.NativeMethod World := fun name input w =>
  match server.methodOf name with
  | some m => runOn (m.run os input) w
  | none => (server.others name input, w)

/-- The static server over the mounts of a state. -/
def site (os : Os) (w : World) : router.Site where
  options := server.options
  mounts := w.mounts
  disk := os.disk
  getFile := server.store.getFile os

/-- The effects of a lookup: an archive is not touched at a path of the client. -/
def lookupEffects (os : Os) : Lookup → List Effect
  | .resource name =>
      if server.store.mode = .dir then
        [⟨.resource (os.host.appPath ++ router.documentRootOf server.options),
          os.host.appPath ++ name⟩]
      else []
  | .mounted target rest => [⟨.read, router.mountedFile target rest⟩]

/-- The state after a step; a call that does not come back has none. -/
def next (w : World) : Event → Option World
  | .call os request =>
      match executeNativeMethod server.toApp (server.nativeMethods os) request w with
      | .ok outcome => some outcome.world
      | .error fault => if fault.isException then some w else none
  | .get os globals readerOptions fuel resource =>
      let served := neuserver.handleHTTP (server.site os w) globals readerOptions fuel resource
      some { w with
        log := w.log ++
          served.lookups.flatMap fun lookup => (server.lookupEffects os lookup).map (os.host, ·) }

/-- The steps of the application. -/
def Steps (w : World) (event : Event) (t : World) : Prop := server.next w event = some t

/-- What a native call has unasked. -/
def unasked (os : Os) (request : NativeMessage) : List Effect :=
  ((server.methodOf request.method).map fun m => m.unasked os request.data).getD []

end Server

/-! ### Coverage -/

/-- An effect is covered: scope entries permit what it needs, or it reads one of
the resources of the application where these lie. -/
def Covered (initHost : Host) (scopes : Json) (entry : Host × Effect) : Prop :=
  (∃ dir, entry.2.access = .resource dir ∧ Inside entry.1.cwd dir entry.2.path) ∨
    ∀ kind ∈ entry.2.access.requires, CoveredBy initHost entry.1 scopes entry.2.path kind

/-- The gate would let an effect through, or it needs no gate. -/
def Admitted (perm : Permission) (os : Os) (e : Effect) : Prop :=
  (∃ dir, e.access = .resource dir ∧ Inside os.host.cwd dir e.path) ∨ Passed perm os e

/-- The condition on a step: the gate would let through what the step does
without asking it. -/
def Asks (server : Server) (w : World) : Event → Prop
  | .call os request => ∀ e ∈ server.unasked os request, Admitted server.permission os e
  | .get os _ _ _ resource =>
      RequestLooks (fun place => ∀ lookup ∈ place, ∀ e ∈ server.lookupEffects os lookup,
        Admitted server.permission os e) server.options w.mounts resource

/-- What needs one permission is admitted where the gate grants it. -/
lemma admitted_of_requires {perm : Permission} {os : Os} {e : Effect}
    {kind : permission.FileSystemAccessPermission} (hrequires : e.access.requires = [kind])
    (hgranted : hasFileSystemPathAccess os.host perm e.path kind = .ok true) : Admitted perm os e := by
  refine .inr fun kind' hkind => ?_
  obtain rfl := List.mem_singleton.mp (hrequires ▸ hkind)
  exact hgranted

section Mediation

variable {initHost : Host} {server : Server} {scopes : Json}

/-- The application runs with the permissions registered for its scope map. -/
structure Scoped (initHost : Host) (server : Server) (scopes : Json) : Prop where
  registered : permission.init initHost server.options = .ok server.permission
  option : settings.getOptionForCurrentMode server.options "filesystemScopes" = .ok scopes
  present : scopes.isNull = false

lemma covered_of_admitted (h : Scoped initHost server scopes) {os : Os} {e : Effect}
    (he : Admitted server.permission os e) : Covered initHost scopes (os.host, e) := by
  rcases he with he | he
  · exact .inl he
  · exact .inr fun kind hkind =>
      (permission.hasFileSystemPathAccess_iff_coveredBy h.registered h.option h.present).mp
        (he kind hkind)

/-- What the gate refuses is not covered. -/
lemma not_covered (h : Scoped initHost server scopes) {host : Host} {e : Effect}
    {kind : permission.FileSystemAccessPermission} (hrequires : e.access.requires = [kind])
    (hresource : ∀ dir, e.access ≠ .resource dir)
    (hrefused : hasFileSystemPathAccess host server.permission e.path kind = .ok false) :
    ¬ Covered initHost scopes (host, e) := by
  rintro (⟨dir, hdir, -⟩ | hcovered)
  · exact hresource dir hdir
  · have hgranted := (permission.hasFileSystemPathAccess_iff_coveredBy h.registered h.option
      h.present).mpr (hcovered kind (hrequires ▸ List.mem_singleton_self kind))
    rw [hrefused] at hgranted
    cases hgranted

/-- A step that asks keeps the log covered. -/
theorem logged_step (h : Scoped initHost server scopes) {w t : World} {event : Event}
    (hw : Logged (Covered initHost scopes) w) (hasks : Asks server w event)
    (hstep : server.Steps w event t) : Logged (Covered initHost scopes) t := by
  cases event with
  | call os request =>
      replace hstep : server.next w (.call os request) = some t := hstep
      simp only [Server.next] at hstep
      cases hrun : executeNativeMethod server.toApp (server.nativeMethods os) request w with
      | error fault =>
          rw [hrun] at hstep
          by_cases hexception : fault.isException = true
          · simp only [hexception, if_true, Option.some.injEq] at hstep
            exact hstep ▸ hw
          · simp [hexception] at hstep
      | ok outcome =>
          simp only [hrun, Option.some.injEq] at hstep
          subst hstep
          rcases router.executeNativeMethod_cases hrun with ⟨hworld, -⟩ | hinvoke
          · rwa [hworld]
          · obtain ⟨⟨data, rfl⟩, -⟩ := router.invoke_eq_ok hinvoke
            show Logged _ (server.nativeMethods os request.method request.data w).2
            unfold Server.nativeMethods
            cases hm : server.methodOf request.method with
            | none => exact hw
            | some m =>
                have hmediated := methods_mediated m (List.mem_of_find?_eq_some hm)
                have hunasked : server.unasked os request = m.unasked os request.data := by
                  simp [Server.unasked, hm]
                exact hmediated os request.data _
                  (fun e he => covered_of_admitted h (.inr he))
                  (fun e he => covered_of_admitted h (hasks e (hunasked ▸ he))) w hw
  | get os globals readerOptions fuel resource =>
      obtain rfl := Option.some.inj hstep
      have hkeeps : (neuserver.handleHTTP (server.site os w) globals readerOptions fuel
          resource).Keeps (server.site os w) fun place => ∀ lookup ∈ place,
            ∀ e ∈ server.lookupEffects os lookup, Admitted server.permission os e :=
        router.keeps_handleHTTP hasks
      intro entry hentry
      rcases List.mem_append.mp hentry with hentry | hentry
      · exact hw entry hentry
      · obtain ⟨lookup, hlookup, hentry⟩ := List.mem_flatMap.mp hentry
        obtain ⟨e, he, rfl⟩ := List.mem_map.mp hentry
        exact covered_of_admitted h (hkeeps.places lookup hlookup lookup rfl e he)

/-- **Every run is covered** whose steps ask, or do nothing unasked that the gate
would not let through. -/
theorem covered_of_asks (h : Scoped initHost server scopes) {trace : List (Event × World)}
    (hrun : Run server.Steps {} trace) (hasks : Along (Asks server) {} trace) :
    ∀ x ∈ trace, Logged (Covered initHost scopes) x.2 :=
  hrun.invariant_of_along (fun _ _ _ hw hasks hstep => logged_step h hw hasks hstep)
    (fun _ hentry => absurd hentry (List.not_mem_nil)) hasks

end Mediation

/-! ### Two runs -/

/-- A server whose scope map is the entry `/data` with a mode. -/
def dataServer (mode : Str) : Server where
  options := .obj [("enableNativeAPI", .bool true),
    ("filesystemScopes", .obj [("/data", .str mode)])]
  token := "token"
  permission := permission.registered none none none (some [("/data", mode)])
  store := ⟨.bundle, fun _ _ => .ok { status := .NE_RS_UNBLDRE }, fun _ => []⟩
  others := fun _ _ => .error .invalidArgument

/-- An operating system that can do nothing, and where every path is a directory. -/
def directories : Os where
  __ := Os.idle emptyWorkDir
  disk := {
    kindOf := fun path => if path = [] then .ok none else .ok (some .directory)
    kindOf_nil := by simp
    openForRead := fun _ => .closed }

/-- A call of a method with text fields. -/
def callOf (method : Str) (fields : List (Str × Str)) : Event :=
  .call directories ⟨"1", method, "token", .obj (fields.map fun field => (field.1, .str field.2))⟩

/-- A call that the gate lets through is a step of its method. -/
lemma dataServer_step {mode method : Str} {fields : List (Str × Str)} {m : Method} {value : Json}
    {w t : World} (hreg : method ∈ router.methodMap)
    (hperm : permission.hasMethodAccess (dataServer mode).permission method = .ok true)
    (hm : (dataServer mode).methodOf method = some m)
    (hrun : runOn (m.run directories (.obj (fields.map fun field => (field.1, .str field.2)))) w =
      (.ok value, t)) :
    (dataServer mode).Steps w (callOf method fields) t := by
  have hmode : settings.getMode (dataServer mode).options = .ok .window := rfl
  have hinvoked := @router.execute_of_registered _ (dataServer mode).toApp
    ((dataServer mode).nativeMethods directories)
    ⟨"1", method, "token", .obj (fields.map fun field => (field.1, .str field.2))⟩ w
    rfl rfl hperm hreg _ hmode
  rw [if_neg (by simp)] at hinvoked
  unfold Server.Steps callOf
  simp only [Server.next, hinvoked, router.invoke, Server.nativeMethods, hm, hrun,
    router.catchException, router.called]
  rfl

lemma methodOf_trashItem (mode : Str) : (dataServer mode).methodOf "os.trashItem" = some
    { name := "os.trashItem", run := os.trashItem, unasked := fun _ => os.trashed } := by
  simp only [Server.methodOf, methods, ungatedMethods, fs.controllers.gatedControllers,
    List.map_cons, List.map_nil, List.cons_append, List.nil_append, List.find?_cons,
    String.toList_inj, String.reduceEq, decide_false, decide_true]

lemma methodOf_mount (mode : Str) : (dataServer mode).methodOf "server.mount" = some
    { name := "server.mount", run := server.mount, unasked := fun _ => server.exposed } := by
  simp only [Server.methodOf, methods, ungatedMethods, fs.controllers.gatedControllers,
    List.map_cons, List.map_nil, List.cons_append, List.nil_append, List.find?_cons,
    String.toList_inj, String.reduceEq, decide_false, decide_true]

lemma step_trashItem (mode path : Str) (w : World) :
    (dataServer mode).Steps w (callOf "os.trashItem" [("path", path)])
      { w with log := w.log ++ [(emptyWorkDir, ⟨.delete, path⟩)] } :=
  dataServer_step (List.mem_map_of_mem (by simp)) rfl (methodOf_trashItem mode) rfl

lemma step_mount {mode target : Str} {value : Json} {w t : World}
    (hrun : runOn (server.mount directories (.obj [("path", .str "/x"), ("target", .str target)])) w =
      (.ok value, t)) :
    (dataServer mode).Steps w (callOf "server.mount" [("path", "/x"), ("target", target)]) t :=
  dataServer_step (List.mem_map_of_mem (by simp)) rfl (methodOf_mount mode) hrun

/-- A path was moved to the trash. -/
def afterTrash (path : Str) : World where
  log := [(emptyWorkDir, ⟨.delete, path⟩)]

/-- Then a target was mounted. -/
def afterMount (path target : Str) (h : target ≠ []) : World where
  mounts := { entries := [("/x", target)], target_ne_nil := by simp [h] }
  log := (afterTrash path).log ++ [(emptyWorkDir, ⟨.expose, target⟩)]

/-- Then a file below it was asked for. -/
def afterGet (path target : Str) (h : target ≠ []) : World where
  mounts := (afterMount path target h).mounts
  log := (afterMount path target h).log ++
    [(emptyWorkDir, ⟨.read, router.mountedFile target "/file.txt"⟩)]

/-- A path is moved to the trash, and a directory is mounted and served. -/
def trashAndServe (path target : Str) (h : target ≠ []) : List (Event × World) :=
  [(callOf "os.trashItem" [("path", path)], afterTrash path),
    (callOf "server.mount" [("path", "/x"), ("target", target)], afterMount path target h),
    (.get directories none {} 2 "/x/file.txt", afterGet path target h)]

/-- In the scope, a path is moved to the trash, and a directory is mounted and served. -/
theorem trashAndServe_data_covered :
    Along (Asks (dataServer "read-write")) {} (trashAndServe "/data/a" "/data/b" (by decide)) ∧
      ∀ x ∈ trashAndServe "/data/a" "/data/b" (by decide),
        Logged (Covered emptyWorkDir (.obj [("/data", .str "read-write")])) x.2 := by
  have hrun : Run (dataServer "read-write").Steps {}
      (trashAndServe "/data/a" "/data/b" (by decide)) :=
    .cons (step_trashItem _ _ _) (.cons (step_mount rfl) (.cons rfl (.nil _)))
  have hscoped : Scoped emptyWorkDir (dataServer "read-write")
      (.obj [("/data", .str "read-write")]) := ⟨rfl, rfl, rfl⟩
  have hasks : Along (Asks (dataServer "read-write")) {}
      (trashAndServe "/data/a" "/data/b" (by decide)) := by
    refine ⟨?_, ?_, ?_, trivial⟩
    · have hunasked : (dataServer "read-write").unasked directories
          ⟨"1", "os.trashItem", "token", .obj [("path", .str "/data/a")]⟩ = [⟨.delete, "/data/a"⟩] := by
        rw [Server.unasked, methodOf_trashItem]
        rfl
      intro e he
      obtain rfl := List.mem_singleton.mp (hunasked ▸ he)
      exact admitted_of_requires rfl rfl
    · have hunasked : (dataServer "read-write").unasked directories
          ⟨"1", "server.mount", "token", .obj [("path", .str "/x"), ("target", .str "/data/b")]⟩ =
          [⟨.expose, "/data/b"⟩] := by
        rw [Server.unasked, methodOf_mount]
        rfl
      intro e he
      obtain rfl := List.mem_singleton.mp (hunasked ▸ he)
      exact admitted_of_requires rfl rfl
    · refine @router.requestLooks_of_lookup (dataServer "read-write").options _
        (.mounted "/data/b" "/file.txt") _ "/x/file.txt" "/x/file.txt" [] rfl (by decide) rfl rfl ?_
      rintro lookup ⟨⟩ e he
      obtain rfl := List.mem_singleton.mp he
      exact admitted_of_requires rfl rfl
  exact ⟨hasks, covered_of_asks hscoped hrun hasks⟩

/-- With the same entry for reading only, a path outside is moved to the trash,
and a directory outside is mounted and served. -/
theorem trashAndServe_etc_not_covered :
    Scoped emptyWorkDir (dataServer "read") (.obj [("/data", .str "read")]) ∧
      Run (dataServer "read").Steps {} (trashAndServe "/etc/a" "/etc" (by decide)) ∧
      (∀ entry ∈ (afterGet "/etc/a" "/etc" (by decide)).log,
        ¬ Covered emptyWorkDir (.obj [("/data", .str "read")]) entry) ∧
      ¬ ∀ x ∈ trashAndServe "/etc/a" "/etc" (by decide),
        Logged (Covered emptyWorkDir (.obj [("/data", .str "read")])) x.2 := by
  have hrun : Run (dataServer "read").Steps {} (trashAndServe "/etc/a" "/etc" (by decide)) :=
    .cons (step_trashItem _ _ _) (.cons (step_mount rfl) (.cons rfl (.nil _)))
  have hscoped : Scoped emptyWorkDir (dataServer "read") (.obj [("/data", .str "read")]) :=
    ⟨rfl, rfl, rfl⟩
  have hentries : ∀ entry ∈ (afterGet "/etc/a" "/etc" (by decide)).log,
      ¬ Covered emptyWorkDir (.obj [("/data", .str "read")]) entry := by
    simp only [afterGet, afterMount, afterTrash, List.cons_append, List.nil_append,
      List.forall_mem_cons, List.not_mem_nil, IsEmpty.forall_iff, implies_true, and_true]
    exact ⟨not_covered hscoped rfl nofun rfl, not_covered hscoped rfl nofun rfl,
      not_covered hscoped rfl nofun rfl⟩
  refine ⟨hscoped, hrun, hentries, fun h => ?_⟩
  have hlast := h (.get directories none {} 2 "/x/file.txt", afterGet "/etc/a" "/etc" (by decide))
    (List.mem_cons_of_mem _ (List.mem_cons_of_mem _ (List.mem_singleton_self _)))
  exact hentries _ List.mem_cons_self (hlast _ List.mem_cons_self)

end Neutralino
