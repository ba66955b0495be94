import Neutralino.Api.FileSystem
import Neutralino.Base.Settings

/-!
The controllers that act without the gate: those of handles and watchers, of
the mounts, and the ones that take a path and ask nothing.

* `Resources`: the resource store behind `resources.*`.
* `trashItem`, `snapshot`, `extractFile`, `extractDirectory`, `mount`: the
  controllers that touch paths unasked.
* `trashed`, `extracted`, …: the effects that their inputs can lead to.
* `Touches`: a controller does nothing but the effects in a list.
-/

namespace Neutralino

open Calls (Keeps ofState runOn keeps_pure keeps_bind keeps_bind_of_returns keeps_lift_bind keeps_ite)

/-- The resource store: its mode, what its archive holds under a name, and the
files of the archive below a path. -/
structure Resources where
  mode : resources.ResourceMode
  archived : Str → fs.FileReaderOptions → Except Fault fs.FileReaderResult
  filesBelow : Str → List Str

/-- `resources::getFile`. -/
def Resources.getFile (store : Resources) (os : Os) (name : Str) (options : fs.FileReaderOptions) :
    Except Fault fs.FileReaderResult :=
  if store.mode = .dir then fs.readFile os.disk (os.host.appPath ++ name) options
  else store.archived name options

/-- `operator/` of `filesystem::path`. -/
def joinPath (a b : Str) : Str :=
  if FilePath.isAbsolute b then b
  else if a = [] ∨ a.getLast? = some '/' then a ++ b
  else a ++ '/' :: b

/-- `path::parent_path`. -/
def parentPath (path : Str) : Str :=
  let cut := ((path.reverse.dropWhile (· ≠ '/')).dropWhile (· = '/')).reverse
  if cut = [] ∧ FilePath.isAbsolute path then ['/'] else cut

/-- `resources::extractFile`; the missing ancestors of the file are made with it. -/
def Os.extractFile (os : Os) (store : Resources) (filename outputFilename : Str) : Call Bool := do
  let result ← store.getFile os filename {}
  if result.status = .NE_ST_OK then
    if parentPath outputFilename ≠ [] then
      let _ ← os.createDirectories (parentPath outputFilename)
      os.writeFile { filename := outputFilename, data := result.data }
    else os.writeFile { filename := outputFilename, data := result.data }
  else return false

/-! ### Handles and watchers -/

namespace fs.controllers

variable (os : Os)

/-- The event that `updateOpenedFile` reads from its input. -/
def openedFileEvent (input : Json) : Except Fault OpenedFileEvent := do
  let id ← (← input.indexConst "id").getInt
  let type ← textField input "event"
  let data ← fieldOr input "data" (fun data =>
    if isReadEvent type ∨ type = "seek".toList then data.getLongLong else .ok (-1)) (-1)
  return if type = "seek".toList then { id := id, type := type, pos := data }
    else { id := id, type := type, size := data }

/-- `updateOpenedFile`; the events it dispatches are left out. -/
def updateOpenedFile (input : Json) : Call Json :=
  requiring .null ["id", "event"] input do
    let evt ← openedFileEvent input
    let updated ← ofState fun w =>
      match fs.updateOpenedFile os.maxSize w.openedFiles evt with
      | none => (.error .endlessLoop, w)
      | some updated => (updated.result, { w with openedFiles := updated.state })
    if updated then return succeeded .null
    else return failed .null .NE_FS_UNLTOUP (decimal evt.id)

/-- The information as `getOpenedFileInfo` puts it out. -/
def openedFileJson (info : OpenedFileInfo) : Json :=
  .obj [("eof", .bool info.eof), ("id", .num info.id), ("lastRead", .num info.lastRead),
    ("pos", .num info.pos)]

/-- `getOpenedFileInfo`. -/
def getOpenedFileInfo (input : Json) : Call Json :=
  requiring .null ["id"] input do
    let fileId ← (← input.indexConst "id").getInt
    let info ← ofState fun w =>
      let asked := fs.getOpenedFileInfo w.openedFiles fileId
      (.ok asked.1, { w with openedFiles := asked.2 })
    match info with
    | none => return failed .null .NE_FS_UNLTFOP (decimal fileId)
    | some info => return returned .null (openedFileJson info)

/-- `removeWatcher`. -/
def removeWatcher (input : Json) : Call Json :=
  requiring .null ["id"] input do
    let watcherId ← (← input.indexConst "id").getLong
    let found ← ofState fun w =>
      (.ok (w.watchListeners.any fun watcher => watcher.1 = watcherId), { w with
        watchListeners := w.watchListeners.filter fun watcher => watcher.1 ≠ watcherId })
    if found then return returned .null (.num watcherId)
    else return failed .null .NE_FS_NOWATID (decimal watcherId)

/-- A watcher as `getWatchers` puts it out. -/
def watcherJson (watcher : ℤ × Str) : Json :=
  .obj [("id", .num watcher.1), ("path", .str watcher.2)]

/-- `getWatchers`. -/
def getWatchers (_ : Json) : Call Json := do
  let watchers ← ofState fun w => (.ok w.watchListeners, w)
  return returned .null (.arr (watchers.map watcherJson))

end fs.controllers

/-! ### Paths that are not asked about -/

variable (os : Os)

/-- `os.trashItem`. -/
def os.trashItem (input : Json) : Call Json :=
  requiring .null ["path"] input do
    let path ← textField input "path"
    os.touch .delete path
    if os.trash path then return reported .null (path ++ " was moved to trash".toList)
    else return failed .null .NE_OS_UNLTRAS path

/-- `window.snapshot`. -/
def window.snapshot (input : Json) : Call Json :=
  requiring .null ["path"] input do
    let imageFile ← textField input "path"
    os.touch .overwrite imageFile
    if os.snapshot imageFile then return succeeded .null
    else return failed .null .NE_WI_UNBSWSR imageFile

namespace res

variable (store : Resources)

/-- What `extractFile` and `extractDirectory` do in the directory mode. -/
def copyResource (code : errors.StatusCode) (path destination : Str) : Call Json := do
  os.touch (.resource os.host.appPath) (os.host.appPath ++ path)
  os.touch .overwrite destination
  if os.copy (os.host.appPath ++ path) destination ⟨true, true, false⟩ then return succeeded .null
  else return failed .null code destination

/-- `extractFile`. -/
def extractFile (input : Json) : Call Json :=
  requiring .null ["path", "destination"] input do
    let path ← textField input "path"
    let destination ← textField input "destination"
    if store.mode = .dir then copyResource os .NE_RS_FILEXTF path destination
    else if ← os.extractFile store path destination then return succeeded .null
    else return failed .null .NE_RS_FILEXTF destination

/-- Where `extractDirectory` puts a file of the archive. -/
def extractTarget (path destination resPath : Str) : Except Fault Str :=
  let extractPath := helpers.normalizePath resPath
  let skipped := if path = "/".toList then 1 else path.length + 1
  if extractPath.length < skipped then .error .outOfRange
  else .ok (joinPath destination (extractPath.drop skipped))

/-- The loop of `extractDirectory` over the files of the archive. -/
def extractAll (path destination : Str) : List Str → Call Unit
  | [] => return ()
  | resPath :: resPaths => do
      let target ← extractTarget path destination resPath
      let _ ← os.extractFile store resPath target
      extractAll path destination resPaths

/-- `extractDirectory`. -/
def extractDirectory (input : Json) : Call Json :=
  requiring .null ["path", "destination"] input do
    let path ← textField input "path"
    let destination ← textField input "destination"
    if store.mode = .dir then copyResource os .NE_RS_DIREXTF path destination
    else do
      extractAll os store path destination (store.filesBelow path)
      return succeeded .null

end res

namespace server

/-- `mount`. -/
def mount (input : Json) : Call Json :=
  requiring .null ["path", "target"] input do
    let path ← textField input "path"
    let target ← textField input "target"
    let result ← ofState fun w =>
      match router.mountPath os.disk w.mounts path target with
      | .error fault => (.error fault, w)
      | .ok result => (.ok result, { w with mounts := result.table })
    if result.status = .NE_ST_OK then do
      os.touch .expose result.target
      return reported .null (result.path ++ " mounts to ".toList ++ result.target)
    else return failed .null result.status result.target

/-- `unmount`. -/
def unmount (input : Json) : Call Json := do
  let path ← textField input "path"
  let result ← ofState fun w =>
    let unmounted := router.unmountPath w.mounts path
    (.ok unmounted, { w with mounts := unmounted.2.2 })
  if result.1 then return reported .null (result.2.1 ++ " unmounted".toList)
  else return failed .null .NE_SR_NOMTPTH result.2.1

/-- `getMounts`. -/
def getMounts (_ : Json) : Call Json := do
  let mounts ← ofState fun w => (.ok w.mounts, w)
  return returned .null (.obj (mounts.entries.map fun m => (m.1, .str m.2)))

end server

/-! ### What they touch -/

/-- A call does nothing to paths but the effects of a list. -/
def Touches (effects : List Effect) (call : Call Json) : Prop :=
  ∀ Q, (∀ e ∈ effects, Q (os.host, e)) → Keeps (Logged Q) call

/-- The text of a field, where it is one. -/
def texts (input : Json) (key : Str) : List Str :=
  match textField input key with
  | .ok text => [text]
  | .error _ => []

lemma mem_texts {input : Json} {key text : Str} (h : textField input key = .ok text) :
    text ∈ texts input key := by
  simp [texts, h]

/-- What `os.trashItem` can do. -/
def os.trashed (input : Json) : List Effect := (texts input "path").map (⟨.delete, ·⟩)

/-- What `window.snapshot` can do. -/
def window.saved (input : Json) : List Effect := (texts input "path").map (⟨.overwrite, ·⟩)

/-- What `server.mount` can do. -/
def server.exposed (input : Json) : List Effect :=
  (texts input "target").map fun target => ⟨.expose, helpers.normalizePath target⟩

namespace res

/-- What `copyResource` can do. -/
def copied (appPath path destination : Str) : List Effect :=
  [⟨.resource appPath, appPath ++ path⟩, ⟨.overwrite, destination⟩]

/-- What `resources.extractFile` can do. -/
def extracted (store : Resources) (appPath : Str) (input : Json) : List Effect :=
  (texts input "path").flatMap fun path => (texts input "destination").flatMap fun destination =>
    if store.mode = .dir then copied appPath path destination else [⟨.overwrite, destination⟩]

/-- What `resources.extractDirectory` can do. -/
def extractedAll (store : Resources) (appPath : Str) (input : Json) : List Effect :=
  (texts input "path").flatMap fun path => (texts input "destination").flatMap fun destination =>
    if store.mode = .dir then copied appPath path destination
    else (store.filesBelow path).flatMap fun resPath =>
      match extractTarget path destination resPath with
      | .ok target => [⟨.overwrite, target⟩]
      | .error _ => []

end res

section Touches

variable {os : Os} {store : Resources} {input : Json} {Q : Host × Effect → Prop}

/-- What a list of effects allows, one of its fields being read. -/
lemma touched_of_mem {effects : Str → List Effect} {key text : Str}
    (hQ : ∀ e ∈ (texts input key).flatMap effects, Q (os.host, e))
    (h : textField input key = .ok text) : ∀ e ∈ effects text, Q (os.host, e) :=
  fun e he => hQ e (List.mem_flatMap.mpr ⟨text, mem_texts h, he⟩)

lemma touches_trashItem :
    Touches os (Neutralino.os.trashed input) (Neutralino.os.trashItem os input) := by
  intro Q hQ
  refine keeps_requiring (keeps_lift_bind fun path hpath => ?_)
  have htouched := hQ ⟨.delete, path⟩ (List.mem_map_of_mem (mem_texts hpath))
  refine keeps_bind (keeps_touch htouched) fun _ => ?_
  exact keeps_ite (fun _ => keeps_pure _) fun _ => keeps_pure _

lemma touches_snapshot : Touches os (window.saved input) (window.snapshot os input) := by
  intro Q hQ
  refine keeps_requiring (keeps_lift_bind fun path hpath => ?_)
  have htouched := hQ ⟨.overwrite, path⟩ (List.mem_map_of_mem (mem_texts hpath))
  refine keeps_bind (keeps_touch htouched) fun _ => ?_
  exact keeps_ite (fun _ => keeps_pure _) fun _ => keeps_pure _

lemma touches_mount : Touches os (server.exposed input) (server.mount os input) := by
  intro Q hQ
  refine keeps_requiring (keeps_lift_bind fun path _ => keeps_lift_bind fun target htarget => ?_)
  refine keeps_bind_of_returns (keeps_ofState_of_log fun w => ?_) fun result hreturned => ?_
  · cases router.mountPath os.disk w.mounts path target with
    | error fault => rfl
    | ok result => rfl
  · obtain ⟨w, t, hrun⟩ := hreturned
    have hresult : router.mountPath os.disk w.mounts path target = .ok result := by
      cases hmount : router.mountPath os.disk w.mounts path target with
      | error fault => simp [runOn, ofState, hmount] at hrun
      | ok mounted =>
          simp only [runOn, ofState, hmount, Prod.mk.injEq, Except.ok.injEq] at hrun
          rw [hrun.1]
    have htouched := hQ ⟨.expose, helpers.normalizePath target⟩ (List.mem_map_of_mem (mem_texts htarget))
    rw [← router.target_of_mountPath hresult] at htouched
    refine keeps_ite (fun _ => keeps_bind (keeps_touch htouched) fun _ => keeps_pure _) fun _ => ?_
    exact keeps_pure _

lemma keeps_extractFile {filename outputFilename : Str}
    (h : Q (os.host, ⟨.overwrite, outputFilename⟩)) :
    Keeps (Logged Q) (os.extractFile store filename outputFilename) := by
  refine keeps_lift_bind fun result _ => keeps_ite (fun _ => ?_) fun _ => keeps_pure _
  refine keeps_ite (fun _ => keeps_lift_bind fun _ _ => ?_) fun _ => ?_
  · exact keeps_writeFile h
  · exact keeps_writeFile h

namespace res

lemma keeps_copyResource {code : errors.StatusCode} {path destination : Str}
    (h : ∀ e ∈ copied os.host.appPath path destination, Q (os.host, e)) :
    Keeps (Logged Q) (copyResource os code path destination) := by
  refine keeps_bind (keeps_touch (h _ (by simp [copied]))) fun _ => ?_
  refine keeps_bind (keeps_touch (h _ (by simp [copied]))) fun _ => ?_
  exact keeps_ite (fun _ => keeps_pure _) fun _ => keeps_pure _

lemma touches_extractFile :
    Touches os (extracted store os.host.appPath input) (extractFile os store input) := by
  intro Q hQ
  refine keeps_requiring (keeps_lift_bind fun path hpath => ?_)
  refine keeps_lift_bind fun destination hdestination => ?_
  have htouched := touched_of_mem (touched_of_mem hQ hpath) hdestination
  refine keeps_ite (fun hdir => ?_) fun hdir => ?_
  · exact keeps_copyResource (by simpa [hdir] using htouched)
  · have hwritten : Q (os.host, ⟨.overwrite, destination⟩) := by simpa [hdir] using htouched
    refine keeps_bind (keeps_extractFile hwritten) fun extracted => ?_
    exact keeps_ite (fun _ => keeps_pure _) fun _ => keeps_pure _

/-- The loop writes the targets of the files. -/
lemma keeps_extractAll {path destination : Str} {resPaths : List Str}
    (h : ∀ resPath ∈ resPaths, ∀ target, extractTarget path destination resPath = .ok target →
      Q (os.host, ⟨.overwrite, target⟩)) :
    Keeps (Logged Q) (extractAll os store path destination resPaths) := by
  induction resPaths with
  | nil => exact keeps_pure _
  | cons resPath resPaths ih =>
      refine keeps_lift_bind fun target htarget => ?_
      refine keeps_bind (keeps_extractFile (h resPath (by simp) target htarget)) fun _ => ?_
      exact ih fun resPath' hmem => h resPath' (by simp [hmem])

lemma touches_extractDirectory :
    Touches os (extractedAll store os.host.appPath input) (extractDirectory os store input) := by
  intro Q hQ
  refine keeps_requiring (keeps_lift_bind fun path hpath => ?_)
  refine keeps_lift_bind fun destination hdestination => ?_
  have htouched := touched_of_mem (touched_of_mem hQ hpath) hdestination
  refine keeps_ite (fun hdir => ?_) fun hdir => ?_
  · exact keeps_copyResource (by simpa [hdir] using htouched)
  · rw [if_neg hdir] at htouched
    refine keeps_bind (keeps_extractAll fun resPath hmem target htarget => ?_) fun _ => keeps_pure _
    exact htouched _ (List.mem_flatMap.mpr ⟨resPath, hmem, by simp [htarget]⟩)

end res

/-- What the controllers of handles and watchers do to paths is nothing. -/
lemma touches_updateOpenedFile : Touches os [] (fs.controllers.updateOpenedFile os input) := by
  intro Q _
  refine keeps_requiring (keeps_lift_bind fun evt _ => ?_)
  refine keeps_bind (keeps_ofState_of_log fun w => ?_) fun updated => ?_
  · cases fs.updateOpenedFile os.maxSize w.openedFiles evt with
    | none => rfl
    | some updated => rfl
  · exact keeps_ite (fun _ => keeps_pure _) fun _ => keeps_pure _

lemma touches_getOpenedFileInfo : Touches os [] (fs.controllers.getOpenedFileInfo input) := by
  intro Q _
  refine keeps_requiring (keeps_lift_bind fun value _ => keeps_lift_bind fun fileId _ => ?_)
  refine keeps_bind (keeps_ofState_of_log fun w => rfl) fun info => ?_
  cases info with
  | none => exact keeps_pure _
  | some info => exact keeps_pure _

lemma touches_removeWatcher : Touches os [] (fs.controllers.removeWatcher input) := by
  intro Q _
  refine keeps_requiring (keeps_lift_bind fun value _ => keeps_lift_bind fun watcherId _ => ?_)
  refine keeps_bind (keeps_ofState_of_log fun w => rfl) fun found => ?_
  exact keeps_ite (fun _ => keeps_pure _) fun _ => keeps_pure _

lemma touches_getWatchers : Touches os [] (fs.controllers.getWatchers input) := fun _ _ =>
  keeps_bind (keeps_ofState_of_log fun _ => rfl) fun _ => keeps_pure _

lemma touches_unmount : Touches os [] (server.unmount input) := by
  intro Q _
  refine keeps_lift_bind fun path _ => keeps_bind (keeps_ofState_of_log fun w => rfl) fun result => ?_
  exact keeps_ite (fun _ => keeps_pure _) fun _ => keeps_pure _

lemma touches_getMounts : Touches os [] (server.getMounts input) := fun _ _ =>
  keeps_bind (keeps_ofState_of_log fun _ => rfl) fun _ => keeps_pure _

end Touches

end Neutralino
