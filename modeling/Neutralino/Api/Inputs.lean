import Neutralino.Api.SpawnedProcesses
import Neutralino.Api.Storage
import Neutralino.Api.Ungated

/-!
What the native methods read of their inputs: each controller up to the point
where it has taken what it needs and turns to the platform.

* `Taken`, `Reading`: an answer at once, or a request that is left to carry out.
* `Reading.fields`, `Reading.onPath`, `Reading.onPaths`: the families of the
  controllers.
* `fs.inputs`, `os.inputs`, …: the readings, under the names of the controllers.
* `os.inputs.trayItem`, `os.inputs.extensionsToVector`: the loops over the
  elements of a field.
* `res.inputs.parseAllFiles`, `res.inputs.parseFiles`: the walks over the file tree.
-/

namespace Neutralino

open permission (FileSystemAccessPermission hasFileSystemPathAccess)

/-! ### Fields and elements -/

/-- `input[key].get<int>()`. -/
def intField (input : Json) (key : Str) : Except Fault ℤ := do (← input.indexConst key).getInt

/-- `input[key].get<long>()`. -/
def longField (input : Json) (key : Str) : Except Fault ℤ := do (← input.indexConst key).getLong

/-- A field that is read where it is there. -/
def optionalField {α : Type} (input : Json) (key : Str) (get : Json → Except Fault α) :
    Except Fault (Option α) :=
  fieldOr input key (fun value => do return some (← get value)) none

namespace Json

/-- `size`. -/
def size : Json → ℕ
  | null => 0
  | arr xs => xs.length
  | obj members => members.length
  | _ => 1

/-- What `for(auto &x: j)` goes through: the elements of an array, the values of
an object, and a value that is neither by itself. -/
def elements : Json → List Json
  | null => []
  | arr xs => xs
  | obj members => members.map (·.2)
  | j => [j]

end Json

/-! ### Readings -/

/-- What a controller makes of its input: an answer at once, or a request that is
left to carry out. -/
inductive Taken (α : Type) where
  | answer (output : Json)
  | request (request : α)

/-- A controller up to its request. -/
abbrev Reading (α : Type) := Json → Except Fault (Taken α)

namespace Reading

variable {α β : Type}

/-- A controller that reads nothing. -/
def nothing : Reading Unit := fun _ => .ok (.request ())

/-- A controller that reads without a check of required fields. -/
def unchecked (read : Json → Except Fault α) : Reading α := fun input => do
  return .request (← read input)

/-- The check of the required fields. -/
def requiring (output : Json) (fields : List Str) (read : Reading α) : Reading α := fun input => do
  match ← helpers.missingRequiredField input fields with
  | some field => return .answer (output.set "error" (errors.makeMissingArgErrorPayload field))
  | none => read input

/-- A controller that reads once its required fields are there. -/
def fields (fields : List Str) (read : Json → Except Fault α) : Reading α :=
  requiring .null fields (unchecked read)

section Gate

variable (perm : Permission) (host : Host)

/-- The gate of a controller. -/
def authorized (kind : FileSystemAccessPermission) (output : Json) (path : Str)
    (request : Except Fault (Taken α)) : Except Fault (Taken α) := do
  if ← hasFileSystemPathAccess host perm path kind then request
  else return .answer (failed output .NE_FS_SCOPERR path)

/-- A controller of one path: its required fields, the permission it asks for,
its first output, and the options it reads before the gate and after it. -/
def onPath (fields : List Str) (kind : FileSystemAccessPermission) (output : Json)
    (before : Json → Except Fault α) (after : Json → Except Fault β) : Reading (Str × α × β) :=
  requiring output fields fun input => do
    let options ← before input
    let path ← textField input "path"
    authorized perm host kind output path do return .request (path, options, ← after input)

/-- A controller of a source and a destination: the permission it asks for the
source, and the options it reads after the gates. -/
def onPaths (kind : FileSystemAccessPermission) (after : Json → Except Fault β) :
    Reading (Str × Str × β) :=
  requiring .null ["source", "destination"] fun input => do
    let source ← textField input "source"
    let destination ← textField input "destination"
    authorized perm host kind .null source
      (authorized perm host .write .null destination do
        return .request (source, destination, ← after input))

end Gate

end Reading

/-! ### `filesystem` -/

namespace fs.inputs

section Gate

variable (perm : Permission) (host : Host)

/-- `createDirectory`. -/
def createDirectory : Reading (Str × Unit × Unit) :=
  .onPath perm host ["path"] .write .null noOptions noOptions

/-- `remove`. -/
def remove : Reading (Str × Unit × Unit) :=
  .onPath perm host ["path"] .write .null noOptions noOptions

/-- `readFile`. -/
def readFile : Reading (Str × FileReaderOptions × Unit) :=
  .onPath perm host ["path"] .read .null controllers.readerOptions noOptions

/-- `readBinaryFile`. -/
def readBinaryFile : Reading (Str × FileReaderOptions × Unit) :=
  .onPath perm host ["path"] .read .null controllers.readerOptions noOptions

/-- `__writeOrAppendFile` and `__writeOrAppendBinaryFile`. -/
def writeOrAppend : Reading (Str × Str × Unit) :=
  .onPath perm host ["path", "data"] .write .null (textField · "data") noOptions

/-- `writeFile`. -/
def writeFile : Reading (Str × Str × Unit) := writeOrAppend perm host

/-- `appendFile`. -/
def appendFile : Reading (Str × Str × Unit) := writeOrAppend perm host

/-- `writeBinaryFile`. -/
def writeBinaryFile : Reading (Str × Str × Unit) := writeOrAppend perm host

/-- `appendBinaryFile`. -/
def appendBinaryFile : Reading (Str × Str × Unit) := writeOrAppend perm host

/-- `openFile`. -/
def openFile : Reading (Str × Unit × Unit) :=
  .onPath perm host ["path"] .read .null noOptions noOptions

/-- `readDirectory`. -/
def readDirectory : Reading (Str × Bool × Unit) :=
  .onPath perm host ["path"] .read (.obj [("returnValue", .arr [])])
    (fieldOr · "recursive" Json.getBool false) noOptions

/-- `copy`. -/
def copy : Reading (Str × Str × CopyOptions) := .onPaths perm host .read controllers.copyOptions

/-- `move`. -/
def move : Reading (Str × Str × Unit) := .onPaths perm host .write noOptions

/-- `getStats`. -/
def getStats : Reading (Str × Unit × Unit) :=
  .onPath perm host ["path"] .read .null noOptions noOptions

/-- `createWatcher`. -/
def createWatcher : Reading (Str × Unit × Unit) :=
  .onPath perm host ["path"] .write .null noOptions noOptions

/-- `getPermissions`. -/
def getPermissions : Reading (Str × Unit × Unit) :=
  .onPath perm host ["path"] .read .null noOptions noOptions

/-- `setPermissions`. -/
def setPermissions : Reading (Str × Unit × ℕ × PermOptions) :=
  .onPath perm host ["path"] .write .null noOptions fun input => do
    return (← controllers.askedPermissions input, ← controllers.askedMode input)

/-- `access`. -/
def access : Reading (Str × Unit × ℤ) :=
  .onPath perm host ["path"] .read .null noOptions (fieldOr · "mode" Json.getInt 0)

/-- `chmod`. -/
def chmod : Reading (Str × Unit × ℤ) :=
  .onPath perm host ["path", "mode"] .write .null noOptions (intField · "mode")

/-- `chown`. -/
def chown : Reading (Str × Unit × ℤ × ℤ) :=
  .onPath perm host ["path", "uid", "gid"] .write .null noOptions fun input => do
    return (← intField input "uid", ← intField input "gid")

end Gate

/-- `updateOpenedFile`. -/
def updateOpenedFile : Reading OpenedFileEvent := .fields ["id", "event"] controllers.openedFileEvent

/-- `getOpenedFileInfo`. -/
def getOpenedFileInfo : Reading ℤ := .fields ["id"] (intField · "id")

/-- `removeWatcher`. -/
def removeWatcher : Reading ℤ := .fields ["id"] (longField · "id")

/-- `getWatchers`. -/
def getWatchers : Reading Unit := .nothing

/-- `getAbsolutePath`. -/
def getAbsolutePath : Reading Str := .fields ["path"] (textField · "path")

/-- `getRelativePath`; the base is the current directory where none is given. -/
def getRelativePath : Reading (Str × Option Str) :=
  .fields ["path"] fun input => do
    return (← textField input "path", ← optionalField input "base" Json.getString)

/-- `getPathParts`. -/
def getPathParts : Reading Str := .fields ["path"] (textField · "path")

/-- `getJoinedPath`. -/
def getJoinedPath : Reading (List Str) :=
  .fields ["paths"] fun input => do (← input.indexConst "paths").getStrings

/-- `getNormalizedPath`. -/
def getNormalizedPath : Reading Str := .fields ["path"] (textField · "path")

/-- `getUnnormalizedPath`. -/
def getUnnormalizedPath : Reading Str := .fields ["path"] (textField · "path")

end fs.inputs

/-! ### `os` -/

namespace os

/-- `ChildProcessOptions`, as far as the controllers set them. -/
structure ChildProcessOptions where
  background : Bool := false
  cwd : Str := []
  stdIn : Str := []
  envs : List (Str × Str) := []

/-- A file dialog: `option` is `multiSelections` or `forceOverwrite`. -/
structure FileDialog where
  title : Str
  option : Bool
  filters : List Str
  defaultPath : Str

/-- `tray_menu`, as far as the input sets it. -/
structure TrayMenu where
  id : Option Str
  text : Str
  disabled : Bool
  checked : Bool

/-- `NEU_MAX_TRAY_MENU_ITEMS`. -/
def maxTrayMenuItems : ℤ := 50

namespace inputs

/-! #### Commands and processes -/

/-- The environment of a command. -/
def envsOf (envs : Json) : Except Fault (List (Str × Str)) :=
  envs.items.mapM fun entry => do return (entry.1, ← entry.2.getString)

/-- The beginning of `execCommand` and `spawnProcess`. -/
def onCommand (perm : Permission) (readOptions : Json → Except Fault ChildProcessOptions) :
    Reading (Str × ChildProcessOptions) :=
  .requiring .null ["command"] fun input => do
    let command ← textField input "command"
    if permission.hasCommandExecutionAccess perm command then
      return .request (command, ← readOptions input)
    else return .answer (failed .null .NE_OS_CMDNALW command)

/-- `execCommand`. -/
def execCommand (perm : Permission) : Reading (Str × ChildProcessOptions) :=
  onCommand perm fun input => do
    let stdIn ← fieldOr input "stdIn" Json.getString []
    let background ← fieldOr input "background" Json.getBool false
    let cwd ← fieldOr input "cwd" Json.getString []
    let envs ← fieldOr input "envs" envsOf []
    return { stdIn, background, cwd, envs }

/-- `spawnProcess`. -/
def spawnProcess (perm : Permission) : Reading (Str × ChildProcessOptions) :=
  onCommand perm fun input => do
    let cwd ← fieldOr input "cwd" Json.getString []
    let envs ← fieldOr input "envs" envsOf []
    return { cwd, envs }

/-- `updateSpawnedProcess`. -/
def updateSpawnedProcess : Reading SpawnedProcessEvent :=
  .fields ["id", "event"] fun input => do
    let id ← intField input "id"
    let type ← textField input "event"
    let stdIn ← fieldOr input "data" (fun data =>
      if type = "stdIn".toList then data.getString else .ok []) []
    return { id, type, stdIn }

/-- `getSpawnedProcesses`. -/
def getSpawnedProcesses : Reading Unit := .nothing

/-- `getEnv`. -/
def getEnv : Reading Str := .fields ["key"] (textField · "key")

/-- `setEnv`. -/
def setEnv : Reading (Str × Str) :=
  .fields ["key", "value"] fun input => do
    return (← textField input "key", ← textField input "value")

/-- `getEnvs`. -/
def getEnvs : Reading Unit := .nothing

/-- `getLocaleInfo`. -/
def getLocaleInfo : Reading Unit := .nothing

/-! #### Dialogs -/

/-- The texts of `exts`; an index is for arrays only. -/
def extensionTexts (exts : Json) : Except Fault (List Str) :=
  match exts with
  | .arr xs => xs.mapM Json.getString
  | _ => if exts.size = 0 then .ok [] else .error .typeError

/-- A turn of the loop of `__extensionsToVector`. -/
def fileFilter (filter : Json) : Except Fault (List Str) := do
  let name ← textField filter "name"
  let exts ← extensionTexts (← filter.indexConst "extensions")
  return [name, List.intercalate " ".toList (exts.map fun ext => "*.".toList ++ ext)]

/-- `__extensionsToVector`. -/
def extensionsToVector (filters : Json) : Except Fault (List Str) := do
  return (← filters.elements.mapM fileFilter).flatten

/-- `showOpenDialog` and `showSaveDialog`, which differ in their title and in the
option they have. -/
def fileDialog (title option : Str) : Reading FileDialog :=
  .unchecked fun input => do
    let title ← fieldOr input "title" Json.getString title
    let option ← fieldOr input option Json.getBool false
    let filters ← fieldOr input "filters" extensionsToVector ["All files".toList, "*".toList]
    let defaultPath ← fieldOr input "defaultPath" Json.getString []
    return { title, option, filters, defaultPath }

/-- `showOpenDialog`. -/
def showOpenDialog : Reading FileDialog := fileDialog "Open a file" "multiSelections"

/-- `showFolderDialog`. -/
def showFolderDialog : Reading (Str × Str) :=
  .unchecked fun input => do
    return (← fieldOr input "title" Json.getString "Select a folder".toList,
      ← fieldOr input "defaultPath" Json.getString [])

/-- `showSaveDialog`. -/
def showSaveDialog : Reading FileDialog := fileDialog "Save a file" "forceOverwrite"

/-- The keys of `iconMap`. -/
def icons : List Str := ["INFO", "WARNING", "ERROR", "QUESTION"].map String.toList

/-- The keys of `choiceMap`. -/
def choices : List Str :=
  ["OK", "OK_CANCEL", "YES_NO", "YES_NO_CANCEL", "RETRY_CANCEL", "ABORT_RETRY_IGNORE"].map
    String.toList

/-- `showNotification`: the title, the content and the icon. -/
def showNotification : Reading (Str × Str × Str) :=
  .requiring .null ["title", "content"] fun input => do
    let title ← textField input "title"
    let content ← textField input "content"
    let icon ← fieldOr input "icon" Json.getString "INFO".toList
    if icon ∈ icons then return .request (title, content, icon)
    else return .answer (failed .null .NE_OS_INVNOTA icon)

/-- `showMessageBox`: the title, the content, the choice and the icon. -/
def showMessageBox : Reading (Str × Str × Str × Str) :=
  .requiring .null ["title", "content"] fun input => do
    let title ← textField input "title"
    let content ← textField input "content"
    let icon ← fieldOr input "icon" Json.getString "INFO".toList
    let choice ← fieldOr input "choice" Json.getString "OK".toList
    if choice ∈ choices ∧ icon ∈ icons then return .request (title, content, choice, icon)
    else return .answer (failed .null .NE_OS_INVMSGA (choice ++ "/".toList ++ icon))

/-! #### The tray -/

/-- `menuCount`: the size, in an `int`, up to the limit. -/
def menuCount (menuItems : Json) : ℕ :=
  (min (Int.bmod menuItems.size (2 ^ 32)) maxTrayMenuItems).toNat

/-- A turn of the loop of `setTray`. -/
def trayItem (menuItem : Json) : Except Fault TrayMenu := do
  let text ← textField menuItem "text"
  let id ← optionalField menuItem "id" Json.getString
  let disabled ← fieldOr menuItem "isDisabled" Json.getBool false
  let checked ← fieldOr menuItem "isChecked" Json.getBool false
  return { id, text, disabled, checked }

/-- `setTray`: the menu and the path of the icon, as far as they are given. -/
def setTray : Reading (Option (List TrayMenu) × Option Str) :=
  .unchecked fun input => do
    let menu ← optionalField input "menuItems" fun menuItems =>
      (menuItems.elements.take (menuCount menuItems)).mapM trayItem
    let icon ← optionalField input "icon" Json.getString
    return (menu, icon)

/-! #### The rest -/

/-- `open`. -/
def «open» : Reading Str := .fields ["url"] (textField · "url")

/-- `getPath`. -/
def getPath : Reading Str := .fields ["name"] (textField · "name")

/-- `trashItem`. -/
def trashItem : Reading Str := .fields ["path"] (textField · "path")

end inputs

end os

/-! ### `storage` -/

namespace storage.inputs

/-- The beginning of the controllers of one key. -/
def onKey {α : Type} (read : Json → Except Fault α) : Reading (Str × α) :=
  .requiring .null ["key"] fun input => do
    let key ← textField input "key"
    let errorPayload := validateStorageBucket key
    if !errorPayload.isNull then return .answer errorPayload
    return .request (key, ← read input)

/-- `getData`. -/
def getData : Reading (Str × Unit) := onKey noOptions

/-- `setData`, with its data where there are any; the directory is created before
they are read. -/
def setData : Reading (Str × Option Str) := onKey (optionalField · "data" Json.getString)

/-- `removeData`. -/
def removeData : Reading (Str × Unit) := onKey noOptions

/-- `getKeys`. -/
def getKeys : Reading Unit := .nothing

/-- `clear`. -/
def clear : Reading Unit := .nothing

end storage.inputs

/-! ### `events`, `extensions` and `app` -/

/-- The data of an event, `null` where none are given. -/
def eventData (input : Json) : Except Fault Json := fieldOr input "data" .ok .null

/-- A controller that sends an event with its data. -/
def sendsEvent : Reading (Str × Json) :=
  .fields ["event"] fun input => do return (← textField input "event", ← eventData input)

namespace events.inputs

/-- `broadcast`. -/
def broadcast : Reading (Str × Json) := sendsEvent

end events.inputs

namespace extensions.inputs

/-- `dispatch`: the extension, the event and its data. -/
def dispatch : Reading (Str × Str × Json) :=
  .fields ["extensionId", "event"] fun input => do
    return (← textField input "extensionId", ← textField input "event", ← eventData input)

/-- `broadcast`. -/
def broadcast : Reading (Str × Json) := sendsEvent

/-- `getStats`. -/
def getStats : Reading Unit := .nothing

end extensions.inputs

namespace app.inputs

/-- `exit`. -/
def exit : Reading ℤ := .unchecked (fieldOr · "code" Json.getInt 0)

/-- `killProcess`. -/
def killProcess : Reading Unit := .nothing

/-- `getProcessId`. -/
def getProcessId : Reading Unit := .nothing

/-- `getConfig`. -/
def getConfig : Reading Unit := .nothing

/-- `broadcast`. -/
def broadcast : Reading (Str × Json) := sendsEvent

/-- `readProcessInput`. -/
def readProcessInput : Reading Bool := .unchecked (fieldOr · "readAll" Json.getBool false)

/-- `writeProcessOutput`. -/
def writeProcessOutput : Reading Str := .fields ["data"] (textField · "data")

/-- `writeProcessError`. -/
def writeProcessError : Reading Str := .fields ["data"] (textField · "data")

end app.inputs

/-! ### `resources` and `server` -/

/-- The values of a member of an object are smaller than the object. -/
lemma sizeOf_lt_of_mem_items {data files : Json} {key : Str} {child : Str × Json}
    (hfiles : data.indexConst key = .ok files) (hchild : child ∈ files.items) :
    sizeOf child.2 < sizeOf data := by
  have hle : sizeOf child.2 ≤ sizeOf files := by
    cases files with
    | null => simp [Json.items] at hchild
    | obj members =>
        have hmem := List.sizeOf_lt_of_mem (show child ∈ members from hchild)
        cases child
        simp only [Json.obj.sizeOf_spec, Prod.mk.sizeOf_spec] at hmem ⊢
        omega
    | arr xs =>
        obtain ⟨x, hx, rfl⟩ := List.mem_map.mp hchild
        have hmem := List.sizeOf_lt_of_mem (List.fst_mem_of_mem_zipIdx hx)
        simp only [Json.arr.sizeOf_spec]
        omega
    | _ => simp_all [Json.items]
  cases data with
  | obj members =>
      cases hfind : members.find? fun m => m.1 = key with
      | none => simp [Json.indexConst, hfind] at hfiles
      | some m =>
          obtain rfl : m.2 = files := by simpa [Json.indexConst, hfind] using hfiles
          have hmem := List.sizeOf_lt_of_mem (List.mem_of_find?_eq_some hfind)
          cases m
          simp only [Json.obj.sizeOf_spec, Prod.mk.sizeOf_spec] at hmem hle ⊢
          omega
  | _ => simp [Json.indexConst] at hfiles

namespace res.inputs

/-- The loop over `data["files"].items()`. -/
def eachFile (data : Json)
    (child : (entry : Str × Json) → sizeOf entry.2 < sizeOf data → Except Fault (List Str)) :
    Except Fault (List Str) :=
  match h : data.indexConst "files".toList with
  | .error fault => .error fault
  | .ok files => do
      let below ← files.items.attach.mapM fun entry =>
        child entry.1 (sizeOf_lt_of_mem_items h entry.2)
      return below.flatten

/-- `parseBundleHeader` of `__getAllFiles`. -/
def parseAllFiles (basePath : Str) (data : Json) : Except Fault (List Str) := do
  if ← helpers.hasField data "files" then
    eachFile data fun entry _ => do
      let path := basePath ++ '/' :: entry.1
      return path :: (← parseAllFiles path entry.2)
  else return []
termination_by sizeOf data

/-- `parseBundleHeader` of `__getFiles`. -/
def parseFiles (rootPath path : Str) (data : Json) : Except Fault (List Str) := do
  if ← helpers.hasField data "files" then
    if ¬ path <+: rootPath ∧ ¬ rootPath <+: path then return []
    else eachFile data fun entry _ => parseFiles rootPath (path ++ '/' :: entry.1) entry.2
  else return if rootPath <+: path then [path] else []
termination_by sizeOf data

section FileTree

variable (mode : resources.ResourceMode) (fileTree : Json)

/-- `getFiles`: the files of the archive, where there is one. -/
def getFiles : Reading (List Str) := fun _ => do
  if mode = .dir then return .request []
  else return .request (← parseAllFiles [] fileTree)

/-- `getStats`. -/
def getStats : Reading Str := .fields ["path"] (textField · "path")

/-- `extractFile`: the path and the destination. -/
def extractFile : Reading (Str × Str) :=
  .fields ["path", "destination"] fun input => do
    return (← textField input "path", ← textField input "destination")

/-- `extractDirectory`: the path, the destination, and the files of the archive
below the path, where there is one. -/
def extractDirectory : Reading (Str × Str × List Str) :=
  .fields ["path", "destination"] fun input => do
    let path ← textField input "path"
    let destination ← textField input "destination"
    if mode = .dir then return (path, destination, [])
    else return (path, destination, ← parseFiles path [] fileTree)

end FileTree

/-- `readFile`. -/
def readFile : Reading Str := .fields ["path"] (textField · "path")

/-- `readBinaryFile`. -/
def readBinaryFile : Reading Str := .fields ["path"] (textField · "path")

end res.inputs

namespace server.inputs

/-- `mount`: the path and the target. -/
def mount : Reading (Str × Str) :=
  .fields ["path", "target"] fun input => do
    return (← textField input "path", ← textField input "target")

/-- `unmount`, which does not check that its path is there. -/
def unmount : Reading Str := .unchecked (textField · "path")

/-- `getMounts`. -/
def getMounts : Reading Unit := .nothing

end server.inputs

/-! ### `net` -/

namespace net

open Regex (Re dotStar)

/-- The request of `net.request`; an option is absent where the client keeps its
own default. -/
structure Request where
  protocol : Str
  host : Str
  path : Str
  timeout : Option ℤ
  params : List (Str × Str)
  headers : List (Str × Str)
  auth : Option (Str × Str)
  body : Str
  allowRedirects : Option Bool
  encodePath : Option Bool
  keepAlive : Option Bool
  contentType : Str
  method : Str

/-- The expression `^(https?)://([^/]+)(/.*)?$`. -/
def urlRegex : Re Char :=
  .cat (.lit "http".toList) (.cat (.upTo (.lit "s".toList) 1) (.cat (.lit "://".toList)
    (.cat (.cls (· ≠ '/')) (.cat (.star (.cls (· ≠ '/'))) (.upTo (.cat (.lit "/".toList) dotStar) 1)))))

namespace inputs

/-- The groups of the expression: the protocol, the host, and the path where there
is one. -/
def urlGroups (url : Str) : Str × Str × Str :=
  let protocol := url.takeWhile (· ≠ ':')
  let rest := url.drop (protocol.length + 3)
  (protocol, rest.takeWhile (· ≠ '/'), rest.dropWhile (· ≠ '/'))

/-- The members of `params` and of `headers` that are texts. -/
def textItems (j : Json) : Except Fault (List (Str × Str)) :=
  .ok (j.items.filterMap fun entry =>
    match entry.2 with
    | .str text => some (entry.1, text)
    | _ => none)

/-- The user of the basic authentication, where `auth` has a name and a password. -/
def basicAuth (input : Json) : Except Fault (Option (Str × Str)) := do
  if !(← helpers.hasField input "auth") then return none
  if !(← helpers.hasField (← input.indexConst "auth") "username") then return none
  if !(← helpers.hasField (← input.indexConst "auth") "password") then return none
  let username ← textField (← input.indexConst "auth") "username"
  let password ← textField (← input.indexConst "auth") "password"
  return some (username, password)

/-- The options of a request of `net.request`. -/
def readRequest (url : Str) (input : Json) : Except Fault Request := do
  let (protocol, host, path) := urlGroups url
  let timeout ← optionalField input "timeout" Json.getInt
  let params ← fieldOr input "params" textItems []
  let headers ← fieldOr input "headers" textItems []
  let auth ← basicAuth input
  let body ← fieldOr input "body" Json.getString []
  let allowRedirects ← optionalField input "allowRedirects" Json.getBool
  let encodePath ← optionalField input "encodePath" Json.getBool
  let keepAlive ← optionalField input "keepAlive" Json.getBool
  let contentType ← optionalField input "contentType" Json.getString
  let method ← fieldOr input "method" Json.getString "GET".toList
  return {
    protocol, host, timeout, params, headers, auth, body, allowRedirects, encodePath, keepAlive, method
    path := if path = [] then "/".toList else path
    contentType := if contentType = some [] then "application/json".toList else contentType.getD [] }

/-- `request`. -/
def request : Reading Request :=
  .requiring .null ["url"] fun input => do
    let url ← textField input "url"
    if urlRegex.test url then return .request (← readRequest url input)
    else return .answer (Json.set .null "error" (errors.makeMissingArgErrorPayload "url"))

end inputs

end net

/-! ### The methods -/

/-- A native method with its reading. -/
structure MethodInput where
  name : String
  Request : Type
  read : Reading Request

section Methods

variable (perm : Permission) (host : Host) (mode : resources.ResourceMode) (fileTree : Json)

/-- The methods of `app`. -/
def app.methodInputs : List MethodInput :=
  [⟨"app.exit", _, app.inputs.exit⟩, ⟨"app.killProcess", _, app.inputs.killProcess⟩,
    ⟨"app.getProcessId", _, app.inputs.getProcessId⟩, ⟨"app.getConfig", _, app.inputs.getConfig⟩,
    ⟨"app.broadcast", _, app.inputs.broadcast⟩,
    ⟨"app.readProcessInput", _, app.inputs.readProcessInput⟩,
    ⟨"app.writeProcessOutput", _, app.inputs.writeProcessOutput⟩,
    ⟨"app.writeProcessError", _, app.inputs.writeProcessError⟩]

/-- The methods of `filesystem`. -/
def fs.methodInputs : List MethodInput :=
  [⟨"filesystem.createDirectory", _, fs.inputs.createDirectory perm host⟩,
    ⟨"filesystem.remove", _, fs.inputs.remove perm host⟩,
    ⟨"filesystem.readFile", _, fs.inputs.readFile perm host⟩,
    ⟨"filesystem.readBinaryFile", _, fs.inputs.readBinaryFile perm host⟩,
    ⟨"filesystem.writeFile", _, fs.inputs.writeFile perm host⟩,
    ⟨"filesystem.writeBinaryFile", _, fs.inputs.writeBinaryFile perm host⟩,
    ⟨"filesystem.appendFile", _, fs.inputs.appendFile perm host⟩,
    ⟨"filesystem.appendBinaryFile", _, fs.inputs.appendBinaryFile perm host⟩,
    ⟨"filesystem.openFile", _, fs.inputs.openFile perm host⟩,
    ⟨"filesystem.createWatcher", _, fs.inputs.createWatcher perm host⟩,
    ⟨"filesystem.removeWatcher", _, fs.inputs.removeWatcher⟩,
    ⟨"filesystem.getWatchers", _, fs.inputs.getWatchers⟩,
    ⟨"filesystem.updateOpenedFile", _, fs.inputs.updateOpenedFile⟩,
    ⟨"filesystem.getOpenedFileInfo", _, fs.inputs.getOpenedFileInfo⟩,
    ⟨"filesystem.readDirectory", _, fs.inputs.readDirectory perm host⟩,
    ⟨"filesystem.copy", _, fs.inputs.copy perm host⟩,
    ⟨"filesystem.move", _, fs.inputs.move perm host⟩,
    ⟨"filesystem.getStats", _, fs.inputs.getStats perm host⟩,
    ⟨"filesystem.getAbsolutePath", _, fs.inputs.getAbsolutePath⟩,
    ⟨"filesystem.getRelativePath", _, fs.inputs.getRelativePath⟩,
    ⟨"filesystem.getPathParts", _, fs.inputs.getPathParts⟩,
    ⟨"filesystem.getPermissions", _, fs.inputs.getPermissions perm host⟩,
    ⟨"filesystem.setPermissions", _, fs.inputs.setPermissions perm host⟩,
    ⟨"filesystem.getJoinedPath", _, fs.inputs.getJoinedPath⟩,
    ⟨"filesystem.getNormalizedPath", _, fs.inputs.getNormalizedPath⟩,
    ⟨"filesystem.getUnnormalizedPath", _, fs.inputs.getUnnormalizedPath⟩,
    ⟨"filesystem.access", _, fs.inputs.access perm host⟩,
    ⟨"filesystem.chmod", _, fs.inputs.chmod perm host⟩,
    ⟨"filesystem.chown", _, fs.inputs.chown perm host⟩]

/-- The methods of `os`. -/
def os.methodInputs : List MethodInput :=
  [⟨"os.execCommand", _, os.inputs.execCommand perm⟩,
    ⟨"os.spawnProcess", _, os.inputs.spawnProcess perm⟩,
    ⟨"os.updateSpawnedProcess", _, os.inputs.updateSpawnedProcess⟩,
    ⟨"os.getSpawnedProcesses", _, os.inputs.getSpawnedProcesses⟩,
    ⟨"os.getEnv", _, os.inputs.getEnv⟩, ⟨"os.setEnv", _, os.inputs.setEnv⟩,
    ⟨"os.getEnvs", _, os.inputs.getEnvs⟩, ⟨"os.getLocaleInfo", _, os.inputs.getLocaleInfo⟩,
    ⟨"os.showOpenDialog", _, os.inputs.showOpenDialog⟩,
    ⟨"os.showFolderDialog", _, os.inputs.showFolderDialog⟩,
    ⟨"os.showSaveDialog", _, os.inputs.showSaveDialog⟩,
    ⟨"os.showNotification", _, os.inputs.showNotification⟩,
    ⟨"os.showMessageBox", _, os.inputs.showMessageBox⟩, ⟨"os.setTray", _, os.inputs.setTray⟩,
    ⟨"os.open", _, os.inputs.«open»⟩, ⟨"os.getPath", _, os.inputs.getPath⟩,
    ⟨"os.trashItem", _, os.inputs.trashItem⟩]

/-- The methods of `storage`. -/
def storage.methodInputs : List MethodInput :=
  [⟨"storage.setData", _, storage.inputs.setData⟩, ⟨"storage.getData", _, storage.inputs.getData⟩,
    ⟨"storage.removeData", _, storage.inputs.removeData⟩,
    ⟨"storage.getKeys", _, storage.inputs.getKeys⟩, ⟨"storage.clear", _, storage.inputs.clear⟩]

/-- The methods of `events` and of `extensions`. -/
def events.methodInputs : List MethodInput :=
  [⟨"events.broadcast", _, events.inputs.broadcast⟩,
    ⟨"extensions.dispatch", _, extensions.inputs.dispatch⟩,
    ⟨"extensions.broadcast", _, extensions.inputs.broadcast⟩,
    ⟨"extensions.getStats", _, extensions.inputs.getStats⟩]

/-- The methods of `resources`. -/
def res.methodInputs : List MethodInput :=
  [⟨"resources.getFiles", _, res.inputs.getFiles mode fileTree⟩,
    ⟨"resources.getStats", _, res.inputs.getStats⟩,
    ⟨"resources.extractFile", _, res.inputs.extractFile⟩,
    ⟨"resources.extractDirectory", _, res.inputs.extractDirectory mode fileTree⟩,
    ⟨"resources.readFile", _, res.inputs.readFile⟩,
    ⟨"resources.readBinaryFile", _, res.inputs.readBinaryFile⟩]

/-- The methods of `server` and of `net`. -/
def server.methodInputs : List MethodInput :=
  [⟨"server.mount", _, server.inputs.mount⟩, ⟨"server.unmount", _, server.inputs.unmount⟩,
    ⟨"server.getMounts", _, server.inputs.getMounts⟩, ⟨"net.request", _, net.inputs.request⟩]

/-- The methods of the nine components. -/
def methodInputs : List MethodInput :=
  app.methodInputs ++ fs.methodInputs perm host ++ os.methodInputs perm ++ storage.methodInputs ++
    events.methodInputs ++ res.methodInputs mode fileTree ++ server.methodInputs

end Methods

end Neutralino
