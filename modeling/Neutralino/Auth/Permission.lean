import Neutralino.Base.Settings
import Neutralino.Api.PathConstants

/-!
`permission.cpp`: the permission state that `init` registers from the
configuration, and the four decisions taken on it.

* `Permission`: the globals of the component.
* `init`: the allow list, the block list, the command allow list and the
  filesystem scopes, registered in this order.
* `hasMethodAccess`, `hasAPIAccess`, `hasCommandExecutionAccess`,
  `hasFileSystemPathAccess`: the decisions.
-/

namespace Neutralino

/-- The globals of `permission.cpp`. -/
structure Permission where
  blockedMethods : List Str := []
  blockedModules : List Str := []
  allowedMethods : List Str := []
  allowedModules : List Str := []
  allowedCommandPatterns : List Str := []
  fileSystemReadScopes : List Str := []
  fileSystemWriteScopes : List Str := []
  shouldCheckBlockList : Bool := false
  shouldCheckAllowList : Bool := false
  shouldCheckCommandAllowList : Bool := false
  shouldCheckScopesLists : Bool := false

namespace permission

open Regex

/-- `FileSystemAccessPermission`. -/
inductive FileSystemAccessPermission where
  | read
  | write
  deriving DecidableEq

/-! ### Reading entries and paths -/

/-- `__isWildcardMatch`: the expression `.*\.\*`. -/
def isWildcardMatch (methodMatch : Str) : Bool :=
  (Re.cat dotStar (.lit ['.', '*'])).test methodMatch

/-- `__getModuleFromMethod`; the text without tokens is indexed past its end. -/
def getModuleFromMethod (nativeMethod : Str) : Except Fault Str :=
  match helpers.splitTwo nativeMethod '.' with
  | part :: _ => .ok part
  | [] => .error .undefinedBehaviour

/-- `__normalizeScopePath`; `absolute` throws on the empty path. -/
def normalizeScopePath (host : Host) (path : Str) : Except Fault Str :=
  let resolved := fs.applyPathConstants host path
  match host.weaklyCanonical resolved with
  | none => .error .filesystemError
  | some norm =>
      if norm = [] then .error .filesystemError
      else .ok (helpers.normalizePath (FilePath.absolute host.cwd norm))

/-- A path is normalised, or `std::filesystem` throws. -/
lemma normalizeScopePath_cases (host : Host) (path : Str) :
    (∃ scope, normalizeScopePath host path = .ok scope) ∨
      normalizeScopePath host path = .error .filesystemError := by
  rw [normalizeScopePath]
  cases host.weaklyCanonical (fs.applyPathConstants host path) with
  | none => exact .inr rfl
  | some norm =>
      dsimp only
      split_ifs
      · exact .inr rfl
      · exact .inl ⟨_, rfl⟩

/-- `__isPathInScope`. -/
def isPathInScope (host : Host) (originalPath scope : Str) : Except Fault Bool := do
  let path ← normalizeScopePath host originalPath
  return path == scope ||
    (scope.length < path.length && path.take scope.length == scope &&
      path[scope.length]? == some '/')

/-! ### Registration -/

/-- The loop of the two registrations of method lists: a wildcard entry adds
its module, any other entry itself. -/
def sortEntries : List Str → List Str → List Str → Except Fault (List Str × List Str)
  | modules, methods, [] => .ok (modules, methods)
  | modules, methods, entry :: entries =>
      if isWildcardMatch entry then do
        let module ← getModuleFromMethod entry
        sortEntries (modules ++ [module]) methods entries
      else sortEntries modules (methods ++ [entry]) entries

/-- `__registerBlockList`. -/
def registerBlockList (options : Json) (p : Permission) : Except Fault Permission := do
  let jNativeBlockList ← settings.getOptionForCurrentMode options "nativeBlockList"
  if jNativeBlockList.isNull then return p
  let blockListVector ← jNativeBlockList.getStrings
  let sorted ← sortEntries p.blockedModules p.blockedMethods blockListVector
  return { p with
    blockedModules := sorted.1, blockedMethods := sorted.2, shouldCheckBlockList := true }

/-- `__registerAllowList`. -/
def registerAllowList (options : Json) (p : Permission) : Except Fault Permission := do
  let jNativeAllowList ← settings.getOptionForCurrentMode options "nativeAllowList"
  if jNativeAllowList.isNull then return p
  let allowListVector ← jNativeAllowList.getStrings
  let sorted ← sortEntries p.allowedModules p.allowedMethods allowListVector
  return { p with
    allowedModules := sorted.1, allowedMethods := sorted.2, shouldCheckAllowList := true }

/-- `__regiserCommandAllowList`. -/
def regiserCommandAllowList (options : Json) (p : Permission) : Except Fault Permission := do
  let jCommandAllowList ← settings.getOptionForCurrentMode options "commandAllowList"
  if jCommandAllowList.isNull then return p
  let patterns ← jCommandAllowList.getStrings
  return { p with allowedCommandPatterns := patterns, shouldCheckCommandAllowList := true }

/-- One entry of the scope map: its path, normalised, joins the lists its mode names. -/
def registerScope (host : Host) (p : Permission) (entry : Str × Json) :
    Except Fault Permission := do
  let perm ← entry.2.getString
  let normalizedScope ← normalizeScopePath host entry.1
  let p := if perm = "read-write".toList ∨ perm = "read".toList then
    { p with fileSystemReadScopes := p.fileSystemReadScopes ++ [normalizedScope] } else p
  return if perm = "read-write".toList ∨ perm = "write".toList then
    { p with fileSystemWriteScopes := p.fileSystemWriteScopes ++ [normalizedScope] } else p

/-- `__registerScopesLists`. -/
def registerScopesLists (host : Host) (options : Json) (p : Permission) :
    Except Fault Permission := do
  let jScopes ← settings.getOptionForCurrentMode options "filesystemScopes"
  if jScopes.isNull then return p
  let p ← jScopes.items.foldlM (registerScope host) p
  return { p with shouldCheckScopesLists := true }

/-- `init`. -/
def init (host : Host) (options : Json) : Except Fault Permission := do
  let p ← registerAllowList options {}
  let p ← registerBlockList options p
  let p ← regiserCommandAllowList options p
  registerScopesLists host options p

/-! ### Decisions -/

/-- `hasMethodAccess`. -/
def hasMethodAccess (p : Permission) (nativeMethod : Str) : Except Fault Bool := do
  let module ← getModuleFromMethod nativeMethod
  if p.shouldCheckBlockList then
    if p.blockedModules.contains module then return false
    if p.blockedMethods.contains nativeMethod then return false
    return true
  else if p.shouldCheckAllowList then
    if p.allowedModules.contains module then return true
    if p.allowedMethods.contains nativeMethod then return true
    return false
  else return true

/-- `hasAPIAccess`. -/
def hasAPIAccess (options : Json) : Except Fault Bool := do
  let jEnableNativeAPI ← settings.getOptionForCurrentMode options "enableNativeAPI"
  if !jEnableNativeAPI.isNull then jEnableNativeAPI.getBool else return false

/-- `hasCommandExecutionAccess`. -/
def hasCommandExecutionAccess (p : Permission) (command : Str) : Bool :=
  if !p.shouldCheckCommandAllowList || p.allowedCommandPatterns.isEmpty then true
  else
    match helpers.tokenizeCommand command with
    | [] => false
    | program :: _ => p.allowedCommandPatterns.any fun pattern => helpers.globalMatch program pattern

/-- The scope list of a permission kind. -/
def activeScopes (p : Permission) : FileSystemAccessPermission → List Str
  | .write => p.fileSystemWriteScopes
  | .read => p.fileSystemReadScopes

/-- The loop over the scopes: whether one of them covers the path. -/
def anyInScope (host : Host) (path : Str) : List Str → Except Fault Bool
  | [] => .ok false
  | scope :: scopes => do
      if ← isPathInScope host path scope then return true else anyInScope host path scopes

/-- `hasFileSystemPathAccess`. -/
def hasFileSystemPathAccess (host : Host) (p : Permission) (path : Str)
    (perm : FileSystemAccessPermission) : Except Fault Bool :=
  if !p.shouldCheckScopesLists then .ok true
  else if (activeScopes p perm).isEmpty then .ok false
  else anyInScope host path (activeScopes p perm)

end permission

end Neutralino
