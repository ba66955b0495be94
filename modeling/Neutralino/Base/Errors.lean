import Neutralino.Base.Json
import Neutralino.Library.Replace

/-!
`errors.cpp`: the status codes, their messages and the error payloads that
native methods answer with.
-/

namespace Neutralino.errors

/-- `StatusCode`. -/
inductive StatusCode where
  | NE_ST_OK
  | NE_ST_INVSTKY
  | NE_ST_NOSTKEX
  | NE_ST_STKEYWE
  | NE_ST_STKEYRE
  | NE_ST_NOSTDIR
  | NE_OS_UNLTOUP
  | NE_OS_INVNOTA
  | NE_OS_INVMSGA
  | NE_OS_TRAYIER
  | NE_OS_INVKNPT
  | NE_OS_UNLTRAS
  | NE_OS_UNLTOUV
  | NE_OS_CMDNALW
  | NE_CO_UNLTOSC
  | NE_CO_UNLTOMG
  | NE_CO_UNLTONI
  | NE_CO_UNLTOSK
  | NE_CO_UNLTODI
  | NE_EX_EXTNOTC
  | NE_FS_FILWRER
  | NE_FS_DIRCRER
  | NE_FS_REMVERR
  | NE_FS_FILRDER
  | NE_FS_NOPATHE
  | NE_FS_NOTADIR
  | NE_FS_COPYERR
  | NE_FS_MOVEERR
  | NE_FS_FILOPER
  | NE_FS_UNLTOUP
  | NE_FS_UNLTFOP
  | NE_FS_UNLCWAT
  | NE_FS_NOWATID
  | NE_FS_UNLSTPR
  | NE_FS_ACSFAIL
  | NE_FS_CHMDERR
  | NE_FS_CHWNERR
  | NE_FS_SCOPERR
  | NE_WI_UNBSWSR
  | NE_RT_INVTOKN
  | NE_RT_APIPRME
  | NE_RT_NATPRME
  | NE_RT_NATRTER
  | NE_RT_NATNTIM
  | NE_RS_TREEGER
  | NE_RS_UNBLDRE
  | NE_RS_NOPATHE
  | NE_RS_FILEXTF
  | NE_RS_DIREXTF
  | NE_SR_UNBSEND
  | NE_SR_UNBPARS
  | NE_SR_MPINUSE
  | NE_SR_NOMTPTH
  | NE_NW_SSLCONN
  | NE_NW_SSLLOAD
  | NE_NW_SSLVERI
  | NE_NW_SSLHOST
  | NE_NW_HTTPERR
  | NE_CF_UNBLDCF
  | NE_CF_UNBPRCF
  | NE_CF_UNSUPMD
  | NE_CF_UNBLWCF
  deriving DecidableEq

open StatusCode

/-- `__getStatusCodeString`. -/
def getStatusCodeString : StatusCode → Str
  | NE_ST_OK => "NE_ST_OK"
  | NE_ST_INVSTKY => "NE_ST_INVSTKY"
  | NE_ST_NOSTKEX => "NE_ST_NOSTKEX"
  | NE_ST_STKEYWE => "NE_ST_STKEYWE"
  | NE_ST_STKEYRE => "NE_ST_STKEYRE"
  | NE_ST_NOSTDIR => "NE_ST_NOSTDIR"
  | NE_OS_UNLTOUP => "NE_OS_UNLTOUP"
  | NE_OS_INVNOTA => "NE_OS_INVNOTA"
  | NE_OS_INVMSGA => "NE_OS_INVMSGA"
  | NE_OS_TRAYIER => "NE_OS_TRAYIER"
  | NE_OS_INVKNPT => "NE_OS_INVKNPT"
  | NE_OS_UNLTRAS => "NE_OS_UNLTRAS"
  | NE_OS_UNLTOUV => "NE_OS_UNLTOUV"
  | NE_OS_CMDNALW => "NE_OS_CMDNALW"
  | NE_CO_UNLTOSC => "NE_CO_UNLTOSC"
  | NE_CO_UNLTOMG => "NE_CO_UNLTOMG"
  | NE_CO_UNLTONI => "NE_CO_UNLTONI"
  | NE_CO_UNLTOSK => "NE_CO_UNLTOSK"
  | NE_CO_UNLTODI => "NE_CO_UNLTODI"
  | NE_EX_EXTNOTC => "NE_EX_EXTNOTC"
  | NE_FS_FILWRER => "NE_FS_FILWRER"
  | NE_FS_DIRCRER => "NE_FS_DIRCRER"
  | NE_FS_REMVERR => "NE_FS_REMVERR"
  | NE_FS_FILRDER => "NE_FS_FILRDER"
  | NE_FS_NOPATHE => "NE_FS_NOPATHE"
  | NE_FS_NOTADIR => "NE_FS_NOTADIR"
  | NE_FS_COPYERR => "NE_FS_COPYERR"
  | NE_FS_MOVEERR => "NE_FS_MOVEERR"
  | NE_FS_FILOPER => "NE_FS_FILOPER"
  | NE_FS_UNLTOUP => "NE_FS_UNLTOUP"
  | NE_FS_UNLTFOP => "NE_FS_UNLTFOP"
  | NE_FS_UNLCWAT => "NE_FS_UNLCWAT"
  | NE_FS_NOWATID => "NE_FS_NOWATID"
  | NE_FS_UNLSTPR => "NE_FS_UNLSTPR"
  | NE_FS_ACSFAIL => "NE_FS_ACSFAIL"
  | NE_FS_CHMDERR => "NE_FS_CHMDERR"
  | NE_FS_CHWNERR => "NE_FS_CHWNERR"
  | NE_FS_SCOPERR => "NE_FS_SCOPERR"
  | NE_WI_UNBSWSR => "NE_WI_UNBSWSR"
  | NE_RT_INVTOKN => "NE_RT_INVTOKN"
  | NE_RT_APIPRME => "NE_RT_APIPRME"
  | NE_RT_NATPRME => "NE_RT_NATPRME"
  | NE_RT_NATRTER => "NE_RT_NATRTER"
  | NE_RT_NATNTIM => "NE_RT_NATNTIM"
  | NE_RS_TREEGER => "NE_RS_TREEGER"
  | NE_RS_UNBLDRE => "NE_RS_UNBLDRE"
  | NE_RS_NOPATHE => "NE_RS_NOPATHE"
  | NE_RS_FILEXTF => "NE_RS_FILEXTF"
  | NE_RS_DIREXTF => "NE_RS_DIREXTF"
  | NE_SR_UNBSEND => "NE_SR_UNBSEND"
  | NE_SR_UNBPARS => "NE_SR_UNBPARS"
  | NE_SR_MPINUSE => "NE_SR_MPINUSE"
  | NE_SR_NOMTPTH => "NE_SR_NOMTPTH"
  | NE_NW_SSLCONN => "NE_NW_SSLCONN"
  | NE_NW_SSLLOAD => "NE_NW_SSLLOAD"
  | NE_NW_SSLVERI => "NE_NW_SSLVERI"
  | NE_NW_SSLHOST => "NE_NW_SSLHOST"
  | NE_NW_HTTPERR => "NE_NW_HTTPERR"
  | NE_CF_UNBLDCF => "NE_CF_UNBLDCF"
  | NE_CF_UNBPRCF => "NE_CF_UNBPRCF"
  | NE_CF_UNSUPMD => "NE_CF_UNSUPMD"
  | NE_CF_UNBLWCF => "NE_CF_UNBLWCF"

/-- `__findStatusCodeDesc`. -/
def findStatusCodeDesc : StatusCode → Str
  | NE_ST_OK => ""
  | NE_ST_INVSTKY => "Invalid storage key format. The key should match regex: %1"
  | NE_ST_NOSTKEX => "Unable to find storage key: %1"
  | NE_ST_STKEYWE => "Unable to write data to key: %1"
  | NE_ST_STKEYRE => "Unable to remove storage key: %1"
  | NE_ST_NOSTDIR => "Unable to read storage directory: %1"
  | NE_OS_UNLTOUP => "Unable to update process id: %1"
  | NE_OS_INVNOTA => "Invalid notification style arguments: %1"
  | NE_OS_INVMSGA => "Invalid message box style arguments: %1"
  | NE_OS_TRAYIER => "Unable to initialize the tray menu"
  | NE_OS_INVKNPT => "Invalid platform path name: %1"
  | NE_OS_UNLTRAS => "Unable to move %1 item to trash"
  | NE_OS_UNLTOUV => "Unable to set environment variable"
  | NE_OS_CMDNALW => "Shell command \"%1\" is not allowed"
  | NE_CO_UNLTOSC => "Unable to set mouse cursor"
  | NE_CO_UNLTOMG => "Unable to set mouse grabbing"
  | NE_CO_UNLTONI => "Unable to retrieve network interfaces"
  | NE_CO_UNLTOSK => "Unable to send keys"
  | NE_CO_UNLTODI => "Unable to retrieve disk information"
  | NE_EX_EXTNOTC => "%1 is not connected yet"
  | NE_FS_FILWRER => "Unable to write file: %1"
  | NE_FS_DIRCRER => "Cannot create a directory in %1"
  | NE_FS_REMVERR => "Cannot remove path: %1"
  | NE_FS_FILRDER => "Unable to open file: %1"
  | NE_FS_NOPATHE => "Unable to open path %1"
  | NE_FS_NOTADIR => "Path %1 is not a directory"
  | NE_FS_COPYERR => "Cannot perform copy: %1"
  | NE_FS_MOVEERR => "Cannot perform move: %1"
  | NE_FS_FILOPER => "Unable to open file: %1"
  | NE_FS_UNLTOUP => "Unable to update opened file id: %1"
  | NE_FS_UNLTFOP => "Unable to find opened file id: %1"
  | NE_FS_UNLCWAT => "Unable to create watcher for path: %1"
  | NE_FS_NOWATID => "Unable to find watcher: %1"
  | NE_FS_UNLSTPR => "Unable to set file permissions for %1"
  | NE_FS_ACSFAIL => "File access check failed for %1"
  | NE_FS_CHMDERR => "Unable to change permissions for %1"
  | NE_FS_CHWNERR => "Unable to change ownership for %1"
  | NE_FS_SCOPERR => "Cannot access path %1 outside configured filesystem scopes"
  | NE_WI_UNBSWSR => "Unable to save window screenshot to %1"
  | NE_RT_INVTOKN => "Invalid or expired NL_TOKEN value from client"
  | NE_RT_APIPRME => "Missing permission to access Native API"
  | NE_RT_NATPRME => "Missing permission to execute the native method: %1"
  | NE_RT_NATRTER => "Native method execution error occurred. Required parameter is missing: %1"
  | NE_RT_NATNTIM => "%1 is not implemented in the Neutralinojs server"
  | NE_RS_TREEGER => "Resource file tree generation error. %1 is missing."
  | NE_RS_UNBLDRE => "Unable to load application resource file %1"
  | NE_RS_NOPATHE => "Path (%1) doesn't exist in resources"
  | NE_RS_FILEXTF => "Unable to extract the requested file to %1"
  | NE_RS_DIREXTF => "Unable to extract the requested directory to %1"
  | NE_SR_UNBSEND => "Unable to send native message"
  | NE_SR_UNBPARS => "Unable to parse native call payload"
  | NE_SR_MPINUSE => "Mount path is already in use: %1"
  | NE_SR_NOMTPTH => "Cannot unmount %1, the path that was not mounted"
  | NE_NW_SSLCONN => "SSL connection failed: %1"
  | NE_NW_SSLLOAD => "SSL certificate loading failed: %1"
  | NE_NW_SSLVERI => "SSL server verification failed for %1"
  | NE_NW_SSLHOST => "SSL hostname verification failed for %1"
  | NE_NW_HTTPERR => "HTTP error: %1"
  | NE_CF_UNBLDCF => "Unable to load the %1 configuration file. Framework defaults will be loaded."
  | NE_CF_UNBPRCF => "Unable to parse the config file: %1"
  | NE_CF_UNSUPMD => "Unsupported mode: %1. The default mode (window) is selected."
  | NE_CF_UNBLWCF => "Unable to load the window config file: %1"

/-- `__getStatusCodeDesc`: the template with its `%1` replaced. -/
def getStatusCodeDesc (code : StatusCode) (param : Str) : Str :=
  Replace.replaceAll ['%', '1'] param (findStatusCodeDesc code)

/-- `makeErrorMsg`. -/
def makeErrorMsg (code : StatusCode) (param : Str) : Str :=
  getStatusCodeString code ++ (": " ++ getStatusCodeDesc code param)

/-- `makeErrorPayload`; the parameter is empty where the source leaves it out. -/
def makeErrorPayload (code : StatusCode) (param : Str) : Json :=
  .obj [(("code" : Str), .str (getStatusCodeString code)),
    (("message" : Str), .str (getStatusCodeDesc code param))]

/-- `makeMissingArgErrorPayload`. -/
def makeMissingArgErrorPayload (missingArg : Str) : Json :=
  makeErrorPayload NE_RT_NATRTER missingArg

/-- An output object that carries only an error. -/
def errorOutput (payload : Json) : Json := .obj [(("error" : Str), payload)]

end Neutralino.errors
