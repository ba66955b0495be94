import Neutralino.Base.Settings
import Neutralino.Server.Mounts

/-!
The static server: `router::getAsset`, `router::serve` and the request handler
`neuserver::handleHTTP` in front of them.

* `Site`: what a lookup reads: the configuration, the mounts, the resource store.
* `lookupOf`: where `getAsset` looks for a path, in a mount or among the resources.
* `getAsset`: the lookup with its completion to `index.html` and its single-page
  fallback, with the places it looked in; `fuel` bounds its recursion.
* `serve`, `handleHTTP`: the path of a request, decoded and cut at its query.
-/

namespace Neutralino

open Regex

namespace settings

/-- `getNavigationUrl`. -/
def getNavigationUrl (options : Json) : Except Fault Str := do
  let url ← getOptionForCurrentMode options "url"
  if url.isNull then return "https://neutralino.js.org" else url.getString

lemma getNavigationUrl_defined (options : Json) : Defined (getNavigationUrl options) :=
  (getOptionForCurrentMode_defined _ _).bind fun _ _ =>
    defined_ite (defined_ok _) (Json.getString_defined _)

end settings

namespace neuserver

/-- `getDocumentRoot`; the last character of an empty option is undefined. -/
def getDocumentRoot (options : Json) : Except Fault Str := do
  let jDocumentRoot ← settings.getOptionForCurrentMode options "documentRoot"
  if jDocumentRoot.isNull then return []
  let documentRoot ← jDocumentRoot.getString
  match documentRoot.getLast? with
  | none => .error .undefinedBehaviour
  | some c => return if c = '/' then documentRoot.dropLast else documentRoot

end neuserver

namespace router

/-- `Response`; the status is the HTTP status code. -/
structure Response where
  status : ℕ := 200
  contentType : Str := "application/octet-stream"
  data : Str := []
  headers : List (Str × Str) := []

/-- `mimeTypes`. -/
def mimeTypes : List (String × String) :=
  [("css", "text/css"), ("csv", "text/csv"), ("txt", "text/plain"), ("vtt", "text/vtt"),
    ("htm", "text/html"), ("html", "text/html"), ("apng", "image/apng"), ("avif", "image/avif"),
    ("bmp", "image/bmp"), ("gif", "image/gif"), ("png", "image/png"), ("svg", "image/svg+xml"),
    ("webp", "image/webp"), ("ico", "image/x-icon"), ("tif", "image/tiff"), ("tiff", "image/tiff"),
    ("jpg", "image/jpeg"), ("jpeg", "image/jpeg"), ("mp4", "video/mp4"), ("mpeg", "video/mpeg"),
    ("webm", "video/webm"), ("mp3", "audio/mp3"), ("mpga", "audio/mpeg"), ("weba", "audio/webm"),
    ("wav", "audio/wave"), ("otf", "font/otf"), ("ttf", "font/ttf"), ("woff", "font/woff"),
    ("woff2", "font/woff2"), ("7z", "application/x-7z-compressed"), ("atom", "application/atom+xml"),
    ("pdf", "application/pdf"), ("js", "application/javascript"), ("mjs", "application/javascript"),
    ("json", "application/json"), ("rss", "application/rss+xml"), ("tar", "application/x-tar"),
    ("xht", "application/xhtml+xml"), ("xhtml", "application/xhtml+xml"),
    ("xslt", "application/xslt+xml"), ("xml", "application/xml"), ("gz", "application/gzip"),
    ("zip", "application/zip"), ("wasm", "application/wasm")]

/-- The content type of an extension. -/
def contentTypeOf (extension : Str) : Str :=
  match mimeTypes.find? fun entry => entry.1.toList = extension with
  | some entry => entry.2
  | none => "application/octet-stream"

/-- What a lookup reads: the configuration, the mounts, the disk behind them,
and `resources::getFile`. -/
structure Site where
  options : Json
  mounts : MountTable
  disk : Disk
  getFile : Str → fs.FileReaderOptions → Except Fault fs.FileReaderResult

/-- The resources of the directory mode: files below the application path. -/
def Site.directory (options : Json) (mounts : MountTable) (appPath : Str) (disk : Disk) : Site where
  options := options
  mounts := mounts
  disk := disk
  getFile name readerOptions := fs.readFile disk (appPath ++ name) readerOptions

/-- A place `getAsset` looks in: a name among the resources, or a file named
below the target of the mount the path was routed to. -/
inductive Lookup where
  | resource (name : Str)
  | mounted (target rest : Str)
  deriving DecidableEq

/-- The file a lookup below a mount reads. -/
def mountedFile (target rest : Str) : Str := target ++ '/' :: rest

/-- The mount loop of `getAsset`: the first mounted path that begins the path
below the document root. -/
def lookupOf (options : Json) (mounts : MountTable) (path : Str) : Except Fault Lookup :=
  if mounts.entries = [] then .ok (.resource path)
  else do
    let documentRoot ← neuserver.getDocumentRoot options
    -- `path.substr(documentRoot.length())`
    if path.length < documentRoot.length then .error .outOfRange
    else
      let pathname := path.drop documentRoot.length
      match mounts.entries.find? fun m => m.1.isPrefixOf pathname with
      | some m => return .mounted m.2 (pathname.drop m.1.length)
      | none => return .resource path

/-- The file read at a lookup. -/
def Site.read (site : Site) (readerOptions : fs.FileReaderOptions) :
    Lookup → Except Fault fs.FileReaderResult
  | .resource name => site.getFile name readerOptions
  | .mounted target rest => fs.readFile site.disk (mountedFile target rest) readerOptions

/-- Reading is never undefined in the directory mode. -/
lemma Site.directory_read_defined {options : Json} {mounts : MountTable} {appPath : Str} {disk : Disk}
    {readerOptions : fs.FileReaderOptions} (lookup : Lookup) :
    Defined ((Site.directory options mounts appPath disk).read readerOptions lookup) := by
  cases lookup with
  | resource name => exact fs.readFile_defined disk _ _
  | mounted target rest => exact fs.readFile_defined disk _ _

/-- The expression `.*index.html$`. -/
def indexPage : Re Char := .cat dotStar (.cat (.lit "index".toList) (.cat dot (.lit "html".toList)))

/-- The path of the start page: the document root with `index.html`, or the URL. -/
def startPage (options : Json) : Except Fault Str := do
  let jDocumentRoot ← settings.getOptionForCurrentMode options "documentRoot"
  if jDocumentRoot.isNull then settings.getNavigationUrl options
  else return (← jDocumentRoot.getString) ++ "index.html".toList

/-- The path `getAsset` falls back to for a path that was not found, where there is one. -/
def spaFallback (options : Json) (path : Str) : Except Fault (Option Str) := do
  let jSpaServing ← settings.getOptionForCurrentMode options "singlePageServe"
  if jSpaServing.isNull then return none
  if !(← jSpaServing.getBool) then return none
  if !indexPage.test path then return none
  let newPath ← startPage options
  return if newPath = path then none else some newPath

/-- The response for the file read at a path. -/
def respond (path prependData : Str) (readerOptions : fs.FileReaderOptions)
    (file : fs.FileReaderResult) : Response :=
  let response : Response :=
    if file.status ≠ .NE_ST_OK then { status := 404, data := file.data }
    else if readerOptions.pos ≤ -1 then { data := file.data }
    else if file.size ≤ readerOptions.pos then
      { status := 416
        headers := [("Accept-Ranges", "bytes"), ("Content-Length", "0"),
          ("Content-Range", "bytes */".toList ++ decimal file.size)] }
    else
      let bytesRead : ℤ := file.data.length
      let last := readerOptions.pos + bytesRead - 1
      { status := 206
        data := file.data
        headers := [("Accept-Ranges", "bytes"), ("Content-Length", decimal bytesRead),
          ("Content-Range", "bytes ".toList ++ decimal readerOptions.pos ++ "-".toList ++
            decimal last ++ "/".toList ++ decimal file.size)] }
  { response with
    data := prependData ++ response.data
    contentType := contentTypeOf ((helpers.split path '.' none).getLast?.getD []) }

/-- A run of the static server: the places it looked in, and how it ended;
`none` where the recursion has outlasted its fuel. -/
structure Served where
  lookups : List Lookup := []
  ended : Option (Except Fault Response) := none

/-- A run that looked in a place first. -/
def Served.after (lookup : Lookup) (served : Served) : Served :=
  { served with lookups := lookup :: served.lookups }

/-- `getAsset`; the last character of an empty path is undefined. -/
def getAsset (site : Site) (prependData : Str) (readerOptions : fs.FileReaderOptions) :
    ℕ → Str → Served
  | 0, _ => {}
  | fuel + 1, path =>
      if (helpers.split path '.' none).length < 2 then
        match path.getLast? with
        | none => { ended := some (.error .undefinedBehaviour) }
        | some c =>
            getAsset site prependData readerOptions fuel
              ((if c = '/' then path else path ++ ['/']) ++ "index.html".toList)
      else
        match lookupOf site.options site.mounts path with
        | .error fault => { ended := some (.error fault) }
        | .ok lookup =>
            Served.after lookup
              (match site.read readerOptions lookup with
              | .error fault => { ended := some (.error fault) }
              | .ok file =>
                  if file.status = .NE_ST_OK then
                    { ended := some (.ok (respond path prependData readerOptions file)) }
                  else
                    match spaFallback site.options path with
                    | .error fault => { ended := some (.error fault) }
                    | .ok none =>
                        { ended := some (.ok (respond path prependData readerOptions file)) }
                    | .ok (some newPath) =>
                        getAsset site prependData readerOptions fuel newPath)

/-- The path `serve` makes of the text it is given: decoded, and cut at the query. -/
def servedPath (path : Str) : Str :=
  (helpers.cString (helpers.urldecode (helpers.cString path))).takeWhile (· ≠ '?')

/-- The expression `.*neutralino.js$`. -/
def clientLibrary : Re Char :=
  .cat dotStar (.cat (.lit "neutralino".toList) (.cat dot (.lit "js".toList)))

/-- The expression `.*__neutralino_globals.js$`. -/
def globalsRequest : Re Char :=
  .cat dotStar (.cat (.lit "__neutralino_globals".toList) (.cat dot (.lit "js".toList)))

/-- The path asks for the script alone. -/
def globalsOnly (path : Str) : Bool := !clientLibrary.test path && globalsRequest.test path

/-- `serve`; `globals` is the script of `settings::getGlobalVars`, absent where that throws. -/
def serve (site : Site) (globals : Option Str) (readerOptions : fs.FileReaderOptions)
    (fuel : ℕ) (path : Str) : Served :=
  let path := servedPath path
  if clientLibrary.test path then
    match globals with
    | none => { ended := some (.error .typeError) }
    | some script => getAsset site script readerOptions fuel path
  else if globalsRequest.test path then
    match globals with
    | none => { ended := some (.error .typeError) }
    | some script =>
        { ended := some (.ok { contentType := "application/javascript", data := script }) }
  else getAsset site [] readerOptions fuel path

end router

namespace neuserver

/-- `handleHTTP` up to its response; an empty document root leaves the resource as it is. -/
def handleHTTP (site : router.Site) (globals : Option Str)
    (readerOptions : fs.FileReaderOptions) (fuel : ℕ) (resource : Str) : router.Served :=
  match getDocumentRoot site.options with
  | .error fault => { ended := some (.error fault) }
  | .ok documentRoot => router.serve site globals readerOptions fuel (documentRoot ++ resource)

section

variable {site : router.Site} {globals : Option Str} {readerOptions : fs.FileReaderOptions}
  {fuel : ℕ} {resource : Str}

lemma handleHTTP_of_error {fault : Fault} (h : getDocumentRoot site.options = .error fault) :
    handleHTTP site globals readerOptions fuel resource = { ended := some (.error fault) } := by
  rw [handleHTTP, h]

lemma handleHTTP_of_ok {documentRoot : Str} (h : getDocumentRoot site.options = .ok documentRoot) :
    handleHTTP site globals readerOptions fuel resource =
      router.serve site globals readerOptions fuel (documentRoot ++ resource) := by
  rw [handleHTTP, h]

end

end neuserver

end Neutralino
