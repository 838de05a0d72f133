import HFile.Source.HttpText
import HFile.Source.Server

-- src/http.c: requests and replies. The functions return `true` where the code returns 0. Changes of
-- the receive timeout have no counterpart.

-- A header as the request parser of third_party/picohttpparser.c returns it. The name is missing in
-- the continuation of a header over several lines.
structure PhrHeader where
  name  : Option Bytes
  value : Bytes

structure PhrRequest where
  method       : Bytes
  path         : Bytes
  minorVersion : Int
  headers      : List PhrHeader

structure WebuiAsset where
  path        : CStr
  contentType : CStr
  body        : Bytes

-- What `phr_parse_request` returns for a header block (`none` for a result of 0 or less), and the
-- table of src/webui.c.
structure HttpDeps where
  phrParseRequest : Bytes → Option PhrRequest
  webuiAssets     : List WebuiAsset

-- `webui_assets`, for any texts of the files.
def webuiAssets (indexHtml appJs stylesCss faviconSvg : Bytes) : List WebuiAsset :=
  [⟨.lit "/", .lit "text/html; charset=utf-8", indexHtml⟩,
   ⟨.lit "/app.js", .lit "application/javascript; charset=utf-8", appJs⟩,
   ⟨.lit "/styles.css", .lit "text/css; charset=utf-8", stylesCss⟩,
   ⟨.lit "/favicon.svg", .lit "image/svg+xml", faviconSvg⟩]

def webuiFindAsset (deps : HttpDeps) (path : CStr) : Option WebuiAsset :=
  deps.webuiAssets.find? (·.path = path)

structure HttpRequest where
  method              : CStr
  path                : CStr
  query               : CStr
  contentType         : CStr
  contentLength       : UInt64
  hasContentLength    : Bool
  hasTransferEncoding : Bool

def httpDiscardBody.loop (as : List Arrival) (remaining : Nat) : Bool × List Arrival :=
  if remaining = 0 then (true, as) else
  match _h : Arrival.recv (min 4096 remaining) as with
  | (.error _, as') => (false, as')
  | (.ok got, as')  =>
    if _hg : got = [] then (false, as') else httpDiscardBody.loop as' (remaining - got.length)
termination_by Arrival.weight as
decreasing_by
  have := Arrival.recv_ok_weight _h
  have := List.length_pos_iff.mpr _hg
  omega

def httpDiscardBody (contentLength : UInt64) : Io Bool := fun e =>
  let (r, as) := httpDiscardBody.loop e.inp contentLength.toNat
  pure (r, { e with inp := as })

-- `send_all` of a whole buffer.
def httpSendAll (bs : Bytes) : Io Bool := do
  return (← sendAll bs) = some bs.length

def crlf : Bytes := [13, 10]

-- No caller passes extra headers.
def httpSendResponse (status : Nat) (reason contentType : CStr) (body : Bytes) : Io Bool := do
  let header := ascii "HTTP/1.1 " ++ (CStr.decimal status).chars ++ ascii " " ++ reason.chars ++ crlf ++
    ascii "Content-Type: " ++ contentType.chars ++ crlf ++
    ascii "Content-Length: " ++ (CStr.decimal body.length).chars ++ crlf ++
    ascii "Connection: close" ++ crlf ++ crlf
  if header.length ≥ 1024 then return false
  if !(← httpSendAll header) then return false
  if body.length > 0 then
    if !(← httpSendAll body) then return false
  return true

def httpSendSseHeaders : Io Bool :=
  httpSendAll (ascii "HTTP/1.1 200 OK" ++ crlf ++
    ascii "Content-Type: text/event-stream; charset=utf-8" ++ crlf ++
    ascii "Cache-Control: no-cache" ++ crlf ++
    ascii "Connection: close" ++ crlf ++
    ascii "X-Accel-Buffering: no" ++ crlf ++ crlf)

-- Every line of the message becomes a `data` line.
def httpSendSseMessageEvent.data (message : CStr) : Bytes :=
  message.chars.flatMap fun c => if c = 10 then ascii "\ndata: " else [c]

def httpSendSseMessageEvent (message : CStr) : Io Bool :=
  httpSendAll (ascii "event: message\n" ++ ascii "data: " ++ httpSendSseMessageEvent.data message ++
    ascii "\n\n")

def httpSendSseKeepalive : Io Bool :=
  httpSendAll (ascii ": keep-alive\n\n")

def jsonContentType : CStr := .lit "application/json; charset=utf-8"

def httpSendJsonError (status : Nat) (reason message : CStr) : Io Bool :=
  httpSendResponse status reason jsonContentType
    (ascii "\x7b\"error\":\"" ++ message.chars.flatMap httpSendJsonError.escape ++ ascii "\"\x7d")

inductive HttpHeaderBlock
  | ok (block : Bytes)
  | failed
  | eof
  | tooLarge

-- `recv` of one byte at a time, until the block is complete or the buffer is full.
def httpReadHeaderBlock.loop (cap : Nat) (out : Bytes) (as : List Arrival) :
    HttpHeaderBlock × List Arrival :=
  if _hc : out.length + 1 ≥ cap then (.tooLarge, as) else
  match Arrival.recv 1 as with
  | (.error _, as') => (.failed, as')
  | (.ok got, as')  =>
    if _hg : got = [] then (.eof, as')
    else if crlf ++ crlf <:+ out ++ got then (.ok (out ++ got), as')
    else httpReadHeaderBlock.loop cap (out ++ got) as'
termination_by cap - out.length
decreasing_by
  have := List.length_pos_iff.mpr _hg
  rw [List.length_append]
  omega

def httpReadHeaderBlock (cap : Nat) : Io HttpHeaderBlock := fun e =>
  let (r, as) := httpReadHeaderBlock.loop cap [] e.inp
  pure (r, { e with inp := as })

def httpHeaderNameEquals (header name : Bytes) : Bool :=
  header.map tolower = name.map tolower

-- A value of at least `cap` bytes is refused.
def httpCopyHeaderValue (cap : Nat) (value : Bytes) : Option CStr :=
  if value.length ≥ cap then none else some (.ofBuf value)

inductive HttpParseError
  | invalid | version
  deriving DecidableEq

-- Takes over what the request needs of one header.
def httpParseRequest.header (req : HttpRequest) (header : PhrHeader) : Option HttpRequest :=
  match header.name with
  | none      => none
  | some name =>
    if httpHeaderNameEquals name (ascii "Content-Length") then do
      let value ← httpCopyHeaderValue httpContentTypeMax header.value
      let length ← httpParseU64 value
      some { req with contentLength := length, hasContentLength := true }
    else if httpHeaderNameEquals name (ascii "Content-Type") then do
      let value ← httpCopyHeaderValue httpContentTypeMax header.value
      some { req with contentType := value }
    else if httpHeaderNameEquals name (ascii "Transfer-Encoding") then
      some { req with hasTransferEncoding := true }
    else
      some req

-- Cuts the query off the path.
def httpParseRequest.split (req : HttpRequest) : Option HttpRequest :=
  match req.path.chars.dropWhile (· != 63) with
  | []         => some req
  | _ :: query =>
    if (CStr.ofBuf query).strlen ≥ httpPathMax then none
    else some { req with
      path  := .ofBuf (req.path.chars.takeWhile (· != 63))
      query := .ofBuf query }

def httpParseRequest (deps : HttpDeps) (block : Bytes) : Except HttpParseError HttpRequest :=
  match deps.phrParseRequest (CStr.ofBuf block).chars with
  | none     => .error .invalid
  | some phr =>
    if phr.minorVersion ≠ 1 then .error .version
    else if phr.method.length ≥ 8 ∨ phr.path.length ≥ httpPathMax then .error .invalid
    else
      let req : HttpRequest :=
        { method := .ofBuf phr.method, path := .ofBuf phr.path, query := .lit "",
          contentType := .lit "", contentLength := 0, hasContentLength := false,
          hasTransferEncoding := false }
      match (phr.headers.foldlM httpParseRequest.header req).bind httpParseRequest.split with
      | none     => .error .invalid
      | some req => .ok req

structure HttpFileEntry where
  name  : CStr
  path  : CStr
  kind  : FsPathKind
  size  : Nat
  mtime : Nat

-- `http_file_entry_cmp`: the newest entry first, and entries of the same age by name.
def httpFileEntryLe (a b : HttpFileEntry) : Bool :=
  b.mtime < a.mtime ∨ (a.mtime = b.mtime ∧ a.name.chars ≤ b.name.chars)

-- The entries of a directory in the order in which they are read. The result is `none` if a path does
-- not fit its buffer, and an entry that has vanished is left out.
def httpListFiles.entries (dir relativeDir : CStr) : List CStr → Io (Option (List HttpFileEntry))
  | []            => pure (some [])
  | name :: names => do
    if name = .lit "." ∨ name = .lit ".." then return ← httpListFiles.entries dir relativeDir names
    match fsJoinPath pathCap dir name with
    | none          => return none
    | some fullPath =>
      match httpBuildRelativeChildPath httpPathMax relativeDir name with
      | none              => return none
      | some relativePath =>
        match ← fsStatPath fullPath with
        | none      => httpListFiles.entries dir relativeDir names
        | some info =>
          let entry := ⟨name, relativePath, info.kind, if info.kind = .file then info.size else 0,
            info.mtime⟩
          return (← httpListFiles.entries dir relativeDir names).map (entry :: ·)

def httpListFiles (dir relativeDir : CStr) : Io (Option (List HttpFileEntry)) := do
  match ← Io.sys (.opendir dir (← Io.fault)) with
  | none       => return none
  | some names =>
    return (← httpListFiles.entries dir relativeDir names).map (·.mergeSort httpFileEntryLe)

def httpBuildFilesJson.entry (x : HttpFileEntry) : Bytes :=
  ascii "\x7b\"name\":\"" ++ httpJsonEscape x.name ++
  ascii "\",\"path\":\"" ++ httpJsonEscape x.path ++
  ascii "\",\"kind\":\"" ++ httpPathKindName x.kind ++
  ascii "\",\"size\":" ++ (CStr.decimal x.size).chars ++
  ascii ",\"mtime\":" ++ (CStr.decimal x.mtime).chars ++ ascii "\x7d"

def httpBuildFilesJson.text (entries : List HttpFileEntry) : Bytes :=
  ascii "[" ++ (ascii ",").intercalate (entries.map httpBuildFilesJson.entry) ++ ascii "]"

def httpBuildFilesJson (dir relativeDir : CStr) : Io (Option Bytes) := do
  return (← httpListFiles dir relativeDir).map httpBuildFilesJson.text

-- The name in the header of a download, in a buffer of 512 bytes.
def httpSendFile.safeName (relativePath : CStr) : Bytes :=
  ((httpRelativeBasename relativePath).chars.take 511).map fun c =>
    if c = 34 ∨ c = 92 ∨ c = 13 ∨ c = 10 then 95 else c

def httpSendFile.header (size : Nat) (safeName : Bytes) : Bytes :=
  ascii "HTTP/1.1 200 OK" ++ crlf ++
  ascii "Content-Type: application/octet-stream" ++ crlf ++
  ascii "Content-Length: " ++ (CStr.decimal size).chars ++ crlf ++
  ascii "Content-Disposition: attachment; filename=\"" ++ safeName ++ ascii "\"" ++ crlf ++
  ascii "Connection: close" ++ crlf ++ crlf

def httpSendFile.send (relativePath : CStr) (download : AppDownload) : Io Bool := do
  let header := httpSendFile.header download.info.size (httpSendFile.safeName relativePath)
  if header.length ≥ 1024 then return false
  if !(← httpSendAll header) then return false
  return (← netSendFileBestEffort download.fd download.info.size.toUInt64) = .ok

def httpSendFile (opt : ServerOpt) (relativePath : CStr) : Io Bool := do
  if !fsValidateRelativePath relativePath then
    return ← httpSendJsonError 400 (.lit "Bad Request") (.lit "invalid file path")
  match ← appPrepareDownload opt.path relativePath with
  | .error _     => httpSendJsonError 404 (.lit "Not Found") (.lit "file not found")
  | .ok download =>
    let done ← httpSendFile.send relativePath download
    appDownloadCleanup download
    return done

def httpHandleWebuiAsset (asset : WebuiAsset) : Io Bool :=
  httpSendResponse 200 (.lit "OK") asset.contentType asset.body

-- The directory that is to be listed, relative to the base directory.
def httpHandleFilesList.relativeDir (req : HttpRequest) : Option CStr :=
  match httpQueryGetValue req.query (.lit "path") httpPathMax with
  | .found encoded =>
    match httpDecodeName httpPathMax (.ofBuf encoded) with
    | none             => none
    | some relativeDir =>
      if relativeDir.chars ≠ [] && !fsValidateRelativePath relativeDir then none else some relativeDir
  | _ => some (.lit "")

-- The check of what is to be listed. Only the base directory itself may be a link.
def httpHandleFilesList.isDir (dirPath relativeDir : CStr) (info : FsPathInfo) : Io Bool := do
  if info.kind = .dir then return true
  if relativeDir.chars = [] ∧ info.kind = .symlink then
    return (← Io.sys (.opendir dirPath (← Io.fault))).isSome
  return false

def httpHandleFilesList (opt : ServerOpt) (req : HttpRequest) : Io Bool :=
  match httpHandleFilesList.relativeDir req with
  | none             => httpSendJsonError 400 (.lit "Bad Request") (.lit "invalid path")
  | some relativeDir =>
    match fsJoinRelativePath pathCap opt.path relativeDir with
    | none         => httpSendJsonError 400 (.lit "Bad Request") (.lit "invalid path")
    | some dirPath => do
      match ← fsStatPath dirPath with
      | none      => httpSendJsonError 404 (.lit "Not Found") (.lit "path not found")
      | some info =>
        if !(← httpHandleFilesList.isDir dirPath relativeDir info) then
          return ← httpSendJsonError 400 (.lit "Bad Request") (.lit "path is not a directory")
        match ← httpBuildFilesJson dirPath relativeDir with
        | none      =>
          httpSendJsonError 500 (.lit "Internal Server Error") (.lit "failed to list files")
        | some body => httpSendResponse 200 (.lit "OK") jsonContentType body

-- The part of `http_handle_messages_post` after the checks of the header.
def httpHandleMessagesPost.receive (contentLength : UInt64) : Io Bool := do
  if !(← Io.malloc) then
    return ← httpSendJsonError 500 (.lit "Internal Server Error") (.lit "allocation failed")
  match ← recvAll contentLength.toNat with
  | none      => return false
  | some body =>
    if body.length ≠ contentLength.toNat then return false
    match ← httpParseMessageJson body with
    | none         =>
      discard <| httpSendJsonError 400 (.lit "Bad Request") (.lit "invalid message payload")
      return false
    | some message =>
      if (← appSubmitMessage message) ≠ .ok then
        discard <| httpSendJsonError 500 (.lit "Internal Server Error")
          (.lit "failed to store message")
        return false
      httpSendResponse 201 (.lit "Created") jsonContentType (ascii "\x7b\"ok\":true\x7d")

def httpHandleMessagesPost (req : HttpRequest) : Io Bool := do
  if req.hasTransferEncoding then
    return ← httpSendJsonError 501 (.lit "Not Implemented") (.lit "transfer-encoding not supported")
  if !req.hasContentLength then
    return ← httpSendJsonError 411 (.lit "Length Required") (.lit "content-length required")
  if req.contentLength.toNat > maxTextMessageSize then
    return ← httpSendJsonError 413 (.lit "Payload Too Large") (.lit "message too large")
  if !httpAsciiStartsWith req.contentType.chars (ascii "application/json") then
    return ← httpSendJsonError 415 (.lit "Unsupported Media Type")
      (.lit "content-type must be application/json")
  httpHandleMessagesPost.receive req.contentLength

def httpHandleMessagesLatestGet : Io Bool := do
  match ← messageStoreGetCopy with
  | none         =>
    httpSendJsonError 500 (.lit "Internal Server Error") (.lit "failed to load message")
  | some message =>
    httpSendResponse 200 (.lit "OK") jsonContentType (ascii "\x7b\"has_message\":" ++
      ascii (if message.isSome then "true" else "false") ++ ascii ",\"message\":\"" ++
      (message.map httpJsonEscape).getD [] ++ ascii "\"\x7d")

-- The loop of a message stream, which ends when a shutdown is found to be requested after a wait.
def httpHandleMessagesStream.loop (version : Nat) : Nat → Io Bool
  | 0          => do
    match ← messageStoreWaitForUpdate version with
    | none   => return false
    | some _ => return true
  | rounds + 1 => do
    match ← messageStoreWaitForUpdate version with
    | none                    => return false
    | some (none, version)    =>
      if !(← httpSendSseKeepalive) then return false
      httpHandleMessagesStream.loop version rounds
    | some (some message, version) =>
      if !(← httpSendSseMessageEvent message) then return false
      httpHandleMessagesStream.loop version rounds

def httpHandleMessagesStream : Io Bool := do
  if !(← httpSendSseHeaders) then return false
  match ← messageStoreGetSnapshot with
  | none                         => return false
  | some (none, version)         => httpHandleMessagesStream.loop version (← Io.rounds)
  | some (some message, version) =>
    if !(← httpSendSseMessageEvent message) then return false
    httpHandleMessagesStream.loop version (← Io.rounds)

-- The reply to an upload that has been stored.
def httpHandleFilePut.created (relativePath : CStr) (info : FsPathInfo) : Io Bool :=
  httpSendResponse 201 (.lit "Created") jsonContentType
    (ascii "\x7b\"name\":\"" ++ httpJsonEscape (httpRelativeBasename relativePath) ++
     ascii "\",\"path\":\"" ++ httpJsonEscape relativePath ++
     ascii "\",\"kind\":\"file\",\"size\":" ++ (CStr.decimal info.size).chars ++
     ascii ",\"mtime\":" ++ (CStr.decimal info.mtime).chars ++ ascii "\x7d")

def httpHandleFilePut (opt : ServerOpt) (req : HttpRequest) (relativePath : CStr) : Io Bool := do
  if req.hasTransferEncoding then
    return ← httpSendJsonError 501 (.lit "Not Implemented") (.lit "transfer-encoding not supported")
  if !req.hasContentLength then
    return ← httpSendJsonError 411 (.lit "Length Required") (.lit "content-length required")
  if req.contentLength > httpUploadMax then
    return ← httpSendJsonError 413 (.lit "Payload Too Large") (.lit "upload too large")
  if !httpAsciiStartsWith req.contentType.chars (ascii "application/octet-stream") then
    discard <| httpDiscardBody req.contentLength
    return ← httpSendJsonError 415 (.lit "Unsupported Media Type")
      (.lit "content-type must be application/octet-stream")
  if !fsValidateRelativePath relativePath then
    discard <| httpDiscardBody req.contentLength
    return ← httpSendJsonError 400 (.lit "Bad Request") (.lit "invalid file path")
  match ← appReceiveFile opt.path relativePath req.contentLength .http pathCap with
  | .error .errMsgTooLarge     =>
    httpSendJsonError 413 (.lit "Payload Too Large") (.lit "upload too large")
  | .error .errInvalidArgument =>
    httpSendJsonError 400 (.lit "Bad Request") (.lit "invalid file path")
  | .error _                   =>
    httpSendJsonError 500 (.lit "Internal Server Error") (.lit "failed to save file")
  | .ok savedPath              =>
    match ← fsStatPath savedPath with
    | none      =>
      httpSendJsonError 500 (.lit "Internal Server Error") (.lit "saved file missing")
    | some info =>
      if info.kind ≠ .file then
        return ← httpSendJsonError 500 (.lit "Internal Server Error") (.lit "saved file missing")
      httpHandleFilePut.created relativePath info

-- The dispatchers return `none` for -1.
def httpExactRoutes (opt : ServerOpt) (req : HttpRequest) : List (CStr × CStr × Io Bool) :=
  [(.lit "/api/files", .lit "GET", httpHandleFilesList opt req),
   (.lit "/api/messages", .lit "POST", httpHandleMessagesPost req),
   (.lit "/api/messages/latest", .lit "GET", httpHandleMessagesLatestGet),
   (.lit "/api/messages/stream", .lit "GET", httpHandleMessagesStream)]

def httpMethodNotAllowed : Io Bool :=
  httpSendJsonError 405 (.lit "Method Not Allowed") (.lit "method not allowed")

def httpDispatchExactRoute (opt : ServerOpt) (req : HttpRequest) : Io (Option Bool) :=
  match (httpExactRoutes opt req).find? (fun route => req.path = route.1) with
  | none                      => pure none
  | some (_, method, handler) => do
    if req.method ≠ method then return some (← httpMethodNotAllowed)
    return some (← handler)

def httpDispatchFileRoute (opt : ServerOpt) (req : HttpRequest) : Io (Option Bool) := do
  if ¬ascii "/api/files/" <+: req.path.chars then return none
  match httpDecodeName httpPathMax (.ofBuf (req.path.chars.drop 11)) with
  | none           =>
    return some (← httpSendJsonError 400 (.lit "Bad Request") (.lit "invalid file name"))
  | some routeName =>
    if req.method = .lit "GET" then return some (← httpSendFile opt routeName)
    if req.method = .lit "PUT" then return some (← httpHandleFilePut opt req routeName)
    return some (← httpMethodNotAllowed)

def httpDispatch (deps : HttpDeps) (opt : ServerOpt) (req : HttpRequest) : Io Bool := do
  match if req.method = .lit "GET" then webuiFindAsset deps req.path else none with
  | some asset => httpHandleWebuiAsset asset
  | none       =>
    match ← httpDispatchExactRoute opt req with
    | some r => return r
    | none   =>
      match ← httpDispatchFileRoute opt req with
      | some r => return r
      | none   => httpSendJsonError 404 (.lit "Not Found") (.lit "route not found")

def handleHttpConnection (deps : HttpDeps) (opt : ServerOpt) : Io Bool := do
  match ← httpReadHeaderBlock httpHeaderMax with
  | .failed   => return false
  | .eof      => return false
  | .tooLarge =>
    httpSendJsonError 431 (.lit "Request Header Fields Too Large") (.lit "header too large")
  | .ok block =>
    match httpParseRequest deps block with
    | .error .invalid => httpSendJsonError 400 (.lit "Bad Request") (.lit "invalid request")
    | .error .version =>
      httpSendJsonError 505 (.lit "HTTP Version Not Supported") (.lit "only HTTP/1.1 is supported")
    | .ok req         => httpDispatch deps opt req

-- `server_connection_thread_main` of src/server.c, which returns nothing. The result says which
-- handler was chosen.
def serverConnectionThreadMain (deps : HttpDeps) (opt : ServerOpt) : Io ServerConnKind := do
  let kind ← serverDetectConnectionKind
  match kind with
  | .http     => discard <| handleHttpConnection deps opt
  | .protocol => discard <| handleProtocolConnection opt
  | .invalid  => pure ()
  return kind
