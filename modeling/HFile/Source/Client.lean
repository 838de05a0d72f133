import HFile.Source.Protocol

-- src/client.c. The functions return the exit code of the process, or `true` where the code
-- returns 0.

structure ClientOpt where
  path       : CStr
  remotePath : Option CStr
  outputPath : Option CStr
  message    : CStr
  msgType    : UInt8

def clientRecvResponse (expectedPhase : UInt8) : Io (Option ResFrame) := do
  match ← recvResFrame with
  | .error _  => return none
  | .ok frame =>
    if frame.phase ≠ expectedPhase then return none
    if frame.status = statusOk then
      if frame.errorCode ≠ ProtocolResult.ok.code then return none
    else
      if frame.errorCode = ProtocolResult.ok.code then return none
    return some frame

-- Every status other than `statusOk` is reported as an error of one kind or another.
def clientCheckResponse (frame : ResFrame) : Bool :=
  frame.status = statusOk

def clientRecvCheckedResponse (expectedPhase : UInt8) : Io Bool := do
  match ← clientRecvResponse expectedPhase with
  | none       => return false
  | some frame => return clientCheckResponse frame

def clientSendHeaderPayload (msgType : UInt8) (payloadSize : UInt64) (payload : Bytes) :
    Io Bool := do
  let headerBuf := encodeHeader { initHeader with
    msgType := msgType, flags := msgFlagNone, payloadSize := payloadSize }
  if payload.length ≤ 2 + maxFileNameLen + 8 then
    return (← protoSendPayload (headerBuf ++ payload)) = .ok
  if (← protoSendPayload headerBuf) ≠ .ok then return false
  return (← protoSendPayload payload) = .ok

def clientConnect : Io Bool := do
  return (← Io.fault).isNone

def clientGetFileSize (fd : Entry) : Io (Option UInt64) := do
  match ← Io.sys (.fstat fd (← Io.fault)) with
  | none      => return none
  | some info => return if info.kind = .file then some info.size.toUInt64 else none

def clientSendFileBody (fd : Entry) (contentSize : UInt64) : Io Bool := do
  return (← netSendFileBestEffort fd contentSize) = .ok

-- The exchange with the server, once the source file is open.
def clientSendFileRaw.transfer (fd : Entry) (fileName : CStr) (fileNameLen : UInt16)
    (msgType : UInt8) : Io Bool := do
  if protoFileTransferPrefixSize fileNameLen > chunkSize.toUInt64 then return false
  match ← clientGetFileSize fd with
  | none             => return false
  | some contentSize =>
    if contentSize > maxFileSize then return false
    if !(← clientConnect) then return false
    let payloadSize := protoFileTransferPrefixSize fileNameLen + contentSize
    match encodeFilePrefix fileName contentSize with
    | .error _       => return false
    | .ok filePrefix =>
      if !(← clientSendHeaderPayload msgType payloadSize filePrefix) then return false
      if !(← clientRecvCheckedResponse phaseReady) then return false
      if !(← clientSendFileBody fd contentSize) then return false
      clientRecvCheckedResponse phaseFinal

def clientSendFileRaw (opt : ClientOpt) : Io Nat := do
  let fileName := fsBasenameFromPath opt.path
  match protoGetFileNameLen fileName with
  | none             => return 1
  | some fileNameLen =>
    match ← Io.sys (.openRead opt.path false (← Io.fault)) with
    | .error _ => return 1
    | .ok fd   =>
      let done ← clientSendFileRaw.transfer fd fileName fileNameLen opt.msgType
      discard <| fsClose fd
      return if done then 0 else 1

def clientSendMessage (opt : ClientOpt) : Io Nat := do
  let messageLen := opt.message.strlen
  if messageLen > maxTextMessageSize then return 1
  if !(← clientConnect) then return 1
  if !(← clientSendHeaderPayload msgTypeTextMessage messageLen.toUInt64 opt.message.chars) then
    return 1
  return if ← clientRecvCheckedResponse phaseFinal then 0 else 1

-- The result holds the descriptor, if the file could be opened, and what is left in `tmp_path`.
def clientOpenTempDownload.attempts (finalPath tmpPath : CStr) : List Nat → Io (Option Nat × CStr)
  | []      => pure (none, tmpPath)
  | k :: ks => do
    let (tmpPath, fits) := fsBuildTempPath pathCap finalPath (← Io.getpid) k
    if !fits then return (none, tmpPath)
    match ← fsOpenTempFile tmpPath with
    | .ok ino  => return (some ino, tmpPath)
    | .error e => if e = .EEXIST then clientOpenTempDownload.attempts finalPath tmpPath ks
                  else return (none, tmpPath)

def clientOpenTempDownload (finalPath tmpPath : CStr) : Io (Option Nat × CStr) :=
  clientOpenTempDownload.attempts finalPath tmpPath [0, 1, 2]

def clientRecvFileBody (ino : Nat) (contentSize : UInt64) : Io Bool := do
  return (← netRecvFileBestEffort ino contentSize) = .ok

-- The request and the first part of the answer: the name that the server offers and the size of the
-- file.
def clientGetFile.request (remotePath : CStr) (remoteNameLen : UInt16) :
    Io (Option (CStr × UInt64)) := do
  match encodeFileNameOnly remotePath with
  | .error _     => return none
  | .ok request =>
    if !(← clientSendHeaderPayload msgTypeGetFile (protoFileNameOnlySize remoteNameLen) request) then
      return none
    if !(← clientRecvCheckedResponse phaseReady) then return none
    match ← protoRecvFileTransferPrefix with
    | .error _                       => return none
    | .ok (offeredName, contentSize) =>
      if contentSize > maxFileSize then return none
      return some (offeredName, contentSize)

-- The second part of the answer, once the temporary file is open. The second component tells
-- whether it still is.
def clientGetFile.body (ino : Nat) (contentSize : UInt64) (tmpPath outputPath : CStr) :
    Io (Bool × Bool) := do
  if !(← clientRecvFileBody ino contentSize) then return (false, true)
  if !(← fsClose (.file ino)) then return (false, false)
  if !(← clientRecvCheckedResponse phaseFinal) then return (false, false)
  if !(← fsCommitTempFile tmpPath outputPath) then return (false, false)
  return (true, false)

-- The code after the label `CLEAN_UP` removes whatever `tmp_path` names.
def clientGetFile.cleanUp (tmpPath : CStr) : Io Unit :=
  if tmpPath.chars ≠ [] then fsRemoveIgnoreError tmpPath else pure ()

-- A successful commit empties `tmp_path`.
def clientGetFile.finish (ino : Nat) (tmpPath : CStr) (done isOpen : Bool) : Io Nat := do
  if isOpen then discard <| fsClose (.file ino)
  clientGetFile.cleanUp (if done then .lit "" else tmpPath)
  return if done then 0 else 1

def clientGetFile (opt : ClientOpt) : Io Nat :=
  match opt.remotePath with
  | none            => pure 1
  | some remotePath => do
    if !fsValidateFileName remotePath then return 1
    match protoGetFileNameLen remotePath with
    | none               => return 1
    | some remoteNameLen =>
      if !(← clientConnect) then return 1
      match ← clientGetFile.request remotePath remoteNameLen with
      | none                            => return 1
      | some (offeredName, contentSize) =>
        if opt.outputPath.isNone && !fsValidateFileName offeredName then return 1
        let outputPath := opt.outputPath.getD offeredName
        match ← clientOpenTempDownload outputPath (.lit "") with
        | (none, tmpPath)     =>
          clientGetFile.cleanUp tmpPath
          return 1
        | (some ino, tmpPath) =>
          let (done, isOpen) ← clientGetFile.body ino contentSize tmpPath outputPath
          clientGetFile.finish ino tmpPath done isOpen

def client (opt : ClientOpt) : Io Nat :=
  if opt.msgType = msgTypeSendFile then clientSendFileRaw opt
  else if opt.msgType = msgTypeTextMessage then clientSendMessage opt
  else if opt.msgType = msgTypeGetFile then clientGetFile opt
  else pure 1
