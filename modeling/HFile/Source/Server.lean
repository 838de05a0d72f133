import HFile.Source.AppService

-- src/server.c: the native protocol's side of a connection.

structure ServerOpt where
  path : CStr
  port : UInt16

inductive ServerConnKind
  | invalid | http | protocol
  deriving DecidableEq

-- `recv` with `MSG_PEEK` leaves the bytes that it returns in place.
def serverDetectConnectionKind : Io ServerConnKind := fun e =>
  match e.inp with
  | []              => pure (.invalid, e)
  | .fail _ :: as   => pure (.invalid, { e with inp := as })
  | .data b bs :: _ =>
    match (b :: bs).take 8 with
    | b₀ :: b₁ :: _ =>
      if b₀ = (protocolMagic >>> 8).toUInt8 ∧ b₁ = protocolMagic.toUInt8 then pure (.protocol, e)
      else if 65 ≤ b₀ ∧ b₀ ≤ 90 then pure (.http, e)
      else pure (.protocol, e)
    | _ => pure (.invalid, e)

def serverSendResponse (phase status : UInt8) (errorCode : ProtocolResult) : Io ProtocolResult :=
  sendResFrame ⟨phase, status, errorCode.code⟩

-- Receives the message and hands it to the store.
def serverHandleTextMessage.receive (header : ProtocolHeader) : Io ProtocolResult := do
  if header.payloadSize.toNat > maxTextMessageSize then return .errMsgTooLarge
  if !(← Io.malloc) then return .errAlloc
  match ← recvAll header.payloadSize.toNat with
  | none         => return .errIo
  | some message =>
    if message.length ≠ header.payloadSize.toNat then return .errEof
    appSubmitMessage (.ofBuf message)

def serverHandleTextMessage (header : ProtocolHeader) : Io ProtocolResult := do
  let result ← serverHandleTextMessage.receive header
  discard <| serverSendResponse phaseFinal (if result = .ok then statusOk else statusFailed) result
  return result

def serverHandleFileTransfer (opt : ServerOpt) (header : ProtocolHeader) : Io ProtocolResult := do
  if header.payloadSize < protoFileTransferPrefixSize 1 then
    discard <| serverSendResponse phaseReady statusRejected .errInvalidArgument
    return .errInvalidArgument
  match ← protoRecvFileTransferPrefix with
  | .error result                => return result
  | .ok (fileName, contentSize)  =>
    if !fsValidateFileName fileName then
      discard <| serverSendResponse phaseReady statusRejected .errInvalidFileName
      return .errInvalidFileName
    let prefixSize := protoFileTransferPrefixSize fileName.strlen.toUInt16
    if header.payloadSize ≠ prefixSize + contentSize then
      discard <| serverSendResponse phaseReady statusRejected .errPayloadSizeMismatch
      return .errPayloadSizeMismatch
    let result ← serverSendResponse phaseReady statusOk .ok
    if result ≠ .ok then return result
    match ← appReceiveFile opt.path fileName contentSize .protocol pathCap with
    | .error result =>
      discard <| serverSendResponse phaseFinal statusFailed result
      return result
    | .ok _         => serverSendResponse phaseFinal statusOk .ok

-- The body of the answer to an accepted download, up to its last frame.
def serverHandleGetFile.send (fileName : CStr) (download : AppDownload) : Io ProtocolResult := do
  match encodeResFrame ⟨phaseReady, statusOk, ProtocolResult.ok.code⟩ with
  | .error result => return result
  | .ok ready     =>
    match encodeFilePrefix fileName download.info.size.toUInt64 with
    | .error result     =>
      discard <| serverSendResponse phaseFinal statusFailed result
      return result
    | .ok filePrefix =>
      let result ← protoSendPayload (ready ++ filePrefix)
      if result ≠ .ok then return result
      if (← netSendFileBestEffort download.fd download.info.size.toUInt64) ≠ .ok then
        discard <| serverSendResponse phaseFinal statusFailed .errIo
        return .errIo
      serverSendResponse phaseFinal statusOk .ok

def serverHandleGetFile (opt : ServerOpt) (header : ProtocolHeader) : Io ProtocolResult := do
  if header.payloadSize < protoFileNameOnlySize 1 then
    discard <| serverSendResponse phaseReady statusRejected .errInvalidArgument
    return .errInvalidArgument
  match ← protoRecvFileNameOnly with
  | .error result =>
    discard <| serverSendResponse phaseReady statusRejected result
    return result
  | .ok fileName  =>
    if !fsValidateFileName fileName then
      discard <| serverSendResponse phaseReady statusRejected .errInvalidFileName
      return .errInvalidFileName
    if header.payloadSize ≠ protoFileNameOnlySize fileName.strlen.toUInt16 then
      discard <| serverSendResponse phaseReady statusRejected .errPayloadSizeMismatch
      return .errPayloadSizeMismatch
    match ← appPrepareDownload opt.path fileName with
    | .error result =>
      let result := if result = .errIo then .errInvalidArgument else result
      discard <| serverSendResponse phaseReady statusRejected result
      return result
    | .ok download  =>
      let result ← serverHandleGetFile.send fileName download
      appDownloadCleanup download
      return result

-- The result is `none` if no handler was reached.
def handleProtocolConnection (opt : ServerOpt) : Io (Option ProtocolResult) := do
  match ← recvHeader with
  | .error _ => return none
  | .ok buf  =>
    match decodeHeader buf with
    | .error _   => return none
    | .ok header =>
      if header.msgType = msgTypeTextMessage then return some (← serverHandleTextMessage header)
      else if header.msgType = msgTypeSendFile then return some (← serverHandleFileTransfer opt header)
      else if header.msgType = msgTypeGetFile then return some (← serverHandleGetFile opt header)
      else return none
