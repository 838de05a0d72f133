import HFile.Source.MessageStore
import HFile.Source.TransferIo

-- src/app_service.c

inductive AppUploadKind
  | protocol | http
  deriving DecidableEq

structure AppDownload where
  fd   : Entry
  info : FsPathInfo

def appSubmitMessage (message : CStr) : Io ProtocolResult := do
  if message.strlen > maxTextMessageSize then return .errMsgTooLarge
  if !(← messageStoreSet message) then return .errIo
  return .ok

def appReceiveFile (baseDir targetPath : CStr) (contentSize : UInt64) (uploadKind : AppUploadKind)
    (cap : Nat) : Io (Except ProtocolResult CStr) :=
  match uploadKind with
  | .protocol => transferRecvSocketFile baseDir targetPath contentSize cap
  | .http     => transferRecvSocketHttpFile baseDir targetPath contentSize cap

def appPrepareDownload (baseDir targetPath : CStr) : Io (Except ProtocolResult AppDownload) :=
  match fsJoinRelativePath pathCap baseDir targetPath with
  | none          => pure (.error .errInvalidArgument)
  | some fullPath => do
    match ← Io.sys (.openRead fullPath true (← Io.fault)) with
    | .error _ => return .error .errIo
    | .ok fd   =>
      match ← Io.sys (.fstat fd (← Io.fault)) with
      | none      =>
        discard <| fsClose fd
        return .error .errIo
      | some info =>
        if info.kind ≠ .file then
          discard <| fsClose fd
          return .error .errInvalidArgument
        return .ok ⟨fd, info⟩

def appDownloadCleanup (download : AppDownload) : Io Unit :=
  discard <| fsClose download.fd
