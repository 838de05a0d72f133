import HFile.Source.Protocol

-- src/transfer_io.c

def transferRecvSocketHttpFileBuffered (ino : Nat) (contentSize : UInt64) : Io ProtocolResult := do
  let heap := contentSize > 1024 * 1024
  if heap then
    if !(← Io.malloc) then return .errAlloc
  let res : NetRecvFileResult ← fun e => do
    let cap := if heap then 256 * 1024 else 8192
    let (r, as, ts) ← netRecvFileBuffered.loop ino cap e.inp e.wr contentSize.toNat
    pure (r, { e with inp := as, wr := ts })
  match res with
  | .ok  => return .ok
  | .eof => return .errEof
  | _    => return .errIo

-- The attempts to create the temporary file, numbered as given.
def transferPrepareOutput.attempts (fullPath : CStr) :
    List Nat → Io (Except ProtocolResult (CStr × Nat))
  | []      => pure (.error .errIo)
  | k :: ks => do
    let (tmpPath, fits) := fsBuildTempPath pathCap fullPath (← Io.getpid) k
    if !fits then return .error .errInvalidArgument
    match ← fsOpenTempFile tmpPath with
    | .ok ino   => return .ok (tmpPath, ino)
    | .error e  => if e = .EEXIST then transferPrepareOutput.attempts fullPath ks
                   else return .error .errIo

structure TransferOutput where
  fullPath : CStr
  tmpPath  : CStr
  ino      : Nat

def transferPrepareOutput (baseDir fileName : CStr) : Io (Except ProtocolResult TransferOutput) :=
  match fsJoinRelativePath pathCap baseDir fileName with
  | none          => pure (.error .errInvalidArgument)
  | some fullPath => do
    match ← transferPrepareOutput.attempts fullPath [0, 1, 2] with
    | .error r            => return .error r
    | .ok (tmpPath, ino)  => return .ok ⟨fullPath, tmpPath, ino⟩

-- The second component tells whether the descriptor is still open.
def transferFinalizeOutput (out : TransferOutput) (cap : Nat) : Io (ProtocolResult × Bool) := do
  if out.fullPath.strlen + 1 > cap then return (.errInvalidArgument, true)
  if !(← fsClose (.file out.ino)) then return (.errIo, false)
  if !(← fsCommitTempFile out.tmpPath out.fullPath) then return (.errIo, false)
  return (.ok, false)

-- The code after the label `CLEANUP`, for a failed transfer.
def transferCleanup (out : TransferOutput) (isOpen : Bool) : Io Unit := do
  if isOpen then discard <| fsClose (.file out.ino)
  fsRemoveIgnoreError out.tmpPath

-- The common part of the two functions below, which differ in how the body is received. The result
-- holds the path of the saved file.
def transferRecv (body : Nat → Io ProtocolResult) (baseDir fileName : CStr) (cap : Nat) :
    Io (Except ProtocolResult CStr) := do
  match ← transferPrepareOutput baseDir fileName with
  | .error r => return .error r
  | .ok out  =>
    let result ← body out.ino
    if result ≠ .ok then
      transferCleanup out true
      return .error result
    let (result, isOpen) ← transferFinalizeOutput out cap
    if result ≠ .ok then
      transferCleanup out isOpen
      return .error result
    return .ok out.fullPath

def transferRecvSocketFile (baseDir fileName : CStr) (contentSize : UInt64) (cap : Nat) :
    Io (Except ProtocolResult CStr) :=
  transferRecv body baseDir fileName cap
where
  body (ino : Nat) : Io ProtocolResult := do
    match ← netRecvFileBestEffort ino contentSize with
    | .ok              => return .ok
    | .eof             => return .errEof
    | .invalidArgument => return .errInvalidArgument
    | _                => return .errIo

def transferRecvSocketHttpFile (baseDir fileName : CStr) (contentSize : UInt64) (cap : Nat) :
    Io (Except ProtocolResult CStr) :=
  transferRecv (fun ino => transferRecvSocketHttpFileBuffered ino contentSize) baseDir fileName cap
