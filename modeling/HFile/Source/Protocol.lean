import HFile.Source.Fs

-- src/protocol.c

def maxFileNameLen : Nat := 255
def maxFileSize : UInt64 := 100 * 1024 * 1024 * 1024
def maxTextMessageSize : Nat := 256 * 1024
def headerSize : Nat := 13
def resFrameSize : Nat := 4

def protocolMagic : UInt16 := 0x0429
def protocolVersion : UInt8 := 0x03

def msgTypeSendFile : UInt8 := 0x01
def msgTypeTextMessage : UInt8 := 0x02
def msgTypeGetFile : UInt8 := 0x03
def msgFlagNone : UInt8 := 0x00

@[ext]
structure ProtocolHeader where
  magic       : UInt16
  version     : UInt8
  msgType     : UInt8
  flags       : UInt8
  payloadSize : UInt64
  deriving DecidableEq

inductive ProtocolResult
  | ok
  | errHeaderMagic
  | errHeaderVersion
  | errHeaderMsgType
  | errHeaderMsgFlag
  | errInvalidArgument
  | errFileNameLen
  | errInvalidFileName
  | errPayloadSizeMismatch
  | errIo
  | errShortWrite
  | errAlloc
  | errEof
  | errMsgTooLarge
  deriving DecidableEq

def ProtocolResult.code (r : ProtocolResult) : UInt16 :=
  r.ctorIdx.toUInt16

def phaseReady : UInt8 := 0
def phaseFinal : UInt8 := 1

def statusOk : UInt8 := 0
def statusRejected : UInt8 := 1
def statusFailed : UInt8 := 2

@[ext]
structure ResFrame where
  phase     : UInt8
  status    : UInt8
  errorCode : UInt16
  deriving DecidableEq

def protoResFrameValid (frame : ResFrame) : Bool :=
  (frame.phase = phaseReady ∨ frame.phase = phaseFinal) ∧
  (frame.status = statusOk ∨ frame.status = statusRejected ∨ frame.status = statusFailed) ∧
  frame.errorCode ≤ ProtocolResult.errMsgTooLarge.code ∧
  (if frame.status = statusOk then frame.errorCode = ProtocolResult.ok.code
   else frame.errorCode ≠ ProtocolResult.ok.code) ∧
  (if frame.phase = phaseReady then frame.status = statusOk ∨ frame.status = statusRejected
   else frame.status = statusOk ∨ frame.status = statusFailed)

def encodeResFrame (frame : ResFrame) : Except ProtocolResult Bytes :=
  if protoResFrameValid frame then
    .ok (frame.phase :: frame.status :: encodeU16Be frame.errorCode)
  else
    .error .errInvalidArgument

def decodeResFrame (buf : Bytes) : Except ProtocolResult ResFrame :=
  let frame := ⟨buf[0]?.getD 0, buf[1]?.getD 0, decodeU16Be (buf.drop 2)⟩
  if protoResFrameValid frame then .ok frame else .error .errInvalidArgument

def protoSendPayload (payload : Bytes) : Io ProtocolResult := do
  match ← sendAll payload with
  | some n => return if n < payload.length then .errShortWrite else .ok
  | none   => return .errIo

def sendResFrame (frame : ResFrame) : Io ProtocolResult :=
  match encodeResFrame frame with
  | .error r => pure r
  | .ok buf  => protoSendPayload buf

def recvResFrame : Io (Except ProtocolResult ResFrame) := do
  match ← recvAll resFrameSize with
  | none     => return .error .errIo
  | some buf => return if buf.length < resFrameSize then .error .errEof else decodeResFrame buf

def protoGetFileNameLen (fileName : CStr) : Option UInt16 :=
  if fileName.strlen = 0 ∨ fileName.strlen > maxFileNameLen then none
  else some fileName.strlen.toUInt16

def protoFileNameOnlySize (fileNameLen : UInt16) : UInt64 :=
  2 + fileNameLen.toUInt64

def protoFileTransferPrefixSize (fileNameLen : UInt16) : UInt64 :=
  protoFileNameOnlySize fileNameLen + 8

def encodeFileNameOnly (fileName : CStr) : Except ProtocolResult Bytes :=
  match protoGetFileNameLen fileName with
  | none     => .error .errFileNameLen
  | some len => .ok (encodeU16Be len ++ fileName.chars)

def encodeFilePrefix (fileName : CStr) (contentSize : UInt64) : Except ProtocolResult Bytes :=
  match protoGetFileNameLen fileName with
  | none     => .error .errFileNameLen
  | some len => .ok (encodeU16Be len ++ fileName.chars ++ encodeU64Be contentSize)

def protoRecvFileNameOnly : Io (Except ProtocolResult CStr) := do
  match ← recvAll 2 with
  | none        => return .error .errIo
  | some netLen =>
    if netLen.length ≠ 2 then return .error .errEof
    let fileNameLen := decodeU16Be netLen
    if fileNameLen = 0 ∨ fileNameLen.toNat > maxFileNameLen then return .error .errFileNameLen
    if !(← Io.malloc) then return .error .errAlloc
    match ← recvAll fileNameLen.toNat with
    | none          => return .error .errIo
    | some fileName =>
      if fileName.length ≠ fileNameLen.toNat then return .error .errEof
      return .ok (.ofBuf fileName)

def protoRecvFileTransferPrefix : Io (Except ProtocolResult (CStr × UInt64)) := do
  match ← protoRecvFileNameOnly with
  | .error r     => return .error r
  | .ok fileName =>
    match ← recvAll 8 with
    | none       => return .error .errIo
    | some szbuf =>
      if szbuf.length ≠ 8 then return .error .errEof
      return .ok (fileName, decodeU64Be szbuf)

def initHeader : ProtocolHeader where
  magic       := protocolMagic
  version     := protocolVersion
  msgType     := 0
  flags       := msgFlagNone
  payloadSize := 0

def encodeHeader (header : ProtocolHeader) : Bytes :=
  encodeU16Be header.magic ++ [header.version, header.msgType, header.flags] ++
  encodeU64Be header.payloadSize

def decodeHeader (buf : Bytes) : Except ProtocolResult ProtocolHeader :=
  let magic := decodeU16Be buf
  let version := buf[2]?.getD 0
  let msgType := buf[3]?.getD 0
  let flags := buf[4]?.getD 0
  if magic ≠ protocolMagic then .error .errHeaderMagic
  else if version ≠ protocolVersion then .error .errHeaderVersion
  else if msgType ≠ msgTypeTextMessage ∧ msgType ≠ msgTypeSendFile ∧ msgType ≠ msgTypeGetFile then
    .error .errHeaderMsgType
  else if flags ≠ msgFlagNone then .error .errHeaderMsgFlag
  else .ok ⟨magic, version, msgType, flags, decodeU64Be (buf.drop 5)⟩

def recvHeader : Io (Except ProtocolResult Bytes) := do
  match ← recvAll headerSize with
  | none     => return .error .errIo
  | some buf => return if buf.length < headerSize then .error .errEof else .ok buf
