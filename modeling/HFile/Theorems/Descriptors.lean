import HFile.Source.Client
import HFile.Theorems.OpenFiles

open Io (Holds Leaves holds_pure leaves_pure holds_sys leaves_sys leaves_fault leaves_closed)
open Program (Handler)

variable {ds : Multiset Entry}

section

variable {opt : ServerOpt}

theorem leaves_appSubmitMessage (message : CStr) : (appSubmitMessage message).Leaves ds := by
  have hset : (messageStoreSet message).Leaves ds := by
    apply leaves_closed.malloc.then
    intro b
    split
    case isTrue => exact leaves_pure _
    case isFalse =>
      apply Leaves.then (leaves_sys (fun _ h => absurd h List.not_mem_nil) fun _ => rfl)
      exact fun _ => leaves_pure _
  rw [appSubmitMessage]
  split
  case isTrue => exact leaves_pure _
  case isFalse =>
    apply hset.then
    intro b
    split <;> exact leaves_pure _

theorem leaves_reply (phase status : UInt8) (r : ProtocolResult) (a : α) :
    Io.Leaves ds (do
      discard <| serverSendResponse phase status r
      return a) :=
  (leaves_closed.discard (closed_serverSendResponse leaves_closed.toClosed _ _ _)).then fun _ => leaves_pure _

theorem leaves_serverHandleTextMessage (header : ProtocolHeader) :
    (serverHandleTextMessage header).Leaves ds := by
  have hreceive : (serverHandleTextMessage.receive header).Leaves ds := by
    rw [serverHandleTextMessage.receive]
    split
    case isTrue => exact leaves_pure _
    case isFalse =>
      apply leaves_closed.malloc.then
      intro b
      split
      case isTrue => exact leaves_pure _
      case isFalse =>
        apply (leaves_closed.recv _).then
        intro message
        split
        case h_1 => exact leaves_pure _
        case h_2 =>
          split
          case isTrue  => exact leaves_pure _
          case isFalse => exact leaves_appSubmitMessage _
  apply hreceive.then
  exact fun r => leaves_reply _ _ _ _

theorem leaves_serverHandleFileTransfer (header : ProtocolHeader) :
    (serverHandleFileTransfer opt header).Leaves ds := by
  rw [serverHandleFileTransfer]
  split
  case isTrue => exact leaves_reply _ _ _ _
  case isFalse =>
    apply (closed_protoRecvFileTransferPrefix leaves_closed).then
    intro r
    split
    case h_1 => exact leaves_pure _
    case h_2 name size =>
      split
      case isTrue => exact leaves_reply _ _ _ _
      case isFalse =>
        dsimp only
        split
        case isTrue => exact leaves_reply _ _ _ _
        case isFalse =>
          apply (closed_serverSendResponse leaves_closed.toClosed _ _ _).then
          intro r
          split
          case isTrue => exact leaves_pure _
          case isFalse =>
            apply (leaves_appReceiveFile _ _ _ _ _).then
            intro r
            split
            case h_1 => exact leaves_reply _ _ _ _
            case h_2 => exact closed_serverSendResponse leaves_closed.toClosed _ _ _

theorem leaves_serverHandleGetFile_send (name : CStr) (download : AppDownload) :
    (serverHandleGetFile.send name download).Leaves (download.fd ::ₘ ds) := by
  rw [serverHandleGetFile.send]
  split
  case h_1 => exact leaves_pure _
  case h_2 =>
    split
    case h_1 => exact leaves_reply _ _ _ _
    case h_2 =>
      apply (closed_protoSendPayload leaves_closed.toClosed _).then
      intro r
      split
      case isTrue => exact leaves_pure _
      case isFalse =>
        apply (leaves_netSendFileBestEffort (Multiset.mem_cons_self _ ds) _).then
        intro r
        split
        case isTrue  => exact leaves_reply _ _ _ _
        case isFalse => exact closed_serverSendResponse leaves_closed.toClosed _ _ _

-- A download is sent and closed.
theorem leaves_download (baseDir file : CStr) {f : AppDownload → Io α} {g : ProtocolResult → Io α}
    (hf : ∀ download, (f download).Leaves (download.fd ::ₘ ds)) (hg : ∀ r, (g r).Leaves ds) :
    Io.Leaves ds (do
      match ← appPrepareDownload baseDir file with
      | .error r     => g r
      | .ok download =>
        let result ← f download
        appDownloadCleanup download
        return result) := by
  apply (holds_appPrepareDownload baseDir file).bind
  intro r ds' hs
  subst hs
  cases r
  case error r => exact hg r
  case ok download =>
    apply (hf download).then
    intro result
    apply (holds_appDownloadCleanup download).bind
    intro _ ds' hs
    exact hs ▸ leaves_pure _

theorem leaves_serverHandleGetFile (header : ProtocolHeader) : (serverHandleGetFile opt header).Leaves ds := by
  rw [serverHandleGetFile]
  split
  case isTrue => exact leaves_reply _ _ _ _
  case isFalse =>
    apply (closed_protoRecvFileNameOnly leaves_closed).then
    intro r
    split
    case h_1 => exact leaves_reply _ _ _ _
    case h_2 name =>
      split
      case isTrue => exact leaves_reply _ _ _ _
      case isFalse =>
        split
        case isTrue => exact leaves_reply _ _ _ _
        case isFalse =>
          exact leaves_download _ _ (fun download => leaves_serverHandleGetFile_send name download)
            fun r => leaves_reply _ _ _ _

theorem leaves_handleProtocolConnection : (handleProtocolConnection opt).Leaves ds := by
  apply (closed_recvHeader leaves_closed).then
  intro r
  split
  case h_1 => exact leaves_pure _
  case h_2 =>
    split
    case h_1 => exact leaves_pure _
    case h_2 header _ =>
      split
      case isTrue => exact (leaves_serverHandleTextMessage header).then fun _ => leaves_pure _
      case isFalse =>
        split
        case isTrue => exact (leaves_serverHandleFileTransfer header).then fun _ => leaves_pure _
        case isFalse =>
          split
          case isTrue  => exact (leaves_serverHandleGetFile header).then fun _ => leaves_pure _
          case isFalse => exact leaves_pure _

theorem leaves_error (status : Nat) (reason message : CStr) :
    (httpSendJsonError status reason message).Leaves ds :=
  closed_httpSendJsonError (M := Leaves ds) leaves_closed.toClosed status reason message

theorem leaves_response (status : Nat) (reason contentType : CStr) (body : Bytes) :
    (httpSendResponse status reason contentType body).Leaves ds :=
  closed_httpSendResponse (M := Leaves ds) leaves_closed.toClosed status reason contentType body

theorem leaves_httpSendAll (bs : Bytes) : (httpSendAll bs).Leaves ds :=
  closed_httpSendAll (M := Leaves ds) leaves_closed.toClosed bs

theorem leaves_httpSendFile (path : CStr) : (httpSendFile opt path).Leaves ds := by
  have hsend : ∀ download : AppDownload, (httpSendFile.send path download).Leaves (download.fd ::ₘ ds) := by
    intro download
    rw [httpSendFile.send]
    split
    case isTrue => exact leaves_pure _
    case isFalse =>
      apply (leaves_httpSendAll _).then
      intro sent
      split
      case isTrue => exact leaves_pure _
      case isFalse =>
        exact (leaves_netSendFileBestEffort (Multiset.mem_cons_self _ ds) _).then fun _ => leaves_pure _
  rw [httpSendFile]
  split
  case isTrue  => exact leaves_error _ _ _
  case isFalse => exact leaves_download _ _ hsend fun _ => leaves_error _ _ _

theorem leaves_httpHandleFilePut (req : HttpRequest) (path : CStr) :
    (httpHandleFilePut opt req path).Leaves ds := by
  have hdiscard : ∀ status reason message, Io.Leaves ds (do
      discard <| httpDiscardBody req.contentLength
      httpSendJsonError status reason message) := by
    intro status reason message
    have hd : (httpDiscardBody req.contentLength).Leaves ds := ⟨fun _ => rfl⟩
    exact (leaves_closed.discard hd).then fun _ => leaves_error _ _ _
  rw [httpHandleFilePut]
  split
  case isTrue => exact leaves_error _ _ _
  case isFalse =>
    split
    case isTrue => exact leaves_error _ _ _
    case isFalse =>
      split
      case isTrue => exact leaves_error _ _ _
      case isFalse =>
        split
        case isTrue => exact hdiscard _ _ _
        case isFalse =>
          split
          case isTrue => exact hdiscard _ _ _
          case isFalse =>
            apply (leaves_appReceiveFile _ _ _ _ _).then
            intro r
            split
            case h_1 => exact leaves_error _ _ _
            case h_2 => exact leaves_error _ _ _
            case h_3 => exact leaves_error _ _ _
            case h_4 =>
              apply (leaves_fsStatPath _).then
              intro info
              split
              case h_1 => exact leaves_error _ _ _
              case h_2 =>
                split
                case isTrue  => exact leaves_error _ _ _
                case isFalse => exact leaves_response _ _ _ _

theorem leaves_messageStoreGetSnapshot : messageStoreGetSnapshot.Leaves ds := by
  apply Leaves.then (leaves_sys (fun _ h => absurd h List.not_mem_nil) fun _ => rfl)
  intro x
  dsimp only
  split
  case isTrue =>
    apply leaves_closed.malloc.then
    intro b
    split <;> exact leaves_pure _
  case isFalse => exact leaves_pure _

theorem leaves_messageStoreWaitForUpdate (version : Nat) : (messageStoreWaitForUpdate version).Leaves ds := by
  apply Leaves.then (leaves_sys (fun _ h => absurd h List.not_mem_nil) fun _ => rfl)
  intro x
  dsimp only
  split
  case isTrue =>
    apply leaves_closed.malloc.then
    intro b
    split <;> exact leaves_pure _
  case isFalse => exact leaves_pure _

theorem leaves_httpHandleMessagesStream : httpHandleMessagesStream.Leaves ds := by
  have hsend : ∀ bs (k : Io Bool), k.Leaves ds → Io.Leaves ds (do
      if !(← httpSendAll bs) then return false
      k) := by
    intro bs k hk
    apply (leaves_httpSendAll _).then
    intro sent
    split
    case isTrue  => exact leaves_pure _
    case isFalse => exact hk
  have hloop : ∀ version rounds, (httpHandleMessagesStream.loop version rounds).Leaves ds := by
    intro version rounds
    induction rounds generalizing version
    case zero =>
      apply (leaves_messageStoreWaitForUpdate _).then
      intro r
      split <;> exact leaves_pure _
    case succ rounds hi =>
      apply (leaves_messageStoreWaitForUpdate _).then
      intro r
      split
      case h_1 => exact leaves_pure _
      case h_2 => exact hsend _ _ (hi _)
      case h_3 => exact hsend _ _ (hi _)
  have hrounds : ∀ version, Io.Leaves ds (do httpHandleMessagesStream.loop version (← Io.rounds)) := by
    intro version
    have hr : Io.rounds.Leaves ds := ⟨fun _ => rfl⟩
    exact hr.then fun n => hloop version n
  apply hsend
  apply leaves_messageStoreGetSnapshot.then
  intro r
  split
  case h_1 => exact leaves_pure _
  case h_2 => exact hrounds _
  case h_3 => exact hsend _ _ (hrounds _)

theorem leaves_httpHandleMessagesLatestGet : httpHandleMessagesLatestGet.Leaves ds := by
  have hcopy : messageStoreGetCopy.Leaves ds := by
    apply leaves_messageStoreGetSnapshot.then
    intro r
    split <;> exact leaves_pure _
  apply hcopy.then
  intro r
  split
  case h_1 => exact leaves_error _ _ _
  case h_2 => exact leaves_response _ _ _ _

theorem leaves_httpHandleMessagesPost (req : HttpRequest) : (httpHandleMessagesPost req).Leaves ds := by
  have hfail : ∀ status reason message, Io.Leaves ds (do
      discard <| httpSendJsonError status reason message
      return false) :=
    fun _ _ _ => (leaves_closed.discard (leaves_error _ _ _)).then fun _ => leaves_pure _
  have hreceive : (httpHandleMessagesPost.receive req.contentLength).Leaves ds := by
    apply leaves_closed.malloc.then
    intro b
    split
    case isTrue => exact leaves_error _ _ _
    case isFalse =>
      apply (leaves_closed.recv _).then
      intro body
      split
      case h_1 => exact leaves_pure _
      case h_2 body =>
        split
        case isTrue => exact leaves_pure _
        case isFalse =>
          apply (closed_httpParseMessageJson leaves_closed.toClosed body).then
          intro message
          split
          case h_1 => exact hfail _ _ _
          case h_2 message =>
            apply (leaves_appSubmitMessage message).then
            intro r
            split
            case isTrue  => exact hfail _ _ _
            case isFalse => exact leaves_response _ _ _ _
  rw [httpHandleMessagesPost]
  split
  case isTrue => exact leaves_error _ _ _
  case isFalse =>
    split
    case isTrue => exact leaves_error _ _ _
    case isFalse =>
      split
      case isTrue => exact leaves_error _ _ _
      case isFalse =>
        split
        case isTrue  => exact leaves_error _ _ _
        case isFalse => exact hreceive

-- The directory that is listed is opened and closed by one call.
theorem leaves_opendir (dir : CStr) (f : Option Errno) : (Io.sys (.opendir dir f)).Leaves ds :=
  leaves_sys (fun _ h => absurd h List.not_mem_nil) fun _ => rfl

theorem leaves_httpListFiles (dir relativeDir : CStr) : (httpListFiles dir relativeDir).Leaves ds := by
  have hentries : ∀ names, (httpListFiles.entries dir relativeDir names).Leaves ds := by
    intro names
    induction names
    case nil => exact leaves_pure _
    case cons name names hi =>
      rw [httpListFiles.entries]
      split
      case isTrue => exact hi
      case isFalse =>
        split
        case h_1 => exact leaves_pure _
        case h_2 =>
          split
          case h_1 => exact leaves_pure _
          case h_2 =>
            apply (leaves_fsStatPath _).then
            intro info
            split
            case h_1 => exact hi
            case h_2 => exact hi.then fun _ => leaves_pure _
  apply leaves_fault.then
  intro f
  apply (leaves_opendir dir f).then
  intro r
  split
  case h_1 => exact leaves_pure _
  case h_2 => exact (hentries _).then fun _ => leaves_pure _

theorem leaves_httpHandleFilesList (req : HttpRequest) : (httpHandleFilesList opt req).Leaves ds := by
  rw [httpHandleFilesList]
  split
  case h_1 => exact leaves_error _ _ _
  case h_2 relativeDir _ =>
    split
    case h_1 => exact leaves_error _ _ _
    case h_2 dir _ =>
      apply (leaves_fsStatPath _).then
      intro info
      split
      case h_1 => exact leaves_error _ _ _
      case h_2 info =>
        have his : (httpHandleFilesList.isDir dir relativeDir info).Leaves ds := by
          rw [httpHandleFilesList.isDir]
          split
          case isTrue => exact leaves_pure _
          case isFalse =>
            split
            case isTrue =>
              apply leaves_fault.then
              intro f
              exact (leaves_opendir dir f).then fun _ => leaves_pure _
            case isFalse => exact leaves_pure _
        apply his.then
        intro b
        split
        case isTrue => exact leaves_error _ _ _
        case isFalse =>
          have hjson : (httpBuildFilesJson dir relativeDir).Leaves ds :=
            (leaves_httpListFiles dir relativeDir).then fun _ => leaves_pure _
          apply hjson.then
          intro body
          split
          case h_1 => exact leaves_error _ _ _
          case h_2 => exact leaves_response _ _ _ _

theorem leaves_httpDispatchExactRoute (req : HttpRequest) : (httpDispatchExactRoute opt req).Leaves ds := by
  rw [httpDispatchExactRoute]
  split
  case h_1 => exact leaves_pure _
  case h_2 path method handler hf =>
    have hmem := List.mem_of_find?_eq_some hf
    have hh : handler.Leaves ds := by
      simp only [httpExactRoutes, List.mem_cons, Prod.mk.injEq, List.not_mem_nil, or_false] at hmem
      obtain ⟨-, -, rfl⟩ | ⟨-, -, rfl⟩ | ⟨-, -, rfl⟩ | ⟨-, -, rfl⟩ := hmem
      · exact leaves_httpHandleFilesList req
      · exact leaves_httpHandleMessagesPost req
      · exact leaves_httpHandleMessagesLatestGet
      · exact leaves_httpHandleMessagesStream
    split
    case isTrue  => exact (leaves_error _ _ _).then fun _ => leaves_pure _
    case isFalse => exact hh.then fun _ => leaves_pure _

theorem leaves_httpDispatchFileRoute (req : HttpRequest) : (httpDispatchFileRoute opt req).Leaves ds := by
  rw [httpDispatchFileRoute]
  split
  case isTrue => exact leaves_pure _
  case isFalse =>
    split
    case h_1 => exact (leaves_error _ _ _).then fun _ => leaves_pure _
    case h_2 name _ =>
      split
      case isTrue => exact (leaves_httpSendFile name).then fun _ => leaves_pure _
      case isFalse =>
        split
        case isTrue  => exact (leaves_httpHandleFilePut req name).then fun _ => leaves_pure _
        case isFalse => exact (leaves_error _ _ _).then fun _ => leaves_pure _

theorem leaves_handleHttpConnection (deps : HttpDeps) : (handleHttpConnection deps opt).Leaves ds := by
  have hdispatch : ∀ req, (httpDispatch deps opt req).Leaves ds := by
    intro req
    rw [httpDispatch]
    split
    case h_1 => exact leaves_response _ _ _ _
    case h_2 =>
      apply (leaves_httpDispatchExactRoute req).then
      intro r
      split
      case h_1 => exact leaves_pure _
      case h_2 =>
        apply (leaves_httpDispatchFileRoute req).then
        intro r
        split
        case h_1 => exact leaves_pure _
        case h_2 => exact leaves_error _ _ _
  have hread : (httpReadHeaderBlock httpHeaderMax).Leaves ds := ⟨fun _ => rfl⟩
  apply hread.then
  intro block
  split
  case h_1 => exact leaves_pure _
  case h_2 => exact leaves_pure _
  case h_3 => exact leaves_error _ _ _
  case h_4 =>
    split
    case h_1 => exact leaves_error _ _ _
    case h_2 => exact leaves_error _ _ _
    case h_3 req _ => exact hdispatch req

theorem leaves_serverConnectionThreadMain (deps : HttpDeps) :
    (serverConnectionThreadMain deps opt).Leaves ds := by
  have hkind : serverDetectConnectionKind.Leaves ds := by
    constructor
    intro e
    simp only [StateT.run, serverDetectConnectionKind]
    split
    case h_3 => split <;> (repeat' split) <;> rfl
    all_goals rfl
  apply hkind.then
  intro kind
  cases kind
  case http     => exact (leaves_closed.discard (leaves_handleHttpConnection deps)).then fun _ => leaves_pure _
  case protocol => exact (leaves_closed.discard leaves_handleProtocolConnection).then fun _ => leaves_pure _
  case invalid  => exact leaves_pure _

end

theorem leaves_clientRecvCheckedResponse (phase : UInt8) : (clientRecvCheckedResponse phase).Leaves ds := by
  have hrecv : (clientRecvResponse phase).Leaves ds := by
    apply (closed_recvResFrame leaves_closed).then
    intro r
    split
    case h_1 => exact leaves_pure _
    case h_2 => (repeat' split) <;> exact leaves_pure _
  apply hrecv.then
  intro r
  split <;> exact leaves_pure _

theorem leaves_clientSendHeaderPayload (msgType : UInt8) (size : UInt64) (payload : Bytes) :
    (clientSendHeaderPayload msgType size payload).Leaves ds := by
  have hsend := closed_protoSendPayload (M := Leaves ds) leaves_closed.toClosed
  rw [clientSendHeaderPayload]
  dsimp only
  split
  case isTrue => exact (hsend _).then fun _ => leaves_pure _
  case isFalse =>
    apply (hsend _).then
    intro r
    split
    case isTrue  => exact leaves_pure _
    case isFalse => exact (hsend _).then fun _ => leaves_pure _

theorem leaves_clientConnect : clientConnect.Leaves ds :=
  leaves_fault.then fun _ => leaves_pure _

theorem leaves_clientSendFileRaw_transfer (fd : Entry) (name : CStr) (len : UInt16) (msgType : UInt8) :
    (clientSendFileRaw.transfer fd name len msgType).Leaves (fd ::ₘ ds) := by
  have hsize : (clientGetFileSize fd).Leaves (fd ::ₘ ds) := by
    apply leaves_fault.then
    intro f
    apply Leaves.then (leaves_sys (by simp [SysOp.uses]) fun _ => rfl)
    intro info
    split <;> exact leaves_pure _
  rw [clientSendFileRaw.transfer]
  split
  case isTrue => exact leaves_pure _
  case isFalse =>
    apply hsize.then
    intro size
    split
    case h_1 => exact leaves_pure _
    case h_2 size =>
      split
      case isTrue => exact leaves_pure _
      case isFalse =>
        apply leaves_clientConnect.then
        intro connected
        split
        case isTrue => exact leaves_pure _
        case isFalse =>
          dsimp only
          split
          case h_1 => exact leaves_pure _
          case h_2 =>
            apply (leaves_clientSendHeaderPayload _ _ _).then
            intro sent
            split
            case isTrue => exact leaves_pure _
            case isFalse =>
              apply (leaves_clientRecvCheckedResponse _).then
              intro ready
              split
              case isTrue => exact leaves_pure _
              case isFalse =>
                have hbody : (clientSendFileBody fd size).Leaves (fd ::ₘ ds) :=
                  (leaves_netSendFileBestEffort (Multiset.mem_cons_self _ ds) _).then fun _ => leaves_pure _
                apply hbody.then
                intro sent
                split
                case isTrue  => exact leaves_pure _
                case isFalse => exact leaves_clientRecvCheckedResponse _

theorem leaves_clientSendFileRaw (opt : ClientOpt) : (clientSendFileRaw opt).Leaves ds := by
  rw [clientSendFileRaw]
  split
  case h_1 => exact leaves_pure _
  case h_2 len _ =>
    apply leaves_fault.then
    intro f
    apply (holds_sys (fun _ h => absurd h List.not_mem_nil)).bind
    intro r ds' hs
    subst hs
    cases r
    case error => exact leaves_pure _
    case ok fd =>
      apply (leaves_clientSendFileRaw_transfer fd _ len _).then
      intro done
      apply closes_discard.bind
      intro _ ds' hs
      exact hs ▸ leaves_pure _

theorem leaves_clientSendMessage (opt : ClientOpt) : (clientSendMessage opt).Leaves ds := by
  rw [clientSendMessage]
  split
  case isTrue => exact leaves_pure _
  case isFalse =>
    apply leaves_clientConnect.then
    intro connected
    split
    case isTrue => exact leaves_pure _
    case isFalse =>
      apply (leaves_clientSendHeaderPayload _ _ _).then
      intro sent
      split
      case isTrue  => exact leaves_pure _
      case isFalse => exact (leaves_clientRecvCheckedResponse _).then fun _ => leaves_pure _

-- A download of the client opens the temporary file if one of the attempts succeeds.
theorem holds_clientOpenTempDownload_attempts (finalPath tmpPath : CStr) (ks : List Nat) :
    (clientOpenTempDownload.attempts finalPath tmpPath ks).Holds ds (fun r ds' =>
      ds' = match r.1 with
        | some ino => .file ino ::ₘ ds
        | none     => ds) := by
  induction ks generalizing tmpPath
  case nil => exact holds_pure rfl
  case cons k ks hi =>
    rw [clientOpenTempDownload.attempts]
    have hpid : Io.getpid.Leaves ds := ⟨fun _ => rfl⟩
    apply hpid.then
    intro pid
    dsimp only
    split
    case isTrue => exact holds_pure rfl
    case isFalse =>
      apply (holds_fsOpenTempFile _).bind
      intro r ds' hs
      subst hs
      cases r
      case ok => exact holds_pure rfl
      case error e =>
        dsimp only
        split
        case isTrue  => exact hi _
        case isFalse => exact holds_pure rfl

theorem leaves_clientGetFile_request (remotePath : CStr) (len : UInt16) :
    (clientGetFile.request remotePath len).Leaves ds := by
  rw [clientGetFile.request]
  split
  case h_1 => exact leaves_pure _
  case h_2 =>
    apply (leaves_clientSendHeaderPayload _ _ _).then
    intro sent
    split
    case isTrue => exact leaves_pure _
    case isFalse =>
      apply (leaves_clientRecvCheckedResponse _).then
      intro ready
      split
      case isTrue => exact leaves_pure _
      case isFalse =>
        apply (closed_protoRecvFileTransferPrefix leaves_closed).then
        intro r
        split
        case h_1 => exact leaves_pure _
        case h_2 => split <;> exact leaves_pure _

theorem holds_clientGetFile_body (ino : Nat) (size : UInt64) (tmpPath path : CStr) :
    (clientGetFile.body ino size tmpPath path).Holds (.file ino ::ₘ ds) (fun x ds' =>
      ds' = if x.2 then .file ino ::ₘ ds else ds) := by
  have hrecv : (clientRecvFileBody ino size).Leaves (.file ino ::ₘ ds) :=
    (leaves_netRecvFileBestEffort (Multiset.mem_cons_self _ ds) size).then fun _ => leaves_pure _
  apply Leaves.then hrecv
  intro received
  split
  case isTrue => exact holds_pure rfl
  case isFalse =>
    apply (holds_fsClose (Multiset.mem_cons_self _ ds)).bind
    intro closed ds' hs
    rw [Multiset.erase_cons_head] at hs
    subst hs
    split
    case isTrue => exact holds_pure rfl
    case isFalse =>
      apply (leaves_clientRecvCheckedResponse _).then
      intro final
      split
      case isTrue => exact holds_pure rfl
      case isFalse =>
        apply (leaves_fsCommitTempFile _ _).then
        intro done
        split <;> exact holds_pure rfl

theorem leaves_clientGetFile (opt : ClientOpt) : (clientGetFile opt).Leaves ds := by
  have hclean : ∀ path, (clientGetFile.cleanUp path).Leaves ds := by
    intro path
    rw [clientGetFile.cleanUp]
    split
    case isTrue  => exact leaves_fsRemoveIgnoreError _
    case isFalse => exact leaves_pure _
  rw [clientGetFile]
  split
  case h_1 => exact leaves_pure _
  case h_2 =>
    split
    case isTrue => exact leaves_pure _
    case isFalse =>
      split
      case h_1 => exact leaves_pure _
      case h_2 =>
        apply leaves_clientConnect.then
        intro connected
        split
        case isTrue => exact leaves_pure _
        case isFalse =>
          apply (leaves_clientGetFile_request _ _).then
          intro r
          split
          case h_1 => exact leaves_pure _
          case h_2 offered size =>
            split
            case isTrue => exact leaves_pure _
            case isFalse =>
              apply (holds_clientOpenTempDownload_attempts _ _ _).bind
              intro ⟨fd, tmpPath⟩ ds' hs
              subst hs
              cases fd
              case none => exact (hclean _).then fun _ => leaves_pure _
              case some ino =>
                apply (holds_clientGetFile_body ino size tmpPath _).bind
                intro x ds' hs
                subst hs
                dsimp only
                rw [clientGetFile.finish]
                have hlast : Io.Leaves ds (do
                    clientGetFile.cleanUp (if x.1 = true then .lit "" else tmpPath)
                    return if x.1 = true then 0 else 1) :=
                  (hclean _).then fun _ => leaves_pure _
                by_cases hopen : x.2 = true
                case neg =>
                  rw [if_neg hopen, if_neg hopen]
                  exact hlast
                case pos =>
                  rw [if_pos hopen, if_pos hopen]
                  apply closes_discard.bind
                  intro _ ds' hs
                  exact hs ▸ hlast

theorem leaves_client (opt : ClientOpt) : (client opt).Leaves ds := by
  rw [client]
  split
  case isTrue => exact leaves_clientSendFileRaw opt
  case isFalse =>
    split
    case isTrue => exact leaves_clientSendMessage opt
    case isFalse =>
      split
      case isTrue  => exact leaves_clientGetFile opt
      case isFalse => exact leaves_pure _

-- A thread that serves a connection, or a run of the client.
inductive Peer
  | connection (deps : HttpDeps) (opt : ServerOpt) (env : Env)
  | command (opt : ClientOpt) (env : Env)

def Peer.program : Peer → Program Sys Unit
  | connection deps opt env => (fun _ => ()) <$> (serverConnectionThreadMain deps opt).run env
  | command opt env         => (fun _ => ()) <$> (client opt).run env

-- The descriptors that `i` has open after the calls of a log.
def openAfter {ι : Type} [DecidableEq ι] (log : List (ι × ((o : SysOp) × o.Res))) (i : ι) : Multiset Entry :=
  descriptors.state 0 log i

theorem Peer.keeps (p : Peer) : descriptors.Keeps (fun _ ds => ds = 0) p.program 0 := by
  have hmap : ∀ {α : Type} {m : Io α} {env : Env}, m.Leaves 0 →
      descriptors.Keeps (fun _ ds => ds = 0) ((fun _ => ()) <$> m.run env) 0 := by
    intro α m env hm
    rw [← bind_pure_comp, Discipline.keeps_bind]
    exact (hm.keeps env).mono fun _ _ hs => hs
  cases p
  case connection deps opt env => exact hmap (leaves_serverConnectionThreadMain deps)
  case command opt env         => exact hmap (leaves_client opt)

-- However many connections and clients run at the same time, in whatever order they take their turns and
-- however their calls are answered, no call uses a descriptor that is not open, and a descriptor is open
-- at the end of none of them.
theorem descriptors_kept {ι W : Type} [DecidableEq ι] (h : Handler Sys W) (w : W) (peers : ι → Peer)
    (sched : List ι) :
    let P := (Pool.start w fun i => (peers i).program).run h sched
    (∀ l i x l', P.log = l ++ (i, x) :: l' → ∀ fd ∈ x.1.uses, fd ∈ openAfter l i) ∧
    ∀ i, P.result i ≠ none → openAfter P.log i = 0 := by
  have ⟨hobeyed, hend⟩ := Pool.disciplined (h := h) (w := w) (fun i => (peers i).keeps) sched
  refine ⟨hobeyed, fun i hr => ?_⟩
  have ⟨a, ha⟩ := Option.ne_none_iff_exists'.mp hr
  exact hend i a ha
