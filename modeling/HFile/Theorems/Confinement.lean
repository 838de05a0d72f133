import HFile.Theorems.Touches
import HFile.Source.Client

open Io (stays_pure stays_sys stays_fault stays_closed Touches Stays)

variable {D : CStr → Prop}

section

variable {opt : ServerOpt}

theorem stays_serverHandleTextMessage (header : ProtocolHeader) :
    (serverHandleTextMessage header).Stays D := by
  have hreceive : (serverHandleTextMessage.receive header).Stays D := by
    rw [serverHandleTextMessage.receive]
    split
    case isTrue => exact stays_pure _
    case isFalse =>
      apply stays_closed.malloc.then
      intro b
      split
      case isTrue => exact stays_pure _
      case isFalse =>
        apply (stays_closed.recv _).then
        intro message
        split
        case h_1 => exact stays_pure _
        case h_2 =>
          split
          case isTrue  => exact stays_pure _
          case isFalse => exact stays_appSubmitMessage _
  apply hreceive.then
  intro r
  exact (stays_closed.discard (closed_serverSendResponse stays_closed.toClosed _ _ _)).then
    fun _ => stays_pure _

-- A handler that sends a reply and is done.
theorem stays_reply (phase status : UInt8) (r : ProtocolResult) (a : α) :
    Io.Stays D (do
      discard <| serverSendResponse phase status r
      return a) :=
  (stays_closed.discard (closed_serverSendResponse stays_closed.toClosed _ _ _)).then
    fun _ => stays_pure _

theorem chars_ne_nil_of_fsValidateFileName {name : CStr} (h : fsValidateFileName name) :
    name.chars ≠ [] := by
  simp only [fsValidateFileName, decide_eq_true_eq] at h
  exact h.left

theorem stays_serverHandleFileTransfer (header : ProtocolHeader)
    (hr : ∀ name : CStr, name.chars ≠ [] → Reaches D opt.path name) :
    (serverHandleFileTransfer opt header).Stays D := by
  rw [serverHandleFileTransfer]
  split
  case isTrue => exact stays_reply _ _ _ _
  case isFalse =>
    apply (closed_protoRecvFileTransferPrefix stays_closed).then
    intro r
    split
    case h_1 => exact stays_pure _
    case h_2 name size =>
      split
      case isTrue => exact stays_reply _ _ _ _
      case isFalse hv =>
        have hname := chars_ne_nil_of_fsValidateFileName (show fsValidateFileName name by simpa using hv)
        dsimp only
        split
        case isTrue => exact stays_reply _ _ _ _
        case isFalse =>
          apply (closed_serverSendResponse stays_closed.toClosed _ _ _).then
          intro r
          split
          case isTrue => exact stays_pure _
          case isFalse =>
            apply (touches_appReceiveFile (hr name hname) _ _ _).stays.then
            intro r
            split
            case h_1 => exact stays_reply _ _ _ _
            case h_2 => exact closed_serverSendResponse stays_closed.toClosed _ _ _

theorem stays_serverHandleGetFile_send (name : CStr) (download : AppDownload) :
    (serverHandleGetFile.send name download).Stays D := by
  rw [serverHandleGetFile.send]
  split
  case h_1 => exact stays_pure _
  case h_2 =>
    split
    case h_1 => exact stays_reply _ _ _ _
    case h_2 =>
      apply (closed_protoSendPayload stays_closed.toClosed _).then
      intro r
      split
      case isTrue => exact stays_pure _
      case isFalse =>
        apply (stays_netSendFileBestEffort _ _).then
        intro r
        split
        case isTrue  => exact stays_reply _ _ _ _
        case isFalse => exact closed_serverSendResponse stays_closed.toClosed _ _ _

theorem stays_serverHandleGetFile (header : ProtocolHeader)
    (hr : ∀ name : CStr, name.chars ≠ [] → Reaches D opt.path name) :
    (serverHandleGetFile opt header).Stays D := by
  rw [serverHandleGetFile]
  split
  case isTrue => exact stays_reply _ _ _ _
  case isFalse =>
    apply (closed_protoRecvFileNameOnly stays_closed).then
    intro r
    split
    case h_1 => exact stays_reply _ _ _ _
    case h_2 name =>
      split
      case isTrue => exact stays_reply _ _ _ _
      case isFalse hv =>
        have hname := chars_ne_nil_of_fsValidateFileName (show fsValidateFileName name by simpa using hv)
        split
        case isTrue => exact stays_reply _ _ _ _
        case isFalse =>
          apply (stays_appPrepareDownload (hr name hname)).then
          intro r
          split
          case h_1 => exact stays_reply _ _ _ _
          case h_2 download =>
            apply (stays_serverHandleGetFile_send name download).then
            intro r
            exact (stays_appDownloadCleanup download).then fun _ => stays_pure _

theorem stays_handleProtocolConnection
    (hr : ∀ name : CStr, name.chars ≠ [] → Reaches D opt.path name) :
    (handleProtocolConnection opt).Stays D := by
  apply (closed_recvHeader stays_closed).then
  intro r
  split
  case h_1 => exact stays_pure _
  case h_2 =>
    split
    case h_1 => exact stays_pure _
    case h_2 header _ =>
      split
      case isTrue => exact (stays_serverHandleTextMessage header).then fun _ => stays_pure _
      case isFalse =>
        split
        case isTrue => exact (stays_serverHandleFileTransfer header hr).then fun _ => stays_pure _
        case isFalse =>
          split
          case isTrue  => exact (stays_serverHandleGetFile header hr).then fun _ => stays_pure _
          case isFalse => exact stays_pure _

-- An HTTP error reply.
theorem stays_error (status : Nat) (reason message : CStr) :
    (httpSendJsonError status reason message).Stays D :=
  closed_httpSendJsonError (M := Stays D) stays_closed.toClosed status reason message

theorem stays_response (status : Nat) (reason contentType : CStr) (body : Bytes) :
    (httpSendResponse status reason contentType body).Stays D :=
  closed_httpSendResponse (M := Stays D) stays_closed.toClosed status reason contentType body

theorem stays_httpSendAll (bs : Bytes) : (httpSendAll bs).Stays D :=
  closed_httpSendAll (M := Stays D) stays_closed.toClosed bs

theorem stays_httpSendFile (hr : ∀ name : CStr, name.chars ≠ [] → Reaches D opt.path name)
    (relativePath : CStr) : (httpSendFile opt relativePath).Stays D := by
  rw [httpSendFile]
  split
  case isTrue => exact stays_error _ _ _
  case isFalse hv =>
    have hpath := (goodSegments_of_validate (show fsValidateRelativePath relativePath by simpa using hv)).left
    apply (stays_appPrepareDownload (hr relativePath hpath)).then
    intro r
    split
    case h_1 => exact stays_error _ _ _
    case h_2 download =>
      have hsend : (httpSendFile.send relativePath download).Stays D := by
        rw [httpSendFile.send]
        split
        case isTrue => exact stays_pure _
        case isFalse =>
          apply (stays_httpSendAll _).then
          intro sent
          split
          case isTrue  => exact stays_pure _
          case isFalse => exact (stays_netSendFileBestEffort _ _).then fun _ => stays_pure _
      apply hsend.then
      intro done
      exact (stays_appDownloadCleanup download).then fun _ => stays_pure _

theorem stays_httpHandleFilePut (hr : ∀ name : CStr, name.chars ≠ [] → Reaches D opt.path name)
    (req : HttpRequest) (relativePath : CStr) : (httpHandleFilePut opt req relativePath).Stays D := by
  have hdiscard : ∀ n, Io.Stays D (discard (httpDiscardBody n)) :=
    fun n => stays_closed.discard ⟨fun _ => trivial⟩
  rw [httpHandleFilePut]
  split
  case isTrue => exact stays_error _ _ _
  case isFalse =>
    split
    case isTrue => exact stays_error _ _ _
    case isFalse =>
      split
      case isTrue => exact stays_error _ _ _
      case isFalse =>
        split
        case isTrue => exact (hdiscard _).then fun _ => stays_error _ _ _
        case isFalse =>
          split
          case isTrue => exact (hdiscard _).then fun _ => stays_error _ _ _
          case isFalse hv =>
            have hpath := (goodSegments_of_validate (show fsValidateRelativePath relativePath by simpa using hv)).left
            apply (touches_appReceiveFile (hr relativePath hpath) _ _ _).bind
            intro r hok
            split
            case h_4 path =>
              apply (stays_fsStatPath (hok path rfl)).then
              intro info
              split
              case h_1 => exact stays_error _ _ _
              case h_2 =>
                split
                case isTrue  => exact stays_error _ _ _
                case isFalse => exact stays_response ..
            all_goals exact stays_error _ _ _

theorem stays_messageStoreGetSnapshot : messageStoreGetSnapshot.Stays D := by
  apply (stays_sys (SysOp.confined_nil rfl)).then
  intro x
  dsimp only
  split
  case isTrue =>
    apply stays_closed.malloc.then
    intro b
    split <;> exact stays_pure _
  case isFalse => exact stays_pure _

theorem stays_messageStoreWaitForUpdate (version : Nat) :
    (messageStoreWaitForUpdate version).Stays D := by
  apply (stays_sys (SysOp.confined_nil rfl)).then
  intro x
  dsimp only
  split
  case isTrue =>
    apply stays_closed.malloc.then
    intro b
    split <;> exact stays_pure _
  case isFalse => exact stays_pure _

theorem stays_httpHandleMessagesStream_loop (version rounds : Nat) :
    (httpHandleMessagesStream.loop version rounds).Stays D := by
  have hsend : ∀ bs (k : Io Bool), k.Stays D → Io.Stays D (do
      if !(← httpSendAll bs) then return false
      k) := by
    intro bs k hk
    apply (stays_httpSendAll _).then
    intro sent
    split
    case isTrue  => exact stays_pure _
    case isFalse => exact hk
  induction rounds generalizing version
  case zero =>
    apply (stays_messageStoreWaitForUpdate _).then
    intro r
    split <;> exact stays_pure _
  case succ rounds hi =>
    apply (stays_messageStoreWaitForUpdate _).then
    intro r
    split
    case h_1 => exact stays_pure _
    case h_2 => exact hsend _ _ (hi _)
    case h_3 => exact hsend _ _ (hi _)

theorem stays_httpHandleMessagesStream : httpHandleMessagesStream.Stays D := by
  have hrounds : ∀ version, Io.Stays D (do httpHandleMessagesStream.loop version (← Io.rounds)) := by
    intro version
    have hr : Io.rounds.Stays D := ⟨fun _ => trivial⟩
    exact hr.then fun n => stays_httpHandleMessagesStream_loop version n
  apply (stays_httpSendAll _).then
  intro sent
  split
  case isTrue => exact stays_pure _
  case isFalse =>
    apply stays_messageStoreGetSnapshot.then
    intro r
    split
    case h_1 => exact stays_pure _
    case h_2 => exact hrounds _
    case h_3 =>
      apply (stays_httpSendAll _).then
      intro sent
      split
      case isTrue  => exact stays_pure _
      case isFalse => exact hrounds _

theorem stays_httpHandleMessagesLatestGet : httpHandleMessagesLatestGet.Stays D := by
  have hcopy : messageStoreGetCopy.Stays D := by
    apply stays_messageStoreGetSnapshot.then
    intro r
    split <;> exact stays_pure _
  apply hcopy.then
  intro r
  split
  case h_1 => exact stays_error _ _ _
  case h_2 => exact stays_response _ _ _ _

theorem stays_httpHandleMessagesPost (req : HttpRequest) : (httpHandleMessagesPost req).Stays D := by
  have hfail : ∀ status reason message, Io.Stays D (do
      discard <| httpSendJsonError status reason message
      return false) :=
    fun _ _ _ => (stays_closed.discard (stays_error _ _ _)).then fun _ => stays_pure _
  rw [httpHandleMessagesPost]
  split
  case isTrue => exact stays_error _ _ _
  case isFalse =>
    split
    case isTrue => exact stays_error _ _ _
    case isFalse =>
      split
      case isTrue => exact stays_error _ _ _
      case isFalse =>
        split
        case isTrue => exact stays_error _ _ _
        case isFalse =>
          apply stays_closed.malloc.then
          intro b
          split
          case isTrue => exact stays_error _ _ _
          case isFalse =>
            apply (stays_closed.recv _).then
            intro body
            split
            case h_1 => exact stays_pure _
            case h_2 body =>
              split
              case isTrue => exact stays_pure _
              case isFalse =>
                apply (closed_httpParseMessageJson stays_closed.toClosed body).then
                intro message
                split
                case h_1 => exact hfail _ _ _
                case h_2 message =>
                  apply (stays_appSubmitMessage message).then
                  intro r
                  split
                  case isTrue  => exact hfail _ _ _
                  case isFalse => exact stays_response _ _ _ _

-- The names that a directory holds lead to paths that satisfy `D`.
def MembersIn (D : CStr → Prop) (dir : CStr) : Prop :=
  ∀ name path : CStr, slash ∉ name.chars → name ≠ .lit ".." → fsJoinPath pathCap dir name = some path →
    D path

theorem stays_httpListFiles_entries {dir : CStr} (hl : MembersIn D dir) (relativeDir : CStr)
    (names : List CStr) (hn : ∀ name ∈ names, slash ∉ name.chars) :
    (httpListFiles.entries dir relativeDir names).Stays D := by
  induction names
  case nil => exact stays_pure _
  case cons name names hi =>
    rw [List.forall_mem_cons] at hn
    rw [httpListFiles.entries]
    split
    case isTrue => exact hi hn.right
    case isFalse hs =>
      split
      case h_1 => exact stays_pure _
      case h_2 path hp =>
        split
        case h_1 => exact stays_pure _
        case h_2 =>
          apply (stays_fsStatPath (hl name path hn.left (fun h => hs (.inr h)) hp)).then
          intro info
          split
          case h_1 => exact hi hn.right
          case h_2 => exact (hi hn.right).then fun _ => stays_pure _

theorem touches_opendir {dir : CStr} (hd : D dir) (f : Option Errno) :
    (Io.sys (.opendir dir f)).Touches D
      (fun r => ∀ names, r = some names → ∀ name ∈ names, slash ∉ name.chars) := by
  constructor
  intro e
  refine ⟨by simpa [SysOp.Confined, SysOp.paths] using hd, ?_⟩
  intro r hr names hn
  subst hn
  exact hr

theorem stays_httpListFiles {dir : CStr} (hd : D dir) (hl : MembersIn D dir) (relativeDir : CStr) :
    (httpListFiles dir relativeDir).Stays D := by
  apply stays_fault.then
  intro f
  apply (touches_opendir hd f).bind
  intro r hr
  split
  case h_1 => exact stays_pure _
  case h_2 names =>
    exact (stays_httpListFiles_entries hl relativeDir names (hr names rfl)).then fun _ => stays_pure _

theorem stays_httpHandleFilesList
    (hd : ∀ {relativeDir dir}, fsJoinRelativePath pathCap opt.path relativeDir = some dir →
      D dir ∧ MembersIn D dir)
    (req : HttpRequest) : (httpHandleFilesList opt req).Stays D := by
  rw [httpHandleFilesList]
  split
  case h_1 => exact stays_error _ _ _
  case h_2 relativeDir _ =>
    split
    case h_1 => exact stays_error _ _ _
    case h_2 dir hj =>
      have ⟨hdir, hl⟩ := hd hj
      apply (stays_fsStatPath hdir).then
      intro info
      split
      case h_1 => exact stays_error _ _ _
      case h_2 info =>
        have his : (httpHandleFilesList.isDir dir relativeDir info).Stays D := by
          rw [httpHandleFilesList.isDir]
          split
          case isTrue => exact stays_pure _
          case isFalse =>
            split
            case isTrue =>
              apply stays_fault.then
              intro f
              exact (touches_opendir hdir f).stays.then fun _ => stays_pure _
            case isFalse => exact stays_pure _
        apply his.then
        intro b
        split
        case isTrue => exact stays_error _ _ _
        case isFalse =>
          have hjson : (httpBuildFilesJson dir relativeDir).Stays D :=
            (stays_httpListFiles hdir hl relativeDir).then fun _ => stays_pure _
          apply hjson.then
          intro body
          split
          case h_1 => exact stays_error _ _ _
          case h_2 => exact stays_response _ _ _ _

-- All that the paths of a server are made of.
structure Covers (D : CStr → Prop) (baseDir : CStr) : Prop where
  file : ∀ name : CStr, name.chars ≠ [] → Reaches D baseDir name
  dir  : ∀ {relativeDir dir}, fsJoinRelativePath pathCap baseDir relativeDir = some dir →
    D dir ∧ MembersIn D dir

theorem stays_httpDispatchExactRoute (hc : Covers D opt.path) (req : HttpRequest) :
    (httpDispatchExactRoute opt req).Stays D := by
  rw [httpDispatchExactRoute]
  split
  case h_1 => exact stays_pure _
  case h_2 path method handler hf =>
    have hmem := List.mem_of_find?_eq_some hf
    have hh : handler.Stays D := by
      simp only [httpExactRoutes, List.mem_cons, Prod.mk.injEq, List.not_mem_nil, or_false] at hmem
      obtain ⟨-, -, rfl⟩ | ⟨-, -, rfl⟩ | ⟨-, -, rfl⟩ | ⟨-, -, rfl⟩ := hmem
      · exact stays_httpHandleFilesList hc.dir req
      · exact stays_httpHandleMessagesPost req
      · exact stays_httpHandleMessagesLatestGet
      · exact stays_httpHandleMessagesStream
    split
    case isTrue  => exact (stays_error _ _ _).then fun _ => stays_pure _
    case isFalse => exact hh.then fun _ => stays_pure _

theorem stays_httpDispatchFileRoute (hc : Covers D opt.path) (req : HttpRequest) :
    (httpDispatchFileRoute opt req).Stays D := by
  rw [httpDispatchFileRoute]
  split
  case isTrue => exact stays_pure _
  case isFalse =>
    split
    case h_1 => exact (stays_error _ _ _).then fun _ => stays_pure _
    case h_2 name _ =>
      split
      case isTrue => exact (stays_httpSendFile hc.file name).then fun _ => stays_pure _
      case isFalse =>
        split
        case isTrue  => exact (stays_httpHandleFilePut hc.file req name).then fun _ => stays_pure _
        case isFalse => exact (stays_error _ _ _).then fun _ => stays_pure _

theorem stays_httpDispatch (hc : Covers D opt.path) (deps : HttpDeps) (req : HttpRequest) :
    (httpDispatch deps opt req).Stays D := by
  rw [httpDispatch]
  split
  case h_1 => exact stays_response _ _ _ _
  case h_2 =>
    apply (stays_httpDispatchExactRoute hc req).then
    intro r
    split
    case h_1 => exact stays_pure _
    case h_2 =>
      apply (stays_httpDispatchFileRoute hc req).then
      intro r
      split
      case h_1 => exact stays_pure _
      case h_2 => exact stays_error _ _ _

theorem stays_handleHttpConnection (hc : Covers D opt.path) (deps : HttpDeps) :
    (handleHttpConnection deps opt).Stays D := by
  have hread : (httpReadHeaderBlock httpHeaderMax).Stays D := ⟨fun _ => trivial⟩
  apply hread.then
  intro block
  split
  case h_1 => exact stays_pure _
  case h_2 => exact stays_pure _
  case h_3 => exact stays_error _ _ _
  case h_4 =>
    split
    case h_1 => exact stays_error _ _ _
    case h_2 => exact stays_error _ _ _
    case h_3 req _ => exact stays_httpDispatch hc deps req

theorem stays_serverConnectionThreadMain (hc : Covers D opt.path) (deps : HttpDeps) :
    (serverConnectionThreadMain deps opt).Stays D := by
  have hkind : serverDetectConnectionKind.Stays D := by
    constructor
    intro e
    simp only [StateT.run, serverDetectConnectionKind]
    split
    case h_3 => split <;> (repeat' split) <;> trivial
    all_goals trivial
  apply hkind.then
  intro kind
  cases kind
  case http =>
    exact (stays_closed.discard (stays_handleHttpConnection hc deps)).then fun _ => stays_pure _
  case protocol =>
    exact (stays_closed.discard (stays_handleProtocolConnection hc.file)).then fun _ => stays_pure _
  case invalid => exact stays_pure _

end

-- The paths that a server may use: its directory and what lies below it.
theorem covers_within {baseDir : CStr} (hb : baseDir.chars ≠ []) :
    Covers (fun path => (resolve baseDir).Within (resolve path)) baseDir where
  file name hn :=
    { full := within_fsJoinRelativePath hb
      temp := fun hj ht => within_fsBuildTempPath hb hn hj ht }
  dir {relativeDir dir} hj := by
    have hw := within_fsJoinRelativePath hb hj
    have hne : dir.chars ≠ [] := by
      cases fsJoinRelativePath_eq hj
      case inl h => exact h.right ▸ hb
      case inr h => simp [h.right, hb]
    refine ⟨hw, fun name path hs hup hp => hw.trans ?_⟩
    rw [fsJoinPath_eq hp]
    apply within_join hne
    rw [segments, List.splitOn_eq_singleton hs]
    intro s hmem
    rw [List.mem_singleton] at hmem
    exact fun h => hup (CStr.ext (hmem.symm.trans h))

section

-- The current directory, or an entry of it.
def Direct (path : CStr) : Prop :=
  (resolve path).rooted = false ∧ (resolve path).ups = 0 ∧ (resolve path).names.length ≤ 1

theorem direct_of_name {path : CStr} (hs : slash ∉ path.chars) (hup : path.chars ≠ [dot, dot]) :
    Direct path := by
  have hhead : path.chars.head? ≠ some slash := fun h => hs (List.mem_of_mem_head? h)
  have hm := segmentMove_ne_up hup
  have hr : resolve path = Place.move ⟨false, 0, []⟩ (segmentMove path.chars) := by
    simp [resolve, segments, List.splitOn_eq_singleton hs, hhead]
  cases h : segmentMove path.chars
  case stay   => simp [Direct, hr, h, Place.move]
  case up     => exact absurd h hm
  case down n => simp [Direct, hr, h, Place.move]

-- What `client_open_temp_download` leaves in `tmp_path`, also if it does not fit there.
theorem direct_fsBuildTempPath {path : CStr} (hs : slash ∉ path.chars) (pid attempt : Nat) :
    Direct (fsBuildTempPath pathCap path pid attempt).1 := by
  rw [fsBuildTempPath_eq]
  have hs' : slash ∉ (path ++ tempSuffix pid attempt).chars := by
    simp [hs, slash_notMem_tempSuffix]
  apply direct_of_name (fun h => hs' (List.mem_of_mem_take h))
  by_cases hf : (snprintf pathCap (path ++ tempSuffix pid attempt)).2
  case pos =>
    rw [snprintf_fits hf]
    exact append_tempSuffix_ne _ _ _
  case neg =>
    intro h
    have hlen := congrArg List.length h
    have hlong : pathCap ≤ (path ++ tempSuffix pid attempt).chars.length :=
      Nat.le_of_not_lt fun hl => hf (decide_eq_true hl)
    rw [snprintf, List.length_take_of_le (by omega)] at hlen
    contradiction

theorem touches_clientOpenTempDownload_attempts {path tmpPath : CStr} (hs : slash ∉ path.chars)
    (ht : Direct tmpPath) (ks : List Nat) :
    (clientOpenTempDownload.attempts path tmpPath ks).Touches Direct (fun r => Direct r.2) := by
  induction ks generalizing tmpPath
  case nil => exact Io.touches_pure ht
  case cons k ks hi =>
    have hpid : Io.getpid.Stays Direct := ⟨fun _ => trivial⟩
    apply hpid.then
    intro pid
    have hd := direct_fsBuildTempPath hs pid k
    dsimp only
    split
    case isTrue => exact Io.touches_pure hd
    case isFalse =>
      apply (stays_fsOpenTempFile hd).then
      intro r
      split
      case h_1 => exact Io.touches_pure hd
      case h_2 =>
        split
        case isTrue  => exact hi hd
        case isFalse => exact Io.touches_pure hd

theorem stays_clientRecvCheckedResponse (phase : UInt8) :
    (clientRecvCheckedResponse phase).Stays D := by
  have hrecv : (clientRecvResponse phase).Stays D := by
    apply (closed_recvResFrame stays_closed).then
    intro r
    split
    case h_1 => exact stays_pure _
    case h_2 => (repeat' split) <;> exact stays_pure _
  apply hrecv.then
  intro r
  split <;> exact stays_pure _

theorem stays_clientSendHeaderPayload (msgType : UInt8) (size : UInt64) (payload : Bytes) :
    (clientSendHeaderPayload msgType size payload).Stays D := by
  have hsend := closed_protoSendPayload (M := Stays D) stays_closed.toClosed
  rw [clientSendHeaderPayload]
  dsimp only
  split
  case isTrue => exact (hsend _).then fun _ => stays_pure _
  case isFalse =>
    apply (hsend _).then
    intro r
    split
    case isTrue  => exact stays_pure _
    case isFalse => exact (hsend _).then fun _ => stays_pure _

theorem stays_clientGetFile_request (remotePath : CStr) (len : UInt16) :
    (clientGetFile.request remotePath len).Stays D := by
  rw [clientGetFile.request]
  split
  case h_1 => exact stays_pure _
  case h_2 =>
    apply (stays_clientSendHeaderPayload _ _ _).then
    intro sent
    split
    case isTrue => exact stays_pure _
    case isFalse =>
      apply (stays_clientRecvCheckedResponse _).then
      intro ready
      split
      case isTrue => exact stays_pure _
      case isFalse =>
        apply (closed_protoRecvFileTransferPrefix stays_closed).then
        intro r
        split
        case h_1 => exact stays_pure _
        case h_2 => split <;> exact stays_pure _

theorem stays_clientGetFile_body {tmpPath path : CStr} (ht : D tmpPath) (hp : D path) (ino : Nat)
    (size : UInt64) : (clientGetFile.body ino size tmpPath path).Stays D := by
  have hrecv : (clientRecvFileBody ino size).Stays D :=
    (stays_netRecvFileBestEffort ino size).then fun _ => stays_pure _
  apply Stays.then hrecv
  intro received
  split
  case isTrue => exact stays_pure _
  case isFalse =>
    apply (stays_fsClose _).then
    intro closed
    split
    case isTrue => exact stays_pure _
    case isFalse =>
      apply (stays_clientRecvCheckedResponse _).then
      intro final
      split
      case isTrue => exact stays_pure _
      case isFalse =>
        apply (stays_fsCommitTempFile ht hp).then
        intro done
        split <;> exact stays_pure _

theorem stays_clientGetFile {opt : ClientOpt} (ho : opt.outputPath = none) :
    (clientGetFile opt).Stays Direct := by
  have hclean : ∀ {path}, Direct path → (clientGetFile.cleanUp path).Stays Direct := by
    intro path hp
    rw [clientGetFile.cleanUp]
    split
    case isTrue  => exact stays_fsRemoveIgnoreError hp
    case isFalse => exact stays_pure _
  have hempty : Direct (.lit "") := direct_of_name (by decide) (by decide)
  rw [clientGetFile]
  split
  case h_1 => exact stays_pure _
  case h_2 =>
    split
    case isTrue => exact stays_pure _
    case isFalse =>
      split
      case h_1 => exact stays_pure _
      case h_2 =>
        have hconnect : clientConnect.Stays Direct := stays_fault.then fun _ => stays_pure _
        apply Stays.then hconnect
        intro connected
        split
        case isTrue => exact stays_pure _
        case isFalse =>
          apply (stays_clientGetFile_request _ _).then
          intro r
          split
          case h_1 => exact stays_pure _
          case h_2 offered size =>
            simp only [ho, Option.isNone_none, Bool.true_and, Option.getD_none]
            split
            case isTrue => exact stays_pure _
            case isFalse hv =>
              simp only [Bool.not_eq_true', Bool.not_eq_false, fsValidateFileName,
                decide_eq_true_eq] at hv
              have ⟨_, hs, _, hdots⟩ := hv
              have hoff : Direct offered := direct_of_name hs fun h => hdots (h ▸ List.infix_rfl)
              apply (touches_clientOpenTempDownload_attempts hs hempty _).bind
              intro r hr
              split
              case h_1 => exact (hclean hr).then fun _ => stays_pure _
              case h_2 ino tmpPath =>
                apply (stays_clientGetFile_body hr hoff ino size).then
                intro x
                rw [clientGetFile.finish]
                have hlast : ∀ done, Io.Stays Direct (do
                    clientGetFile.cleanUp (if done = true then .lit "" else tmpPath)
                    return if done = true then 0 else 1) := by
                  intro done
                  apply Stays.then _ fun _ => stays_pure _
                  split
                  case isTrue  => exact hclean hempty
                  case isFalse => exact hclean hr
                split
                case isTrue  => exact (stays_closed.discard (stays_fsClose _)).then fun _ => hlast _
                case isFalse => exact hlast _

end

-- Every path that a connection of the server uses lies within the server's directory, and a fetch
-- without an output path only uses the current directory and its entries.
theorem paths_confined (deps : HttpDeps) (server : ServerOpt) (client : ClientOpt)
    (hs : server.path.chars ≠ []) (hc : client.outputPath = none) :
    (serverConnectionThreadMain deps server).Stays
      (fun path => (resolve server.path).Within (resolve path)) ∧
    (clientGetFile client).Stays
      (fun path => (resolve path).rooted = false ∧ (resolve path).ups = 0 ∧
        (resolve path).names.length ≤ 1) :=
  ⟨stays_serverConnectionThreadMain (covers_within hs) deps, stays_clientGetFile hc⟩

theorem paths_confined_to_d :
    (serverConnectionThreadMain ⟨fun _ => some ⟨ascii "GET", ascii "/api/files", 1, []⟩, []⟩
      ⟨.lit "d", 9000⟩).Stays (fun path => (resolve (.lit "d")).Within (resolve path)) ∧
    (clientGetFile ⟨.lit "", some (.lit "f"), none, .lit "", msgTypeGetFile⟩).Stays
      (fun path => (resolve path).rooted = false ∧ (resolve path).ups = 0 ∧
        (resolve path).names.length ≤ 1) :=
  paths_confined _ ⟨.lit "d", 9000⟩ ⟨.lit "", some (.lit "f"), none, .lit "", msgTypeGetFile⟩
    (by decide) rfl
