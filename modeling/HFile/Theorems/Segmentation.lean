import HFile.Theorems.Alike

open Arrival (bytes)
open Program (Handler)
open Io (Blind Uncut Last Relates)

section Blind

variable {W : Type} {h : Handler Sys W}

theorem blind_pure (a : α) : Blind h (pure a) :=
  (Blind.closed h).pure a

theorem blind_discard {m : Io α} (hm : Blind h m) : Blind h (discard m) :=
  (Blind.closed h).discard hm

theorem blind_response (status : Nat) (reason contentType : CStr) (body : Bytes) :
    Blind h (httpSendResponse status reason contentType body) :=
  closed_httpSendResponse (Blind.closed h) status reason contentType body

theorem blind_error (status : Nat) (reason message : CStr) : Blind h (httpSendJsonError status reason message) :=
  closed_httpSendJsonError (Blind.closed h) status reason message

theorem blind_serverSendResponse (phase status : UInt8) (r : ProtocolResult) :
    Blind h (serverSendResponse phase status r) :=
  closed_serverSendResponse (Blind.closed h) phase status r

theorem blind_httpSendAll (bs : Bytes) : Blind h (httpSendAll bs) :=
  closed_httpSendAll (Blind.closed h) bs

theorem blind_fsClose (fd : Entry) : Blind h (fsClose fd) :=
  Blind.fault.bind fun _ => Blind.sys _

theorem blind_fsOpenTempFile (path : CStr) : Blind h (fsOpenTempFile path) :=
  Blind.fault.bind fun _ => Blind.sys _

theorem blind_fsCommitTempFile (tmpPath path : CStr) : Blind h (fsCommitTempFile tmpPath path) :=
  Blind.fault.bind fun _ => Blind.sys _

theorem blind_fsStatPath (path : CStr) : Blind h (fsStatPath path) :=
  Blind.fault.bind fun _ => Blind.sys _

theorem blind_netSendFileBestEffort (fd : Entry) (size : UInt64) : Blind h (netSendFileBestEffort fd size) := by
  have hall : Blind h (netSendFileAll fd size) := Blind.lift (fun _ _ _ _ => rfl) (fun _ _ _ _ _ => rfl)
  apply hall.bind
  intro r
  split
  case isTrue => exact blind_pure _
  case isFalse =>
    rw [netSendFileBuffered]
    split
    case isTrue => exact blind_pure _
    case isFalse =>
      apply (Blind.closed h).malloc.bind
      intro b
      split
      case isTrue  => exact blind_pure _
      case isFalse => exact Blind.lift (fun _ _ _ _ => rfl) (fun _ _ _ _ _ => rfl)

theorem blind_appPrepareDownload (baseDir path : CStr) : Blind h (appPrepareDownload baseDir path) := by
  rw [appPrepareDownload]
  split
  case h_1 => exact blind_pure _
  case h_2 =>
    have hclose : ∀ fd r, Blind h (do
        discard <| fsClose fd
        return (.error r : Except ProtocolResult AppDownload)) :=
      fun fd r => (blind_discard (blind_fsClose fd)).bind fun _ => blind_pure _
    apply Blind.fault.bind
    intro f
    apply (Blind.sys _).bind
    intro r
    split
    case h_1 => exact blind_pure _
    case h_2 =>
      apply Blind.fault.bind
      intro f
      apply (Blind.sys _).bind
      intro info
      split
      case h_1 => exact hclose _ _
      case h_2 => 
        split
        case isTrue  => exact hclose _ _
        case isFalse => exact blind_pure _

theorem blind_appDownloadCleanup (download : AppDownload) : Blind h (appDownloadCleanup download) :=
  blind_discard (blind_fsClose _)

theorem blind_httpSendFile (opt : ServerOpt) (path : CStr) : Blind h (httpSendFile opt path) := by
  rw [httpSendFile]
  split
  case isTrue => exact blind_error _ _ _
  case isFalse =>
    apply (blind_appPrepareDownload _ _).bind
    intro r
    split
    case h_1 => exact blind_error _ _ _
    case h_2 download =>
      have hsend : Blind h (httpSendFile.send path download) := by
        rw [httpSendFile.send]
        split
        case isTrue => exact blind_pure _
        case isFalse =>
          apply (blind_httpSendAll _).bind
          intro sent
          split
          case isTrue  => exact blind_pure _
          case isFalse => exact (blind_netSendFileBestEffort _ _).bind fun _ => blind_pure _
      apply hsend.bind
      intro done
      exact (blind_appDownloadCleanup download).bind fun _ => blind_pure _

theorem blind_httpListFiles (dir relativeDir : CStr) : Blind h (httpListFiles dir relativeDir) := by
  have hentries : ∀ names, Blind h (httpListFiles.entries dir relativeDir names) := by
    intro names
    induction names
    case nil => exact blind_pure _
    case cons name names hi =>
      rw [httpListFiles.entries]
      split
      case isTrue => exact hi
      case isFalse =>
        split
        case h_1 => exact blind_pure _
        case h_2 =>
          split
          case h_1 => exact blind_pure _
          case h_2 =>
            apply (blind_fsStatPath _).bind
            intro info
            split
            case h_1 => exact hi
            case h_2 => exact hi.bind fun _ => blind_pure _
  apply Blind.fault.bind
  intro f
  apply (Blind.sys _).bind
  intro names
  split
  case h_1 => exact blind_pure _
  case h_2 => exact (hentries _).bind fun _ => blind_pure _

theorem blind_httpHandleFilesList (opt : ServerOpt) (req : HttpRequest) : Blind h (httpHandleFilesList opt req) := by
  rw [httpHandleFilesList]
  split
  case h_1 => exact blind_error _ _ _
  case h_2 =>
    split
    case h_1 => exact blind_error _ _ _
    case h_2 dir _ =>
      apply (blind_fsStatPath dir).bind
      intro info
      split
      case h_1 => exact blind_error _ _ _
      case h_2 info =>
        have his : ∀ relativeDir, Blind h (httpHandleFilesList.isDir dir relativeDir info) := by
          intro relativeDir
          rw [httpHandleFilesList.isDir]
          split
          case isTrue => exact blind_pure _
          case isFalse =>
            split
            case isTrue  => exact Blind.fault.bind fun _ => (Blind.sys _).bind fun _ => blind_pure _
            case isFalse => exact blind_pure _
        apply (his _).bind
        intro b
        split
        case isTrue => exact blind_error _ _ _
        case isFalse =>
          apply ((blind_httpListFiles _ _).bind fun _ => blind_pure _).bind
          intro body
          split
          case h_1 => exact blind_error _ _ _
          case h_2 => exact blind_response _ _ _ _

-- A copy of the store's message is made where there is one.
theorem blind_copy (o : SysOp) (f : o.Res → Bool) (g : o.Res → Option (Option CStr × Nat)) :
    Blind h (do
      let x ← Io.sys o
      if f x then
        if !(← Io.malloc) then return none
      return g x) := by
  apply (Blind.sys o).bind
  intro x
  split
  case isTrue =>
    apply (Blind.closed h).malloc.bind
    intro b
    split <;> exact blind_pure _
  case isFalse => exact blind_pure _

theorem blind_messageStoreGetSnapshot : Blind h messageStoreGetSnapshot :=
  blind_copy .getMessage (·.1.isSome) some

theorem blind_messageStoreWaitForUpdate (version : Nat) : Blind h (messageStoreWaitForUpdate version) :=
  blind_copy (.waitMessage version) (·.1.isSome) some

theorem blind_httpHandleMessagesLatestGet : Blind h httpHandleMessagesLatestGet := by
  have hcopy : Blind h messageStoreGetCopy := by
    apply blind_messageStoreGetSnapshot.bind
    intro r
    split <;> exact blind_pure _
  apply hcopy.bind
  intro r
  split
  case h_1 => exact blind_error _ _ _
  case h_2 => exact blind_response _ _ _ _

theorem blind_send (bs : Bytes) {k : Io Bool} (hk : Blind h k) : Blind h (do
    if !(← httpSendAll bs) then return false
    k) := by
  apply (blind_httpSendAll _).bind
  intro sent
  split
  case isTrue  => exact blind_pure _
  case isFalse => exact hk

theorem blind_httpHandleMessagesStream_loop (version rounds : Nat) :
    Blind h (httpHandleMessagesStream.loop version rounds) := by
  induction rounds generalizing version
  case zero =>
    apply (blind_messageStoreWaitForUpdate _).bind
    intro r
    split <;> exact blind_pure _
  case succ rounds hi =>
    apply (blind_messageStoreWaitForUpdate _).bind
    intro r
    split
    case h_1 => exact blind_pure _
    case h_2 => exact blind_send _ (hi _)
    case h_3 => exact blind_send _ (hi _)

theorem blind_httpHandleMessagesStream : Blind h httpHandleMessagesStream := by
  have hloop : ∀ version, Blind h (do httpHandleMessagesStream.loop version (← Io.rounds)) :=
    fun version => Blind.rounds.bind fun n => blind_httpHandleMessagesStream_loop version n
  apply blind_send
  apply blind_messageStoreGetSnapshot.bind
  intro r
  split
  case h_1 => exact blind_pure _
  case h_2 => exact hloop _
  case h_3 => exact blind_send _ (hloop _)

theorem blind_appSubmitMessage (message : CStr) : Blind h (appSubmitMessage message) := by
  have hset : Blind h (messageStoreSet message) := by
    apply (Blind.closed h).malloc.bind
    intro b
    split
    case isTrue  => exact blind_pure _
    case isFalse => exact (Blind.sys _).bind fun _ => blind_pure _
  rw [appSubmitMessage]
  split
  case isTrue => exact blind_pure _
  case isFalse =>
    apply hset.bind
    intro b
    split <;> exact blind_pure _

-- What is done before and after the body of an upload.
theorem blind_transferPrepareOutput (baseDir name : CStr) : Blind h (transferPrepareOutput baseDir name) := by
  have hattempts : ∀ full ks, Blind h (transferPrepareOutput.attempts full ks) := by
    intro full ks
    induction ks
    case nil => exact blind_pure _
    case cons k ks hi =>
      rw [transferPrepareOutput.attempts]
      apply Blind.getpid.bind
      intro pid
      dsimp only
      split
      case isTrue => exact blind_pure _
      case isFalse =>
        apply (blind_fsOpenTempFile _).bind
        intro r
        split
        case h_1 => exact blind_pure _
        case h_2 =>
          split
          case isTrue  => exact hi
          case isFalse => exact blind_pure _
  rw [transferPrepareOutput]
  split
  case h_1 => exact blind_pure _
  case h_2 =>
    apply (hattempts _ _).bind
    intro r
    split <;> exact blind_pure _

theorem blind_transferCleanup (out : TransferOutput) (isOpen : Bool) : Blind h (transferCleanup out isOpen) := by
  rw [transferCleanup]
  split
  case isTrue  => exact (blind_discard (blind_fsClose _)).bind fun _ => Blind.sys _
  case isFalse => exact Blind.sys _

theorem blind_transferFinalizeOutput (out : TransferOutput) (cap : Nat) : Blind h (transferFinalizeOutput out cap) := by
  rw [transferFinalizeOutput]
  split
  case isTrue => exact blind_pure _
  case isFalse =>
    apply (blind_fsClose _).bind
    intro b
    split
    case isTrue => exact blind_pure _
    case isFalse =>
      apply (blind_fsCommitTempFile _ _).bind
      intro b
      split <;> exact blind_pure _

-- The answer to an accepted download.
theorem blind_reply (phase status : UInt8) (r : ProtocolResult) (a : α) : Blind h (do
    discard <| serverSendResponse phase status r
    return a) :=
  (blind_discard (blind_serverSendResponse _ _ _)).bind fun _ => blind_pure _

theorem blind_serverHandleGetFile_send (name : CStr) (download : AppDownload) :
    Blind h (serverHandleGetFile.send name download) := by
  rw [serverHandleGetFile.send]
  split
  case h_1 => exact blind_pure _
  case h_2 =>
    split
    case h_1 => exact blind_reply _ _ _ _
    case h_2 =>
      apply (closed_protoSendPayload (Blind.closed h) _).bind
      intro r
      split
      case isTrue => exact blind_pure _
      case isFalse =>
        apply (blind_netSendFileBestEffort _ _).bind
        intro r
        split
        case isTrue  => exact blind_reply _ _ _ _
        case isFalse => exact blind_serverSendResponse _ _ _

end Blind

section Uncut

variable {W : Type} {h : Handler Sys W}

theorem uncut_pure (a : α) : Uncut h (pure a) :=
  (blind_pure a).uncut

theorem uncut_serverHandleTextMessage (header : ProtocolHeader) : Uncut h (serverHandleTextMessage header) := by
  have hreceive : Uncut h (serverHandleTextMessage.receive header) := by
    rw [serverHandleTextMessage.receive]
    split
    case isTrue => exact uncut_pure _
    case isFalse =>
      apply (Blind.closed h).malloc.uncut.bind
      intro b
      split
      case isTrue => exact uncut_pure _
      case isFalse =>
        apply (Io.uncut_recvAll _).bind
        intro message
        split
        case h_1 => exact uncut_pure _
        case h_2 =>
          split
          case isTrue  => exact uncut_pure _
          case isFalse => exact (blind_appSubmitMessage _).uncut
  apply hreceive.bind
  intro r
  exact (blind_reply _ _ _ _).uncut

theorem uncut_serverHandleGetFile (opt : ServerOpt) (header : ProtocolHeader) :
    Uncut h (serverHandleGetFile opt header) := by
  rw [serverHandleGetFile]
  split
  case isTrue => exact (blind_reply _ _ _ _).uncut
  case isFalse =>
    apply (closed_protoRecvFileNameOnly (Uncut.closed h)).bind
    intro r
    split
    case h_1 => exact (blind_reply _ _ _ _).uncut
    case h_2 name =>
      split
      case isTrue => exact (blind_reply _ _ _ _).uncut
      case isFalse =>
        split
        case isTrue => exact (blind_reply _ _ _ _).uncut
        case isFalse =>
          apply (blind_appPrepareDownload _ _).uncut.bind
          intro r
          split
          case h_1 => exact (blind_reply _ _ _ _).uncut
          case h_2 download =>
            apply (blind_serverHandleGetFile_send name download).uncut.bind
            intro r
            exact ((blind_appDownloadCleanup download).bind fun _ => blind_pure _).uncut

theorem uncut_httpHandleMessagesPost (req : HttpRequest) : Uncut h (httpHandleMessagesPost req) := by
  have herror : ∀ status reason message, Uncut h (httpSendJsonError status reason message) :=
    fun _ _ _ => (blind_error _ _ _).uncut
  have hfail : ∀ status reason message, Uncut h (do
      discard <| httpSendJsonError status reason message
      return false) :=
    fun _ _ _ => ((blind_discard (blind_error _ _ _)).bind fun _ => blind_pure _).uncut
  rw [httpHandleMessagesPost]
  split
  case isTrue => exact herror _ _ _
  split
  case isTrue => exact herror _ _ _
  split
  case isTrue => exact herror _ _ _
  split
  case isTrue => exact herror _ _ _
  case isFalse =>
    apply (Blind.closed h).malloc.uncut.bind
    intro b
    split
    case isTrue => exact herror _ _ _
    case isFalse =>
      apply (Io.uncut_recvAll _).bind
      intro body
      split
      case h_1 => exact uncut_pure _
      case h_2 body =>
        split
        case isTrue => exact uncut_pure _
        case isFalse =>
          apply (closed_httpParseMessageJson (Blind.closed h) body).uncut.bind
          intro message
          split
          case h_1 => exact hfail _ _ _
          case h_2 message =>
            apply (blind_appSubmitMessage message).uncut.bind
            intro r
            split
            case isTrue  => exact hfail _ _ _
            case isFalse => exact (blind_response _ _ _ _).uncut

-- All handlers with a route of their own leave what they do not need.
theorem uncut_httpDispatchExactRoute (opt : ServerOpt) (req : HttpRequest) :
    Uncut h (httpDispatchExactRoute opt req) := by
  rw [httpDispatchExactRoute]
  split
  case h_1 => exact uncut_pure _
  case h_2 path method handler hf =>
    have hmem := List.mem_of_find?_eq_some hf
    have hh : Uncut h handler := by
      simp only [httpExactRoutes, List.mem_cons, Prod.mk.injEq, List.not_mem_nil, or_false] at hmem
      obtain ⟨-, -, rfl⟩ | ⟨-, -, rfl⟩ | ⟨-, -, rfl⟩ | ⟨-, -, rfl⟩ := hmem
      · exact (blind_httpHandleFilesList opt req).uncut
      · exact uncut_httpHandleMessagesPost req
      · exact blind_httpHandleMessagesLatestGet.uncut
      · exact blind_httpHandleMessagesStream.uncut
    split
    case isTrue  => exact (blind_error _ _ _).uncut.bind fun _ => uncut_pure _
    case isFalse => exact hh.bind fun _ => uncut_pure _

end Uncut

section Last

theorem Io.Last.then {m : Io α} {f : α → Io β} (hm : Last World.handle m) (hf : ∀ a, Blind World.handle (f a)) :
    Last World.handle (m >>= f) :=
  hm.bind fun a => (hf a).loose

theorem last_transferRecv {body : Nat → Io ProtocolResult} (hb : ∀ i, Last World.handle (body i))
    (baseDir name : CStr) (cap : Nat) : Last World.handle (transferRecv body baseDir name cap) := by
  have hfail : ∀ out isOpen r, Blind World.handle (do
      transferCleanup out isOpen
      return (.error r : Except ProtocolResult CStr)) :=
    fun out isOpen _ => (blind_transferCleanup out isOpen).bind fun _ => blind_pure _
  apply (blind_transferPrepareOutput _ _).uncut.bind
  intro r
  split
  case h_1 => exact (blind_pure _).uncut.last
  case h_2 out =>
    apply (hb out.ino).then
    intro r
    split
    case isTrue => exact hfail _ _ _
    case isFalse =>
      apply (blind_transferFinalizeOutput out cap).bind
      intro x
      dsimp only
      split
      case isTrue  => exact hfail _ _ _
      case isFalse => exact blind_pure _

theorem last_appReceiveFile (baseDir name : CStr) (size : UInt64) (kind : AppUploadKind) (cap : Nat) :
    Last World.handle (appReceiveFile baseDir name size kind cap) := by
  cases kind
  case protocol =>
    apply last_transferRecv
    intro i
    apply (Io.last_netRecvFileBestEffort i size).then
    intro r
    split <;> exact blind_pure _
  case http => exact last_transferRecv (fun i => Io.last_transferRecvSocketHttpFileBuffered i size) _ _ _

theorem last_serverHandleFileTransfer (opt : ServerOpt) (header : ProtocolHeader) :
    Last World.handle (serverHandleFileTransfer opt header) := by
  have hreply : ∀ phase status r a, Last World.handle (do
      discard <| serverSendResponse phase status r
      return (a : ProtocolResult)) :=
    fun _ _ _ _ => (blind_reply _ _ _ _).uncut.last
  rw [serverHandleFileTransfer]
  split
  case isTrue => exact hreply _ _ _ _
  case isFalse =>
    apply (closed_protoRecvFileTransferPrefix (Uncut.closed _)).bind
    intro r
    split
    case h_1 => exact (uncut_pure _).last
    case h_2 name size =>
      split
      case isTrue => exact hreply _ _ _ _
      case isFalse =>
        dsimp only
        split
        case isTrue => exact hreply _ _ _ _
        case isFalse =>
          apply (blind_serverSendResponse _ _ _).uncut.bind
          intro r
          split
          case isTrue => exact (uncut_pure _).last
          case isFalse =>
            apply (last_appReceiveFile _ _ _ _ _).then
            intro r
            split
            case h_1 => exact blind_reply _ _ _ _
            case h_2 => exact blind_serverSendResponse _ _ _

theorem last_handleProtocolConnection (opt : ServerOpt) : Last World.handle (handleProtocolConnection opt) := by
  apply (closed_recvHeader (Uncut.closed _)).bind
  intro r
  split
  case h_1 => exact (uncut_pure _).last
  case h_2 =>
    split
    case h_1 => exact (uncut_pure _).last
    case h_2 header _ =>
      split
      case isTrue => exact (uncut_serverHandleTextMessage header).last.then fun _ => blind_pure _
      case isFalse =>
        split
        case isTrue => exact (last_serverHandleFileTransfer opt header).then fun _ => blind_pure _
        case isFalse =>
          split
          case isTrue  => exact (uncut_serverHandleGetFile opt header).last.then fun _ => blind_pure _
          case isFalse => exact (uncut_pure _).last

theorem last_httpHandleFilePut (opt : ServerOpt) (req : HttpRequest) (path : CStr) :
    Last World.handle (httpHandleFilePut opt req path) := by
  have herror : ∀ status reason message, Last World.handle (httpSendJsonError status reason message) :=
    fun _ _ _ => (blind_error _ _ _).uncut.last
  -- What a discarded body leaves is not received any more.
  have hdiscard : ∀ n, Last World.handle (discard (httpDiscardBody n)) := by
    intro n e₁ e₂ w hr
    obtain ⟨as, ts, ds, rfl⟩ := hr.loose
    exact ⟨(), _, _, w, rfl, rfl, _, ts, ds, rfl⟩
  rw [httpHandleFilePut]
  split
  case isTrue => exact herror _ _ _
  split
  case isTrue => exact herror _ _ _
  split
  case isTrue => exact herror _ _ _
  split
  case isTrue => exact (hdiscard _).then fun _ => blind_error _ _ _
  split
  case isTrue => exact (hdiscard _).then fun _ => blind_error _ _ _
  case isFalse =>
    apply (last_appReceiveFile _ _ _ _ _).then
    intro r
    split
    case h_4 path =>
      apply (blind_fsStatPath path).bind
      intro info
      split
      case h_1 => exact blind_error _ _ _
      case h_2 =>
        split
        case isTrue  => exact blind_error _ _ _
        case isFalse => exact blind_response ..
    all_goals exact blind_error _ _ _

theorem last_httpDispatchFileRoute (opt : ServerOpt) (req : HttpRequest) :
    Last World.handle (httpDispatchFileRoute opt req) := by
  rw [httpDispatchFileRoute]
  split
  case isTrue => exact (uncut_pure _).last
  case isFalse =>
    split
    case h_1 => exact (blind_error _ _ _).uncut.last.then fun _ => blind_pure _
    case h_2 name _ =>
      split
      case isTrue => exact (blind_httpSendFile opt name).uncut.last.then fun _ => blind_pure _
      case isFalse =>
        split
        case isTrue  => exact (last_httpHandleFilePut opt req name).then fun _ => blind_pure _
        case isFalse => exact (blind_error _ _ _).uncut.last.then fun _ => blind_pure _

theorem last_httpDispatch (deps : HttpDeps) (opt : ServerOpt) (req : HttpRequest) :
    Last World.handle (httpDispatch deps opt req) := by
  rw [httpDispatch]
  split
  case h_1 => exact (blind_response _ _ _ _).uncut.last
  case h_2 =>
    apply (uncut_httpDispatchExactRoute opt req).bind
    intro r
    split
    case h_1 => exact (uncut_pure _).last
    case h_2 =>
      apply (last_httpDispatchFileRoute opt req).then
      intro r
      split
      case h_1 => exact blind_pure _
      case h_2 => exact blind_error _ _ _

end Last

theorem httpReadHeaderBlock.loop_byte {cap : Nat} {out got : Bytes} {as as' : List Arrival}
    (hc : ¬out.length + 1 ≥ cap) (h : Arrival.recv 1 as = (.ok got, as')) (hg : got ≠ []) :
    loop cap out as =
      if crlf ++ crlf <:+ out ++ got then (.ok (out ++ got), as') else loop cap (out ++ got) as' := by
  rw [loop, dif_neg hc, h]
  dsimp only
  rw [dif_neg hg]

-- A byte is taken from a stream that arrives in one piece in the same way.
theorem Arrival.recv_one_push {as as' : List Arrival} {got : Bytes} (h : recv 1 as = (.ok got, as')) (hg : got ≠ []) :
    recv 1 (push (bytes as) []) = (.ok got, push (bytes as') []) := by
  have hle := recv_ok_length_le h
  rw [recv_ok_bytes h]
  cases got
  case nil => exact absurd rfl hg
  case cons b got =>
    have hnil : got = [] := List.length_eq_zero_iff.mp (by rw [List.length_cons] at hle; omega)
    rw [hnil]
    rfl

-- A header that arrives without a failure is read from the stream alone.
theorem httpReadHeaderBlock.loop_cut {cap : Nat} {out : Bytes} {as : List Arrival} (ha : Arrival.OnlyInterrupted as)
    (hf : (loop cap out as).1 ≠ .failed) :
    (loop cap out as).1 = (loop cap out (Arrival.push (bytes as) [])).1 ∧
    bytes (loop cap out as).2 = bytes (loop cap out (Arrival.push (bytes as) [])).2 ∧
    Arrival.OnlyInterrupted (loop cap out as).2 := by
  have hrecv := Arrival.onlyInterrupted_recv 1 ha
  fun_induction loop cap out as
  case case1 out as hc =>
    rw [loop, dif_pos hc]
    exact ⟨rfl, by simp, ha⟩
  case case2 out as hc f as' h => exact absurd rfl hf
  case case3 out as hc as' h =>
    obtain ⟨rfl, rfl⟩ := Arrival.recv_ok_nil (by decide) h
    rw [Arrival.bytes_nil, Arrival.push, loop, dif_neg hc]
    exact ⟨rfl, rfl, ha⟩
  case case4 out as hc got as' h hg hs =>
    rw [h] at hrecv
    rw [loop_byte hc (Arrival.recv_one_push h hg) hg, if_pos hs]
    exact ⟨rfl, by simp, hrecv⟩
  case case5 out as hc got as' h hg hs hi =>
    rw [h] at hrecv
    rw [loop_byte hc (Arrival.recv_one_push h hg) hg, if_neg hs]
    exact hi hrecv hf (Arrival.onlyInterrupted_recv _ hrecv)

section Connection

variable {W : Type} {h : Handler Sys W}

-- The header of a request is not interrupted.
def Env.HeaderArrives (e : Env) : Prop :=
  (httpReadHeaderBlock.loop httpHeaderMax [] e.inp).1 ≠ .failed

theorem relates_httpReadHeaderBlock :
    Relates h (fun e₁ e₂ => e₁.Alike e₂ ∧ e₁.HeaderArrives ∧ e₂.HeaderArrives) (fun _ => Env.Alike)
      (httpReadHeaderBlock httpHeaderMax) := by
  rintro e₁ e₂ w ⟨hr, h₁, h₂⟩
  obtain ⟨as, ts, ds, rfl⟩ := hr.loose
  obtain ⟨hr₁, hb₁, ha₁⟩ := httpReadHeaderBlock.loop_cut hr.left.interrupted h₁
  obtain ⟨hr₂, hb₂, ha₂⟩ := httpReadHeaderBlock.loop_cut hr.right.interrupted h₂
  have hexec : ∀ e : Env, Io.exec h (httpReadHeaderBlock httpHeaderMax) e w =
      (((httpReadHeaderBlock.loop httpHeaderMax [] e.inp).1,
        { e with inp := (httpReadHeaderBlock.loop httpHeaderMax [] e.inp).2 }), w) := fun _ => rfl
  rw [hexec, hexec, hr₁, hr₂, ← hr.bytes]
  refine ⟨_, _, _, _, rfl, rfl, ⟨_, ts, ds, rfl⟩, ?_, ?_, ?_⟩
  case refine_1 =>
    rw [← hr.bytes] at hb₂
    exact hb₁.trans hb₂.symm
  case refine_2 => exact ⟨ha₁, hr.left.benign, hr.left.direct⟩
  case refine_3 => exact ⟨ha₂, hr.right.benign, hr.right.direct⟩

theorem relates_handleHttpConnection (deps : HttpDeps) (opt : ServerOpt) :
    Relates World.handle (fun e₁ e₂ => e₁.Alike e₂ ∧ e₁.HeaderArrives ∧ e₂.HeaderArrives) (fun _ => Env.Loose)
      (handleHttpConnection deps opt) := by
  apply relates_httpReadHeaderBlock.bind
  intro block
  split
  case h_1 => exact (uncut_pure _).last
  case h_2 => exact (uncut_pure _).last
  case h_3 => exact (blind_error _ _ _).uncut.last
  case h_4 =>
    split
    case h_1 => exact (blind_error _ _ _).uncut.last
    case h_2 => exact (blind_error _ _ _).uncut.last
    case h_3 req _ => exact last_httpDispatch deps opt req

end Connection

-- What the first `recv` finds.
def firstChunk : List Arrival → Bytes
  | .data b bs :: _ => b :: bs
  | _               => []

-- The kind of a connection that starts with these bytes.
def connKind : Bytes → ServerConnKind
  | b₀ :: b₁ :: _ =>
    if b₀ = (protocolMagic >>> 8).toUInt8 ∧ b₁ = protocolMagic.toUInt8 then .protocol
    else if 65 ≤ b₀ ∧ b₀ ≤ 90 then .http
    else .protocol
  | _             => .invalid

-- A way in which the stream `s` can arrive: in non-empty pieces, with interruptions only where they are
-- met by `recv_all` or by the loops that receive a file.
structure Cut (s : Bytes) (as : List Arrival) : Prop where
  bytes       : bytes as = s
  interrupted : Arrival.OnlyInterrupted as
  peek        : ∀ f as', as ≠ .fail f :: as'
  header      : connKind (firstChunk as) = .http → (httpReadHeaderBlock.loop httpHeaderMax [] as).1 ≠ .failed

-- The server does the same with two ways in which its connection's stream can arrive.
structure SameConnection (deps : HttpDeps) (opt : ServerOpt) (e : Env) (w : World) (as as' : List Arrival) : Prop where
  kind  : (Io.exec World.handle (serverConnectionThreadMain deps opt) { e with inp := as } w).1.1 =
    (Io.exec World.handle (serverConnectionThreadMain deps opt) { e with inp := as' } w).1.1
  out   : (Io.exec World.handle (serverConnectionThreadMain deps opt) { e with inp := as } w).1.2.out =
    (Io.exec World.handle (serverConnectionThreadMain deps opt) { e with inp := as' } w).1.2.out
  world : (Io.exec World.handle (serverConnectionThreadMain deps opt) { e with inp := as } w).2 =
    (Io.exec World.handle (serverConnectionThreadMain deps opt) { e with inp := as' } w).2

section

variable {W : Type} {h : Handler Sys W} {s bs : Bytes} {as as' : List Arrival} {e : Env} {w : World}

theorem connKind_eq_invalid_iff : connKind bs = .invalid ↔ bs.length < 2 := by
  rcases bs with _ | ⟨b₀, _ | ⟨b₁, bs⟩⟩
  case nil       => exact iff_of_true rfl (by simp)
  case cons.nil  => exact iff_of_true rfl (by simp)
  case cons.cons =>
    refine iff_of_false ?_ (by simp)
    rw [connKind]
    split
    · exact nofun
    · split <;> exact nofun

-- Two bytes are enough to tell.
theorem connKind_of_isPrefix (hp : bs <+: s) (hl : 2 ≤ bs.length) : connKind bs = connKind s := by
  obtain ⟨rest, rfl⟩ := hp
  rcases bs with _ | ⟨b₀, _ | ⟨b₁, bs⟩⟩
  case nil       => exact absurd hl (by simp)
  case cons.nil  => exact absurd hl (by simp)
  case cons.cons => rfl

theorem firstChunk_isPrefix (as : List Arrival) : firstChunk as <+: bytes as := by
  cases as
  case nil => exact List.nil_prefix
  case cons a as =>
    cases a
    case data b bs => exact List.prefix_append (b :: bs) _
    case fail      => exact List.nil_prefix

theorem exec_serverDetectConnectionKind {e : Env} {w : W} (hp : ∀ f as', e.inp ≠ .fail f :: as') :
    Io.exec h serverDetectConnectionKind e w = ((connKind (firstChunk e.inp), e), w) := by
  rw [Io.exec, StateT.run, serverDetectConnectionKind]
  cases hin : e.inp
  case nil => rfl
  case cons a as =>
    cases a
    case fail f => exact absurd hin (hp f as)
    case data b bs =>
      cases bs
      case nil => rfl
      case cons b₁ bs =>
        dsimp only [firstChunk, connKind, List.take_succ_cons]
        split
        · rfl
        · split <;> rfl

section Kind

-- What follows after the kind of a connection is known.

variable {deps : HttpDeps} {opt : ServerOpt} {e : Env} {w : W} (hp : ∀ f as', e.inp ≠ .fail f :: as')
include hp

theorem exec_invalid (hk : connKind (firstChunk e.inp) = .invalid) :
    Io.exec h (serverConnectionThreadMain deps opt) e w = ((.invalid, e), w) := by
  rw [serverConnectionThreadMain, Io.exec_bind, exec_serverDetectConnectionKind hp, hk]
  rfl

theorem exec_http (hk : connKind (firstChunk e.inp) = .http) :
    Io.exec h (serverConnectionThreadMain deps opt) e w =
      Io.exec h (do discard <| handleHttpConnection deps opt; return .http) e w := by
  rw [serverConnectionThreadMain, Io.exec_bind, exec_serverDetectConnectionKind hp, hk]

theorem exec_protocol (hk : connKind (firstChunk e.inp) = .protocol) :
    Io.exec h (serverConnectionThreadMain deps opt) e w =
      Io.exec h (do discard <| handleProtocolConnection opt; return .protocol) e w := by
  rw [serverConnectionThreadMain, Io.exec_bind, exec_serverDetectConnectionKind hp, hk]

theorem kind_serverConnectionThreadMain :
    (Io.exec h (serverConnectionThreadMain deps opt) e w).1.1 = connKind (firstChunk e.inp) := by
  cases hk : connKind (firstChunk e.inp)
  case invalid  => rw [exec_invalid hp hk]
  case http     => rw [exec_http hp hk, Io.exec_bind]; rfl
  case protocol => rw [exec_protocol hp hk, Io.exec_bind]; rfl

end Kind

-- A handler whose result does not matter.
theorem Io.Relates.kind {m : Io α} {R : Env → Env → Prop} {e₁ e₂ : Env} (hm : Relates h R (fun _ => Env.Loose) m)
    (kind : ServerConnKind) (w : W) (hr : R e₁ e₂) : ∃ e₁' e₂' w',
      Io.exec h (do discard m; return kind) e₁ w = ((kind, e₁'), w') ∧
      Io.exec h (do discard m; return kind) e₂ w = ((kind, e₂'), w') ∧ e₁'.Loose e₂' := by
  have hexec : ∀ e, Io.exec h (do discard m; return kind) e w =
      ((kind, (Io.exec h m e w).1.2), (Io.exec h m e w).2) := by
    intro e
    have hd : (discard m : Io Unit) = (m >>= fun _ => pure ()) := by
      simp only [Functor.discard, map_const, Function.comp, ← bind_pure_comp, Function.const]
    rw [hd, Io.exec_bind, Io.exec_bind]
    rfl
  obtain ⟨a, e₁', e₂', w', h₁, h₂, hl⟩ := hm e₁ e₂ w hr
  rw [hexec, hexec, h₁, h₂]
  exact ⟨e₁', e₂', w', rfl, rfl, hl⟩

theorem Env.Loose.out {e₁ e₂ : Env} (hl : e₁.Loose e₂) : e₁.out = e₂.out := by
  obtain ⟨_, _, _, rfl⟩ := hl
  rfl

-- The server does the same with all ways in which a stream can arrive in a first piece of at least two
-- bytes, and with all ways in which it can arrive in a first piece of fewer bytes, but not with one of
-- each kind.
theorem sameConnection_iff {deps : HttpDeps} {opt : ServerOpt} (h₁ : Cut s as) (h₂ : Cut s as')
    (hw : ∀ t ∈ e.wr, t.Benign) (hd : e.direct = []) : SameConnection deps opt e w as as' ↔
      (2 ≤ (firstChunk as).length ↔ 2 ≤ (firstChunk as').length) := by
  have hshort : ∀ {as}, Cut s as → (2 ≤ (firstChunk as).length ↔ connKind (firstChunk as) ≠ .invalid) := by
    intro as _
    rw [ne_eq, connKind_eq_invalid_iff, not_lt]
  constructor
  case mp =>
    intro hsame
    have hkind := hsame.kind
    rw [kind_serverConnectionThreadMain h₁.peek, kind_serverConnectionThreadMain h₂.peek] at hkind
    rw [hshort h₁, hshort h₂]
    dsimp only at hkind
    rw [hkind]
  case mpr =>
    intro hlen
    have hkind : connKind (firstChunk as) = connKind (firstChunk as') := by
      by_cases hl : 2 ≤ (firstChunk as).length
      case pos =>
        have hp₁ := h₁.bytes ▸ firstChunk_isPrefix as
        have hp₂ := h₂.bytes ▸ firstChunk_isPrefix as'
        rw [connKind_of_isPrefix hp₁ hl, connKind_of_isPrefix hp₂ (hlen.mp hl)]
      case neg =>
        rw [connKind_eq_invalid_iff.mpr (not_le.mp hl),
          connKind_eq_invalid_iff.mpr (not_le.mp fun h => hl (hlen.mpr h))]
    have halike : Env.Alike { e with inp := as } { e with inp := as' } := by
      constructor
      case loose => exact ⟨as', e.wr, e.direct, rfl⟩
      case bytes => exact h₁.bytes.trans h₂.bytes.symm
      case left  => exact ⟨h₁.interrupted, hw, hd⟩
      case right => exact ⟨h₂.interrupted, hw, hd⟩
    suffices hrun : ∃ e₁ e₂ w',
        Io.exec World.handle (serverConnectionThreadMain deps opt) { e with inp := as } w =
          ((connKind (firstChunk as), e₁), w') ∧
        Io.exec World.handle (serverConnectionThreadMain deps opt) { e with inp := as' } w =
          ((connKind (firstChunk as), e₂), w') ∧ e₁.Loose e₂ by
      obtain ⟨e₁, e₂, w', hr₁, hr₂, hl⟩ := hrun
      exact ⟨by rw [hr₁, hr₂], by rw [hr₁, hr₂]; exact hl.out, by rw [hr₁, hr₂]⟩
    cases hk : connKind (firstChunk as)
    case invalid =>
      rw [exec_invalid h₁.peek hk, exec_invalid h₂.peek (hkind ▸ hk)]
      exact ⟨_, _, w, rfl, rfl, halike.loose⟩
    case http =>
      have hheader : Env.HeaderArrives { e with inp := as } ∧ Env.HeaderArrives { e with inp := as' } :=
        ⟨h₁.header hk, h₂.header (hkind ▸ hk)⟩
      rw [exec_http h₁.peek hk, exec_http h₂.peek (hkind ▸ hk)]
      exact (relates_handleHttpConnection deps opt).kind .http w ⟨halike, hheader⟩
    case protocol =>
      rw [exec_protocol h₁.peek hk, exec_protocol h₂.peek (hkind ▸ hk)]
      exact (last_handleProtocolConnection opt).kind .protocol w halike

end

-- A message `x` over the native protocol, in one piece and with its first byte on its own.
def messageStream : Bytes :=
  encodeHeader { initHeader with msgType := msgTypeTextMessage, payloadSize := 1 } ++ [120]

def wholeMessage : List Arrival :=
  Arrival.push messageStream []

def splitMessage : List Arrival :=
  Arrival.push (messageStream.take 1) (Arrival.push (messageStream.drop 1) [])

def anyDeps : HttpDeps where
  phrParseRequest _ := none
  webuiAssets       := []

theorem cut_wholeMessage : Cut messageStream wholeMessage where
  bytes       := by decide
  interrupted := by
    have h : ∀ a ∈ wholeMessage, ∃ b bs, a = .data b bs := by
      simp [wholeMessage, messageStream, encodeHeader, encodeU16Be, Arrival.push]
    intro f hf
    obtain ⟨_, _, ha⟩ := h _ hf
    cases ha
  peek _ _    := nofun
  header h    := by
    have hk : connKind (firstChunk wholeMessage) = .protocol := by decide
    rw [hk] at h
    cases h

theorem cut_splitMessage : Cut messageStream splitMessage where
  bytes       := by decide
  interrupted := by
    have h : ∀ a ∈ splitMessage, ∃ b bs, a = .data b bs := by
      simp [splitMessage, messageStream, encodeHeader, encodeU16Be, Arrival.push]
    intro f hf
    obtain ⟨_, _, ha⟩ := h _ hf
    cases ha
  peek _ _    := nofun
  header h    := by
    have hk : connKind (firstChunk splitMessage) = .invalid := by decide
    rw [hk] at h
    cases h

theorem sameConnection_iff_message :
    SameConnection anyDeps ⟨.lit "r", 0⟩ (.calm 1 []) World.empty wholeMessage splitMessage ↔
      (2 ≤ (firstChunk wholeMessage).length ↔ 2 ≤ (firstChunk splitMessage).length) :=
  sameConnection_iff cut_wholeMessage cut_splitMessage (List.forall_mem_nil _) rfl

-- The message is only stored if its first byte does not arrive alone.
theorem first_byte_alone :
    Cut messageStream wholeMessage ∧ Cut messageStream splitMessage ∧
    ¬SameConnection anyDeps ⟨.lit "r", 0⟩ (.calm 1 []) World.empty wholeMessage splitMessage ∧
    (Io.exec World.handle (serverConnectionThreadMain anyDeps ⟨.lit "r", 0⟩) (.calm 1 wholeMessage)
      World.empty).2.board.message = some (.lit "x") ∧
    (Io.exec World.handle (serverConnectionThreadMain anyDeps ⟨.lit "r", 0⟩) (.calm 1 splitMessage)
      World.empty).2.board.message = none := by
  refine ⟨cut_wholeMessage, cut_splitMessage, ?_, by decide +kernel, by decide +kernel⟩
  intro hs
  have hk := hs.kind
  rw [kind_serverConnectionThreadMain cut_wholeMessage.peek, kind_serverConnectionThreadMain cut_splitMessage.peek] at hk
  exact absurd hk (by decide)
