import HFile.Library.Effects
import HFile.Theorems.HttpReplies
import HFile.Theorems.Touches

open Arrival (delivered prompt)

-- The calls that change files or the message store.
def SysOp.Changes : SysOp → Prop
  | .openExcl .. | .write .. | .pwrite .. | .rename .. | .remove .. | .setMessage .. => True
  | _ => False

theorem World.handle_of_not_changes (o : SysOp) (w : World) (h : ¬o.Changes) : (World.handle o w).2 = w := by
  cases o
  case openRead | fstat | pread | close | lstat | opendir =>
    simp only [World.handle]
    repeat' split
    all_goals rfl
  case getMessage | waitMessage => rfl
  all_goals exact absurd trivial h

-- `m` changes nothing unless that is permitted, whatever it receives and whatever the answers to its calls
-- are.
structure Io.Unchanging (permitted : Prop) (m : Io α) : Prop where
  calls : ∀ e, Program.Calls (S := Sys) (fun _ _ => True) (fun o => o.Changes → permitted) (fun _ => True) (m.run e)

section

variable {P : Prop}

namespace Io

-- A permission makes it unnecessary to look at the calls.
theorem Unchanging.of_permitted (hp : P) (m : Io α) : m.Unchanging P :=
  ⟨fun _ => .of_forall fun _ _ => hp⟩

theorem Unchanging.then {m : Io α} {f : α → Io β} (hm : m.Unchanging P) (hf : ∀ a, (f a).Unchanging P) :
    (m >>= f).Unchanging P := by
  constructor
  intro e
  rw [StateT.run_bind, Program.Calls.bind_iff]
  exact (hm.calls e).mono fun x _ => (hf x.1).calls x.2

theorem unchanging_pure (a : α) : (pure a : Io α).Unchanging P :=
  ⟨fun _ => trivial⟩

theorem unchanging_sys {o : SysOp} (ho : ¬o.Changes) : (sys o).Unchanging P :=
  ⟨fun _ => ⟨fun h => absurd h ho, fun _ _ => trivial⟩⟩

theorem unchanging_fault : fault.Unchanging P :=
  ⟨fun _ => trivial⟩

theorem unchanging_closed : ClosedRecv (Unchanging P) where
  pure      := unchanging_pure
  bind      := Unchanging.then
  malloc    := ⟨fun _ => trivial⟩
  send _    := ⟨fun _ => trivial⟩
  recv _    := ⟨fun _ => trivial⟩

end Io

open Io (Unchanging unchanging_pure unchanging_sys unchanging_fault unchanging_closed)

theorem unchanging_discard_fsClose (fd : Entry) : (Functor.discard (fsClose fd)).Unchanging P :=
  unchanging_closed.discard (unchanging_fault.then fun _ => unchanging_sys id)

theorem unchanging_fsStatPath (p : CStr) : (fsStatPath p).Unchanging P :=
  unchanging_fault.then fun _ => unchanging_sys id

-- Downloads.

theorem idle_netSendFileAll_loop (fd : Entry) (ts : List Transfer) (offset remaining : Nat) :
    (netSendFileAll.loop fd ts offset remaining).Calls (fun _ _ => True) (fun o : SysOp => o.Changes → P) (fun _ => True) := by
  fun_induction netSendFileAll.loop fd ts offset remaining
  case case3 hi => exact hi
  case case5 hi =>
    refine Program.Calls.perform_bind_iff.mpr ⟨False.elim, fun got _ => ?_⟩
    split
    case isTrue => trivial
    case isFalse hg => exact Program.Calls.bind_iff.mpr ((hi got hg).mono fun _ _ => trivial)
  all_goals trivial

theorem idle_netSendFileBuffered_loop (fd : Entry) (ts snd : List Transfer) (offset remaining : Nat) :
    (netSendFileBuffered.loop fd ts snd offset remaining).Calls (fun _ _ => True) (fun o : SysOp => o.Changes → P)
      (fun _ => True) := by
  fun_induction netSendFileBuffered.loop fd ts snd offset remaining
  case case3 hi =>
    refine Program.Calls.perform_bind_iff.mpr ⟨False.elim, fun got _ => ?_⟩
    split
    case isTrue => trivial
    case isFalse hg =>
      dsimp only
      split
      case isTrue  => trivial
      case isFalse => exact Program.Calls.bind_iff.mpr ((hi got hg _).mono fun _ _ => trivial)
  all_goals trivial

theorem unchanging_netSendFileBestEffort (fd : Entry) (size : UInt64) :
    (netSendFileBestEffort fd size).Unchanging P := by
  have hall : (netSendFileAll fd size).Unchanging P :=
    ⟨fun _ => Program.Calls.bind_iff.mpr ((idle_netSendFileAll_loop ..).mono fun _ _ => trivial)⟩
  apply hall.then
  intro r
  split
  case isTrue => exact unchanging_pure _
  case isFalse =>
    rw [netSendFileBuffered]
    split
    case isTrue => exact unchanging_pure _
    case isFalse =>
      apply unchanging_closed.malloc.then
      intro b
      split
      case isTrue => exact unchanging_pure _
      case isFalse =>
        exact ⟨fun _ => Program.Calls.bind_iff.mpr ((idle_netSendFileBuffered_loop ..).mono fun _ _ => trivial)⟩

theorem unchanging_appPrepareDownload (baseDir file : CStr) : (appPrepareDownload baseDir file).Unchanging P := by
  rw [appPrepareDownload]
  split
  case h_1 => exact unchanging_pure _
  case h_2 =>
    apply unchanging_fault.then
    intro f
    apply (unchanging_sys id).then
    intro r
    split
    case h_1 => exact unchanging_pure _
    case h_2 fd =>
      apply unchanging_fault.then
      intro f
      apply (unchanging_sys id).then
      intro info
      have hclose : ∀ r : ProtocolResult, Io.Unchanging P (do
          discard <| fsClose fd
          return (.error r : Except ProtocolResult AppDownload)) :=
        fun r => (unchanging_discard_fsClose fd).then fun _ => unchanging_pure _
      split
      case h_1 => exact hclose _
      case h_2 =>
        split
        case isTrue  => exact hclose _
        case isFalse => exact unchanging_pure _

theorem unchanging_download (baseDir file : CStr) {f : AppDownload → Io α} {g : ProtocolResult → Io α}
    (hf : ∀ download, (f download).Unchanging P) (hg : ∀ r, (g r).Unchanging P) :
    Io.Unchanging P (do
      match ← appPrepareDownload baseDir file with
      | .error r     => g r
      | .ok download =>
        let result ← f download
        appDownloadCleanup download
        return result) := by
  apply (unchanging_appPrepareDownload baseDir file).then
  intro r
  split
  case h_1 r => exact hg r
  case h_2 download =>
    apply (hf download).then
    intro result
    exact Unchanging.then (unchanging_discard_fsClose _) fun _ => unchanging_pure _

variable {opt : ServerOpt}

theorem unchanging_reply (phase status : UInt8) (r : ProtocolResult) (a : α) :
    Io.Unchanging P (do
      discard <| serverSendResponse phase status r
      return a) :=
  (unchanging_closed.discard (closed_serverSendResponse unchanging_closed.toClosed _ _ _)).then fun _ =>
    unchanging_pure _

theorem unchanging_serverHandleGetFile (header : ProtocolHeader) : (serverHandleGetFile opt header).Unchanging P := by
  have hsend : ∀ name download, (serverHandleGetFile.send name download).Unchanging P := by
    intro name download
    rw [serverHandleGetFile.send]
    split
    case h_1 => exact unchanging_pure _
    case h_2 =>
      split
      case h_1 => exact unchanging_reply _ _ _ _
      case h_2 =>
        apply (closed_protoSendPayload unchanging_closed.toClosed _).then
        intro r
        split
        case isTrue => exact unchanging_pure _
        case isFalse =>
          apply (unchanging_netSendFileBestEffort _ _).then
          intro r
          split
          case isTrue  => exact unchanging_reply _ _ _ _
          case isFalse => exact closed_serverSendResponse unchanging_closed.toClosed _ _ _
  rw [serverHandleGetFile]
  split
  case isTrue => exact unchanging_reply _ _ _ _
  case isFalse =>
    apply (closed_protoRecvFileNameOnly unchanging_closed).then
    intro r
    split
    case h_1 => exact unchanging_reply _ _ _ _
    case h_2 name =>
      split
      case isTrue => exact unchanging_reply _ _ _ _
      case isFalse =>
        split
        case isTrue  => exact unchanging_reply _ _ _ _
        case isFalse => exact unchanging_download _ _ (hsend name) fun r => unchanging_reply _ _ _ _

theorem unchanging_error (status : Nat) (reason message : CStr) :
    (httpSendJsonError status reason message).Unchanging P :=
  closed_httpSendJsonError (M := Unchanging P) unchanging_closed.toClosed status reason message

theorem unchanging_response (status : Nat) (reason contentType : CStr) (body : Bytes) :
    (httpSendResponse status reason contentType body).Unchanging P :=
  closed_httpSendResponse (M := Unchanging P) unchanging_closed.toClosed status reason contentType body

theorem unchanging_httpSendAll (bs : Bytes) : (httpSendAll bs).Unchanging P :=
  closed_httpSendAll (M := Unchanging P) unchanging_closed.toClosed bs

theorem unchanging_httpSendFile (path : CStr) : (httpSendFile opt path).Unchanging P := by
  have hsend : ∀ download : AppDownload, (httpSendFile.send path download).Unchanging P := by
    intro download
    rw [httpSendFile.send]
    split
    case isTrue => exact unchanging_pure _
    case isFalse =>
      apply (unchanging_httpSendAll _).then
      intro sent
      split
      case isTrue  => exact unchanging_pure _
      case isFalse => exact (unchanging_netSendFileBestEffort _ _).then fun _ => unchanging_pure _
  rw [httpSendFile]
  split
  case isTrue  => exact unchanging_error _ _ _
  case isFalse => exact unchanging_download _ _ hsend fun _ => unchanging_error _ _ _

-- Lists of files.

theorem unchanging_httpListFiles (dir relativeDir : CStr) : (httpListFiles dir relativeDir).Unchanging P := by
  have hentries : ∀ names, (httpListFiles.entries dir relativeDir names).Unchanging P := by
    intro names
    induction names
    case nil => exact unchanging_pure _
    case cons name names hi =>
      rw [httpListFiles.entries]
      split
      case isTrue => exact hi
      case isFalse =>
        split
        case h_1 => exact unchanging_pure _
        case h_2 =>
          split
          case h_1 => exact unchanging_pure _
          case h_2 =>
            apply (unchanging_fsStatPath _).then
            intro info
            split
            case h_1 => exact hi
            case h_2 => exact hi.then fun _ => unchanging_pure _
  apply unchanging_fault.then
  intro f
  apply (unchanging_sys id).then
  intro names
  split
  case h_1 => exact unchanging_pure _
  case h_2 => exact (hentries _).then fun _ => unchanging_pure _

theorem unchanging_httpHandleFilesList (req : HttpRequest) : (httpHandleFilesList opt req).Unchanging P := by
  have hisDir : ∀ dirPath relativeDir info, (httpHandleFilesList.isDir dirPath relativeDir info).Unchanging P := by
    intro dirPath relativeDir info
    rw [httpHandleFilesList.isDir]
    split
    case isTrue => exact unchanging_pure _
    case isFalse =>
      split
      case isTrue =>
        apply unchanging_fault.then
        intro f
        exact (unchanging_sys id).then fun _ => unchanging_pure _
      case isFalse => exact unchanging_pure _
  rw [httpHandleFilesList]
  split
  case h_1 => exact unchanging_error _ _ _
  case h_2 =>
    split
    case h_1 => exact unchanging_error _ _ _
    case h_2 =>
      apply (unchanging_fsStatPath _).then
      intro info
      split
      case h_1 => exact unchanging_error _ _ _
      case h_2 =>
        apply (hisDir _ _ _).then
        intro b
        split
        case isTrue => exact unchanging_error _ _ _
        case isFalse =>
          apply Unchanging.then ((unchanging_httpListFiles _ _).then fun _ => unchanging_pure _)
          intro body
          split
          case h_1 => exact unchanging_error _ _ _
          case h_2 => exact unchanging_response _ _ _ _

-- Messages that are read.

theorem unchanging_messageStoreGetSnapshot : messageStoreGetSnapshot.Unchanging P := by
  apply (unchanging_sys id).then
  intro x
  dsimp only
  split
  case isTrue =>
    apply unchanging_closed.malloc.then
    intro b
    split <;> exact unchanging_pure _
  case isFalse => exact unchanging_pure _

theorem unchanging_messageStoreWaitForUpdate (version : Nat) :
    (messageStoreWaitForUpdate version).Unchanging P := by
  apply (unchanging_sys id).then
  intro x
  dsimp only
  split
  case isTrue =>
    apply unchanging_closed.malloc.then
    intro b
    split <;> exact unchanging_pure _
  case isFalse => exact unchanging_pure _

theorem unchanging_httpHandleMessagesLatestGet : httpHandleMessagesLatestGet.Unchanging P := by
  have hcopy : messageStoreGetCopy.Unchanging P := by
    apply unchanging_messageStoreGetSnapshot.then
    intro r
    split <;> exact unchanging_pure _
  apply hcopy.then
  intro r
  split
  case h_1 => exact unchanging_error _ _ _
  case h_2 => exact unchanging_response _ _ _ _

theorem unchanging_httpHandleMessagesStream : httpHandleMessagesStream.Unchanging P := by
  have hsend : ∀ bs (k : Io Bool), k.Unchanging P → Io.Unchanging P (do
      if !(← httpSendAll bs) then return false
      k) := by
    intro bs k hk
    apply (unchanging_httpSendAll _).then
    intro sent
    split
    case isTrue  => exact unchanging_pure _
    case isFalse => exact hk
  have hloop : ∀ version rounds, (httpHandleMessagesStream.loop version rounds).Unchanging P := by
    intro version rounds
    induction rounds generalizing version
    case zero =>
      apply (unchanging_messageStoreWaitForUpdate _).then
      intro r
      split <;> exact unchanging_pure _
    case succ rounds hi =>
      apply (unchanging_messageStoreWaitForUpdate _).then
      intro r
      split
      case h_1 => exact unchanging_pure _
      case h_2 => exact hsend _ _ (hi _)
      case h_3 => exact hsend _ _ (hi _)
  have hrounds : ∀ version, Io.Unchanging P (do httpHandleMessagesStream.loop version (← Io.rounds)) := by
    intro version
    have hr : Io.rounds.Unchanging P := ⟨fun _ => trivial⟩
    exact hr.then fun n => hloop version n
  apply hsend
  apply unchanging_messageStoreGetSnapshot.then
  intro r
  split
  case h_1 => exact unchanging_pure _
  case h_2 => exact hrounds _
  case h_3 => exact hsend _ _ (hrounds _)

end

-- The bytes of a connection ask for a change: they begin with a request to store a file or a message, in
-- one protocol or the other.
inductive AsksForChange (deps : HttpDeps) (inp : List Arrival) : Prop
  | put {req : HttpRequest} {rest : Bytes} :
    Requested deps inp req rest → req.method = .lit "PUT" → ascii "/api/files/" <+: req.path.chars →
    AsksForChange deps inp
  | post {req : HttpRequest} {rest : Bytes} :
    Requested deps inp req rest → req.method = .lit "POST" → req.path = .lit "/api/messages" →
    AsksForChange deps inp
  | native {buf : Bytes} {header : ProtocolHeader} :
    buf.length = headerSize → buf <+: delivered inp → decodeHeader buf = .ok header →
    header.msgType = msgTypeTextMessage ∨ header.msgType = msgTypeSendFile → AsksForChange deps inp

section

open Io (Unchanging unchanging_pure)

variable {P : Prop} {deps : HttpDeps} {opt : ServerOpt}

theorem unchanging_httpDispatch {req : HttpRequest}
    (hput : req.method = .lit "PUT" → ascii "/api/files/" <+: req.path.chars → P)
    (hpost : req.method = .lit "POST" → req.path = .lit "/api/messages" → P) :
    (httpDispatch deps opt req).Unchanging P := by
  have hnot : httpMethodNotAllowed.Unchanging P := unchanging_error _ _ _
  have hfile : (httpDispatchFileRoute opt req).Unchanging P := by
    rw [httpDispatchFileRoute]
    split
    case isTrue => exact unchanging_pure _
    case isFalse hp =>
      split
      case h_1 => exact (unchanging_error _ _ _).then fun _ => unchanging_pure _
      case h_2 =>
        split
        case isTrue => exact (unchanging_httpSendFile _).then fun _ => unchanging_pure _
        case isFalse =>
          split
          case isTrue hm =>
            exact (Unchanging.of_permitted (hput hm (not_not.mp hp)) _).then fun _ => unchanging_pure _
          case isFalse => exact hnot.then fun _ => unchanging_pure _
  have hexact : (httpDispatchExactRoute opt req).Unchanging P := by
    rw [httpDispatchExactRoute]
    split
    case h_1 => exact unchanging_pure _
    case h_2 path method handler hfind =>
      have hmem := List.mem_of_find?_eq_some hfind
      have hpath : req.path = path := by simpa using List.find?_some hfind
      subst hpath
      split
      case isTrue => exact hnot.then fun _ => unchanging_pure _
      case isFalse hm =>
        have hm : req.method = method := not_not.mp hm
        simp only [httpExactRoutes, List.mem_cons, List.not_mem_nil, or_false, Prod.mk.injEq] at hmem
        rcases hmem with ⟨_, rfl, rfl⟩ | ⟨hpath, rfl, rfl⟩ | ⟨_, rfl, rfl⟩ | ⟨_, rfl, rfl⟩
        case inl         => exact (unchanging_httpHandleFilesList req).then fun _ => unchanging_pure _
        case inr.inl     => exact (Unchanging.of_permitted (hpost hm hpath) _).then fun _ => unchanging_pure _
        case inr.inr.inl => exact unchanging_httpHandleMessagesLatestGet.then fun _ => unchanging_pure _
        case inr.inr.inr => exact unchanging_httpHandleMessagesStream.then fun _ => unchanging_pure _
  rw [httpDispatch]
  split
  case h_1 => exact unchanging_response _ _ _ _
  case h_2 =>
    apply hexact.then
    intro r
    split
    case h_1 => exact unchanging_pure _
    case h_2 =>
      apply hfile.then
      intro r
      split
      case h_1 => exact unchanging_pure _
      case h_2 => exact unchanging_error _ _ _

-- A program that only changes something if the bytes that arrive in `e` ask for it.
structure ChangesOnRequest (deps : HttpDeps) (inp : List Arrival) (p : Program Sys α) : Prop where
  calls : p.Calls (fun _ _ => True) (fun o : SysOp => o.Changes → AsksForChange deps inp) (fun _ => True)

variable {e : Env} {inp : List Arrival}

theorem Io.Unchanging.onRequest {m : Io α} (h : m.Unchanging (AsksForChange deps inp)) :
    ChangesOnRequest deps inp (m.run e) :=
  ⟨h.calls e⟩

-- What has been read decides about the rest.
theorem ChangesOnRequest.of_run {m : Io α} {f : α → Io β} {a : α} {e' : Env} (h : m.run e = pure (a, e'))
    (hf : ChangesOnRequest deps inp ((f a).run e')) : ChangesOnRequest deps inp ((m >>= f).run e) := by
  rw [StateT.run_bind, h, pure_bind]
  exact hf

theorem changesOnRequest_handleProtocolConnection (deps : HttpDeps) (opt : ServerOpt) (e : Env) :
    ChangesOnRequest deps e.inp ((handleProtocolConnection opt).run e) := by
  rw [handleProtocolConnection]
  rcases recvAll.loop_spec headerSize e.inp with ⟨buf, as, he, hl, _, hd⟩ | ⟨r, as, _, he, _, hr, _⟩
  case inl =>
    have hrecv : recvHeader.run e = pure (.ok buf, { e with inp := as }) := by
      have hall : (recvAll headerSize).run e = pure (some buf, { e with inp := as }) := by
        rw [StateT.run, recvAll, he]
      rw [recvHeader, StateT.run_bind, hall, pure_bind]
      simp [hl]
    apply ChangesOnRequest.of_run hrecv
    dsimp only
    split
    case h_1 => exact ⟨trivial⟩
    case h_2 header hdecode =>
      have hasks : header.msgType = msgTypeTextMessage ∨ header.msgType = msgTypeSendFile →
          AsksForChange deps e.inp :=
        .native hl (hd ▸ List.prefix_append _ _) hdecode
      split
      case isTrue ht =>
        exact ((Unchanging.of_permitted (hasks (.inl ht)) _).then fun _ => unchanging_pure _).onRequest
      case isFalse =>
        split
        case isTrue ht =>
          exact ((Unchanging.of_permitted (hasks (.inr ht)) _).then fun _ => unchanging_pure _).onRequest
        case isFalse =>
          split
          case isTrue => exact ((unchanging_serverHandleGetFile header).then fun _ => unchanging_pure _).onRequest
          case isFalse => exact ⟨trivial⟩
  case inr =>
    have hrecv : ∃ r, recvHeader.run e = pure (.error r, { e with inp := as }) := by
      have hall : (recvAll headerSize).run e = pure (r, { e with inp := as }) := by
        rw [StateT.run, recvAll, he]
      rw [recvHeader, StateT.run_bind, hall, pure_bind]
      cases r
      case none => exact ⟨_, rfl⟩
      case some buf => exact ⟨.errEof, by simp [hr buf rfl]⟩
    obtain ⟨r, hrecv⟩ := hrecv
    exact ChangesOnRequest.of_run hrecv ⟨trivial⟩

theorem changesOnRequest_handleHttpConnection (deps : HttpDeps) (opt : ServerOpt) (e : Env) :
    ChangesOnRequest deps e.inp ((handleHttpConnection deps opt).run e) := by
  rw [handleHttpConnection]
  cases hr : httpReadHeaderBlock.loop httpHeaderMax [] e.inp
  case mk r as =>
    have hread : (httpReadHeaderBlock httpHeaderMax).run e = pure (r, { e with inp := as }) := by
      rw [StateT.run, httpReadHeaderBlock, hr]
    apply ChangesOnRequest.of_run hread
    cases r
    case failed => exact ⟨trivial⟩
    case eof => exact ⟨trivial⟩
    case tooLarge => exact (unchanging_error _ _ _).onRequest
    case ok block =>
      obtain ⟨hblock, got, hgot, hp, hd⟩ := httpReadHeaderBlock.loop_ok crlf_notSuffix_nil hr
      rw [List.nil_append] at hgot
      subst hgot
      dsimp only
      split
      case h_1 => exact (unchanging_error _ _ _).onRequest
      case h_2 => exact (unchanging_error _ _ _).onRequest
      case h_3 req hparse =>
        have hreq : Requested deps e.inp req (delivered as) :=
          ⟨block, hblock, hp ▸ List.prefix_append _ _, hd, hparse⟩
        exact (unchanging_httpDispatch (.put hreq) (.post hreq)).onRequest

theorem changesOnRequest_serverConnectionThreadMain (deps : HttpDeps) (opt : ServerOpt) (e : Env) :
    ChangesOnRequest deps e.inp ((serverConnectionThreadMain deps opt).run e) := by
  have hdiscard : ∀ {α : Type} {m : Io α} {kind : ServerConnKind}, ChangesOnRequest deps e.inp (m.run e) →
      ChangesOnRequest deps e.inp (StateT.run (do discard m; return kind) e) := by
    intro α m kind hm
    constructor
    simp only [Functor.discard, map_const, Function.comp, StateT.run_bind, Program.Calls.bind_iff, map_eq_pure_bind]
    exact hm.calls.mono fun _ _ => trivial
  rw [serverConnectionThreadMain]
  rcases serverDetectConnectionKind_run e with h | h | ⟨as, h⟩
  · exact ChangesOnRequest.of_run h (hdiscard (changesOnRequest_handleHttpConnection deps opt e))
  · exact ChangesOnRequest.of_run h (hdiscard (changesOnRequest_handleProtocolConnection deps opt e))
  · exact ChangesOnRequest.of_run h ⟨trivial⟩

end

section

variable {ι : Type} [DecidableEq ι]

-- The connections of a server, when their threads take turns as given by a schedule.
def connectionRun (deps : HttpDeps) (opt : ServerOpt) (envs : ι → Env) (w : World) (sched : List ι) :
    Pool Sys World ι (ServerConnKind × Env) :=
  (Pool.start w fun i => (serverConnectionThreadMain deps opt).run (envs i)).run World.handle sched

-- In every run, who changes files or the message store has been asked to, and nothing has changed if none
-- of those who have had a turn has been asked to.
theorem changed_on_request (deps : HttpDeps) (opt : ServerOpt) (envs : ι → Env) (w : World) (sched : List ι) :
    (∀ x ∈ (connectionRun deps opt envs w sched).log, x.2.1.Changes → AsksForChange deps (envs x.1).inp) ∧
    ((∀ i ∈ sched, ¬AsksForChange deps (envs i).inp) → (connectionRun deps opt envs w sched).world = w) := by
  have hstart : (Pool.start w fun i => (serverConnectionThreadMain deps opt).run (envs i)).Within
      (fun i (o : SysOp) => o.Changes → AsksForChange deps (envs i).inp) :=
    ⟨fun i => (changesOnRequest_serverConnectionThreadMain deps opt (envs i)).calls, fun _ hx => absurd hx List.not_mem_nil⟩
  have hlog := (hstart.run (h := World.handle) sched).log
  refine ⟨hlog, fun hnone => ?_⟩
  apply Pool.world_of_log World.handle_of_not_changes
  intro x hx hchanges
  cases Pool.mem_of_log_run hx
  case inl hx => exact absurd hx List.not_mem_nil
  case inr hi => exact hnone x.1 hi (hlog x hx hchanges)

end
