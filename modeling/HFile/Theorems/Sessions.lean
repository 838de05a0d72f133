import HFile.Theorems.Client
import HFile.Theorems.Sizes
import HFile.Theorems.Server

open Program (Handler)
open Arrival (bytes delivered)

-- A client and a server that are connected to each other. Each of them receives, in whatever pieces,
-- a part from the start of what the other one sends in the course of its run: this is all that a pair
-- of ordered streams that can be cut anywhere promises, whichever way the two processes take turns.
structure Session (hc : Handler Sys Wc) (hs : Handler Sys Ws) (client : Io α) (server : Io β) where
  clientEnv   : Env
  serverEnv   : Env
  clientStart : Wc
  serverStart : Ws
  clientOut   : clientEnv.out = []
  serverOut   : serverEnv.out = []
  toServer    : bytes serverEnv.inp <+: (Io.exec hc client clientEnv clientStart).1.2.out
  toClient    : bytes clientEnv.inp <+: (Io.exec hs server serverEnv serverStart).1.2.out

namespace Session

variable {hc : Handler Sys Wc} {hs : Handler Sys Ws} {client : Io α} {server : Io β}

def result (s : Session hc hs client server) : α :=
  (Io.exec hc client s.clientEnv s.clientStart).1.1

def clientSent (s : Session hc hs client server) : Bytes :=
  (Io.exec hc client s.clientEnv s.clientStart).1.2.out

def clientEnd (s : Session hc hs client server) : Wc :=
  (Io.exec hc client s.clientEnv s.clientStart).2

def serverSent (s : Session hc hs client server) : Bytes :=
  (Io.exec hs server s.serverEnv s.serverStart).1.2.out

def serverEnd (s : Session hc hs client server) : Ws :=
  (Io.exec hs server s.serverEnv s.serverStart).2

end Session

section

variable {opt : ServerOpt} {header : ProtocolHeader} {e : Env} {fs fs' : Files} {sent : Bytes}

-- The server has received the header that the client has sent, if it has received one at all.
theorem Env.Header.eq_of_sent {rest : List Arrival} {msgType : UInt8} {size : UInt64} {tail : Bytes}
    (h : e.Header header rest) (hp : bytes e.inp <+: encodeHeader (requestHeader msgType size) ++ tail)
    (ht : msgType = msgTypeTextMessage ∨ msgType = msgTypeSendFile ∨ msgType = msgTypeGetFile) :
    header = requestHeader msgType size ∧ bytes rest <+: tail := by
  obtain ⟨buf, hl, hh, hb, -⟩ := h.accepted
  rw [hb] at hp
  have ⟨hbuf, hrest⟩ := prefix_append_inj hp hl
  have hdec := decodeHeader_encodeHeader (requestHeader msgType size) rfl rfl rfl ht
  exact ⟨Except.ok.inj (hh.symm.trans (hbuf ▸ hdec)), hrest⟩

-- Only an upload that is stored is answered with READY/OK and FINAL/OK.
theorem UploadRun.committed (h : UploadRun opt header e fs sent fs')
    (hr : ResFrame.readyOk.bytes ++ ResFrame.finalOk.bytes <+: sent) :
    ∃ raw size rest path content, e.Prefix raw size rest ∧
      fsJoinRelativePath pathCap opt.path (.ofBuf raw) = some path ∧
      (e.direct = [] → content.length = (decodeU64Be size).toNat ∧ content <+: bytes rest) ∧
      fs.Replaced path content fs' := by
  have hlen : 8 ≤ sent.length := hr.length_le
  cases h
  case tooSmall hsent =>
    have : sent.length ≤ 4 := hsent.isPrefix.length_le
    omega
  case silent => simp at hlen
  case refused hsent =>
    have : sent.length ≤ 4 := hsent.isPrefix.length_le
    omega
  case unready hsent _ =>
    have : sent.length ≤ 4 := hsent.isPrefix.length_le
    omega
  case failed hsent _ =>
    have hst : statusOk ≠ statusFailed := by decide
    have hfinal := (List.prefix_append_right_inj _).mp hr
    exact absurd (congrArg ResFrame.status (ResFrame.eq_of_prefix hfinal hsent.isPrefix)) hst
  case stored hp _ hpath hc _ hrep => exact ⟨_, _, _, _, _, hp, hpath, hc, hrep⟩

end

section

variable {hc : Handler Sys Wc} {opt : ClientOpt} {srv : ServerOpt}

-- The file that the client has read is in place on the server.
structure FileCommitted (srv : ServerOpt) (name : CStr) (content : Bytes) (fs fs' : Files) : Prop where
  stored : ∃ path i, fsJoinRelativePath pathCap srv.path name = some path ∧
    fs.fresh ≤ i ∧ fs'.get path = some (.file i) ∧ fs'.data i = content

theorem FileCommitted.changed {name : CStr} {content : Bytes} {fs fs' : Files}
    (h : FileCommitted srv name content fs fs') : ∃ path, fs'.get path ≠ fs.get path := by
  obtain ⟨path, i, _, hi, hget, _⟩ := h.stored
  exact ⟨path, fun heq => Nat.not_lt.mpr hi (Files.lt_fresh (heq ▸ hget))⟩

-- What a server has done to which a complete upload was sent and that has answered it completely.
theorem NativeRun.file_committed {e : Env} {w w' : World} {sent sent' content : Bytes}
    {inp : List Arrival} (h : NativeRun srv e w sent w') (hd : e.direct = [])
    (ht : opt.msgType = msgTypeSendFile) (hs : FileSent opt inp sent' content)
    (hto : bytes e.inp <+: sent') (hfrom : bytes inp <+: sent) :
    FileCommitted srv (fsBasenameFromPath opt.path) content w.files w'.files := by
  obtain ⟨hne, hle, -⟩ := protoGetFileNameLen_eq_some hs.name
  obtain ⟨tail, htail⟩ := hs.answered
  have hr : ResFrame.readyOk.bytes ++ ResFrame.finalOk.bytes <+: sent :=
    List.IsPrefix.trans ⟨bytes tail, htail.symm⟩ hfrom
  rw [hs.sent, List.append_assoc] at hto
  cases h
  case dropped => simp [ResFrame.bytes] at hr
  case text header rest _ hheader htext hrun =>
    obtain ⟨heq, _⟩ := hheader.eq_of_sent hto (.inr (.inl ht))
    rw [heq] at htext
    exact absurd (ht.symm.trans htext) (by decide)
  case download header rest hheader hget hrun =>
    obtain ⟨heq, _⟩ := hheader.eq_of_sent hto (.inr (.inl ht))
    rw [heq] at hget
    exact absurd (ht.symm.trans hget) (by decide)
  case upload header rest files hheader _ hrun =>
    obtain ⟨_, hrest⟩ := hheader.eq_of_sent hto (.inr (.inl ht))
    obtain ⟨raw, size, rest', path, content', hp, hpath, hcontent, hrep⟩ := hrun.committed hr
    obtain ⟨hclen, hcpre⟩ := hcontent hd
    have hb : bytes rest = wireName raw ++ size ++ bytes rest' := hp.bytes_eq
    rw [hb, filePrefix, List.append_assoc, List.append_assoc] at hrest
    have hrawlen : raw.length ≤ maxFileNameLen := hp.raw_length ▸ hp.le
    obtain ⟨hname, hrest₁⟩ := wireName_prefix_inj hrest hrawlen hle
    obtain ⟨hsize, hrest₂⟩ :=
      prefix_append_inj hrest₁ (hp.size_length.trans (length_encodeU64Be _).symm)
    subst hname hsize
    rw [CStr.ofBuf_chars] at hpath
    have hdec := decodeU64Be_encodeU64Be content.length.toUInt64 []
    rw [List.append_nil] at hdec
    have hsmall : content.length < 2 ^ 64 := Nat.lt_of_le_of_lt hs.small (by decide)
    have hlen : content'.length = content.length := by
      rw [hclen, hdec]
      simpa using hsmall
    have heq : content' = content := (hcpre.trans hrest₂).eq_of_length hlen
    exact ⟨path, _, hpath, Nat.le_refl _, hrep.self, heq ▸ hrep.new⟩

theorem NativeRun.message_stored {e : Env} {w w' : World} {sent : Bytes} {inp : List Arrival}
    (h : NativeRun srv e w sent w') (hmax : opt.message.strlen ≤ maxTextMessageSize)
    (hto : bytes e.inp <+: encodeHeader (requestHeader msgTypeTextMessage
      opt.message.strlen.toUInt64) ++ opt.message.chars)
    {rest : List Arrival} (hin : bytes inp = ResFrame.finalOk.bytes ++ bytes rest)
    (hfrom : bytes inp <+: sent) :
    w'.board = ⟨some (storedMessage opt.message), w.board.version + 1⟩ := by
  have hr : ResFrame.finalOk.bytes <+: sent := List.IsPrefix.trans ⟨bytes rest, hin.symm⟩ hfrom
  have hcases : ∀ {header rest}, e.Header header rest →
      header = requestHeader msgTypeTextMessage opt.message.strlen.toUInt64 ∧
      bytes rest <+: opt.message.chars := fun hheader => hheader.eq_of_sent hto (.inl rfl)
  cases h
  case dropped => simp [ResFrame.bytes] at hr
  case upload hheader hsend _ =>
    rw [(hcases hheader).left] at hsend
    exact absurd (show msgTypeTextMessage = msgTypeSendFile from hsend) (by decide)
  case download hheader hget _ =>
    rw [(hcases hheader).left] at hget
    exact absurd (show msgTypeTextMessage = msgTypeGetFile from hget) (by decide)
  case text hheader _ hrun =>
    obtain ⟨rfl, hrest⟩ := hcases hheader
    cases hrun
    case failed hsent =>
      have hst : statusOk ≠ statusFailed := by decide
      exact absurd (congrArg ResFrame.status (ResFrame.eq_of_prefix hr hsent.isPrefix)) hst
    case stored message _ hlen hb _ =>
      have hb : message <+: opt.message.chars := List.IsPrefix.trans ⟨_, hb.symm⟩ hrest
      have hsmall : opt.message.strlen < 2 ^ 64 := Nat.lt_of_le_of_lt hmax (by decide)
      have hlen' : message.length = opt.message.strlen := by
        rw [hlen]
        simpa [requestHeader] using hsmall
      cases hb.eq_of_length hlen'
      rw [CStr.ofBuf_chars]

end

theorem World.pread_length_le (fd : Entry) (off len : Nat) (w : World) :
    (World.handle (.pread fd off len) w).1.length ≤ len := by
  cases fd
  case file  => exact List.length_take_le _ _
  case dir   => exact Nat.zero_le _
  case other => exact Nat.zero_le _

-- If the client reports success, the server has done what it was asked for: the file is in place
-- under its name with all the bytes that the client has read of it, or the message is the latest one.
theorem client_success_has_server_effect {hc : Handler Sys Wc}
    (hp : ∀ fd off len w, (hc (.pread fd off len) w).1.length ≤ len)
    (opt : ClientOpt) (srv : ServerOpt)
    (s : Session (Handler.traced hc) World.handle (client opt) (handleProtocolConnection srv))
    (htrace : s.clientStart.2 = []) (hd : s.serverEnv.direct = []) :
    (opt.msgType = msgTypeSendFile →
      (s.result = 0 →
        (∃ payloadSize, s.clientSent = encodeHeader (requestHeader msgTypeSendFile payloadSize) ++
          filePrefix (fsBasenameFromPath opt.path) (fileReads s.clientEnd.2).length ++
          fileReads s.clientEnd.2) ∧
        FileCommitted srv (fsBasenameFromPath opt.path) (fileReads s.clientEnd.2)
          s.serverStart.files s.serverEnd.files) ∧
      ((∀ path, s.serverEnd.files.get path = s.serverStart.files.get path) → s.result ≠ 0)) ∧
    (opt.msgType = msgTypeTextMessage →
      (s.result = 0 → s.serverEnd.board.message = some (storedMessage opt.message)) ∧
      (s.serverEnd.board.version = s.serverStart.board.version → s.result ≠ 0)) := by
  obtain ⟨sent, hout, hrun⟩ :=
    Io.wp_iff_exec.mp (wp_handleProtocolConnection srv s.serverEnv s.serverStart)
  rw [s.serverOut, List.nil_append] at hout
  have hfrom : bytes s.clientEnv.inp <+: sent := hout ▸ s.toClient
  constructor
  · intro ht
    have hclient : client opt = clientSendFileRaw opt := by rw [client, if_pos ht]
    have hcommit : s.result = 0 →
        (∃ payloadSize, s.clientSent = encodeHeader (requestHeader msgTypeSendFile payloadSize) ++
          filePrefix (fsBasenameFromPath opt.path) (fileReads s.clientEnd.2).length ++
          fileReads s.clientEnd.2) ∧
        FileCommitted srv (fsBasenameFromPath opt.path) (fileReads s.clientEnd.2)
          s.serverStart.files s.serverEnd.files := by
      intro hres
      have hwp : Io.wp (Handler.traced hc) (client opt) _ s.clientEnv s.clientStart :=
        hclient ▸ wp_clientSendFileRaw (Handler.traced_logs hp) (by simp [htrace, fileReads]) opt
      obtain ⟨sent', content, hout', hsent, hreads⟩ := Io.wp_iff_exec.mp hwp hres
      rw [s.clientOut, List.nil_append] at hout'
      rw [← hreads] at hsent
      refine ⟨⟨_, hout'.trans (ht ▸ hsent.sent)⟩, ?_⟩
      exact hrun.file_committed hd ht hsent (hout' ▸ s.toServer) hfrom
    refine ⟨hcommit, fun hsame hres => ?_⟩
    obtain ⟨path, hne⟩ := (hcommit hres).right.changed
    exact hne (hsame path)
  · intro ht
    have hclient : client opt = clientSendMessage opt := by
      rw [client, if_neg (by simp [ht, msgTypeTextMessage, msgTypeSendFile]), if_pos ht]
    have hstore : s.result = 0 → s.serverEnd.board =
        ⟨some (storedMessage opt.message), s.serverStart.board.version + 1⟩ := by
      intro hres
      have hwp : Io.wp (Handler.traced hc) (client opt) _ s.clientEnv s.clientStart :=
        hclient ▸ wp_clientSendMessage opt
      obtain ⟨hmax, hout', rest, hin⟩ := Io.wp_iff_exec.mp hwp hres
      rw [s.clientOut, List.nil_append] at hout'
      exact hrun.message_stored hmax (hout' ▸ s.toServer) hin hfrom
    refine ⟨fun hres => by rw [hstore hres], fun hsame hres => ?_⟩
    rw [hstore hres] at hsame
    exact absurd hsame (Nat.succ_ne_self _)

-- A session in which the file "f" is uploaded. The server receives the request in two pieces.
def uploadSession : Session (Handler.traced World.handle) World.handle
    (client ⟨.lit "f", none, none, .lit "", msgTypeSendFile⟩)
    (handleProtocolConnection ⟨.lit "d", 0⟩) where
  clientEnv   := .calm 1 [.data 0 [0, 0, 0, 1, 0, 0, 0]]
  serverEnv   := .calm 2 [.data 4 [41, 3, 1, 0, 0, 0, 0, 0, 0, 0, 0, 13, 0, 1, 102],
    .data 0 [0, 0, 0, 0, 0, 0, 2, 7, 8]]
  clientStart := ({ World.empty with files := (Files.empty.create (.lit "f")).setData 0 [7, 8] }, [])
  serverStart := .empty
  clientOut   := rfl
  serverOut   := rfl
  toServer    := by decide +kernel
  toClient    := by decide +kernel

theorem uploadSession_has_server_effect : uploadSession.result = 0 ∧
    FileCommitted ⟨.lit "d", 0⟩ (fsBasenameFromPath (.lit "f")) (fileReads uploadSession.clientEnd.2)
      uploadSession.serverStart.files uploadSession.serverEnd.files := by
  have hres : uploadSession.result = 0 := by decide +kernel
  exact ⟨hres, ((client_success_has_server_effect World.pread_length_le _ _ uploadSession rfl
    rfl).left rfl).left hres |>.right⟩
