import HFile.Theorems.Fetch
import HFile.Theorems.Sessions

open Program (Handler)
open Arrival (bytes delivered)

section

variable {W : Type} {h : Handler Sys W} {inv : W → Prop} {content : Entry → Bytes} {e : Env} {w : W}

-- A connection on which a download is requested either breaks off before the header is complete, or
-- it is served as a download.
theorem wp_handleProtocolConnection_get (hs : Shrinks h inv content) (hw : inv w) (srv : ServerOpt)
    {size : UInt64} {tail : Bytes}
    (hto : bytes e.inp <+: encodeHeader (requestHeader msgTypeGetFile size) ++ tail) :
    Io.wp h (handleProtocolConnection srv) (fun _ e' _ => ∃ sent, e'.out = e.out ++ sent ∧
      (sent = [] ∨ ∃ rest, bytes rest <+: tail ∧ DownloadRun h content srv
        (requestHeader msgTypeGetFile size) { e with inp := rest } w sent)) e w := by
  rw [handleProtocolConnection, Io.wp_bind]
  refine wp_recvHeader ?_ fun r as _ => ⟨[], by simp, .inl rfl⟩
  intro buf as hl hb hd
  have hdec := decodeHeader_encodeHeader (requestHeader msgTypeGetFile size) rfl rfl rfl
    (.inr (.inr rfl))
  rw [hb] at hto
  obtain ⟨hbuf, hrest⟩ := prefix_append_inj hto hl
  dsimp only
  rw [hbuf, hdec]
  have ht₁ : msgTypeGetFile ≠ msgTypeTextMessage := by decide
  have ht₂ : msgTypeGetFile ≠ msgTypeSendFile := by decide
  simp only [requestHeader_msgType, ht₁, ht₂, if_false, if_true]
  rw [Io.wp_bind]
  refine Io.wp_mono (wp_serverHandleGetFile hs hw srv _) ?_
  rintro _ e' w' ⟨-, sent, hout, hrun⟩
  exact ⟨sent, hout, .inr ⟨as, hrest, hrun⟩⟩

-- The name of a file that is opened fits the field for its length.
theorem Opens.name_le {srv : ServerOpt} {header : ProtocolHeader} {raw : Bytes} {fd : Entry}
    (h : Opens h srv header e w raw fd) : (CStr.ofBuf raw).chars.length ≤ maxFileNameLen := by
  obtain ⟨rest, hn⟩ := h.name
  exact (CStr.strlen_ofBuf_le raw).trans (hn.raw_length ▸ hn.le)

-- What a client takes for an offer is the prefix that the server has sent.
theorem filePrefix_prefix_inj {name : CStr} {n : Nat} {raw size tail tail' : Bytes}
    (hn : name.chars.length ≤ maxFileNameLen) (hl : raw.length ≤ maxFileNameLen)
    (hs : size.length = 8)
    (h : ResFrame.readyOk.bytes ++ (wireName raw ++ size) ++ tail <+:
      ResFrame.readyOk.bytes ++ filePrefix name n ++ tail') :
    name.chars = raw ∧ size = encodeU64Be n.toUInt64 ∧ tail <+: tail' := by
  simp only [filePrefix, List.append_assoc, List.prefix_append_right_inj] at h
  obtain ⟨hraw, h⟩ := wireName_prefix_inj h hl hn
  obtain ⟨hsize, h⟩ := prefix_append_inj h hs
  exact ⟨hraw.symm, hsize, h⟩

theorem decodeU64Be_encodeU64Be_toNat {n : Nat} (h : n < 2 ^ 63) :
    (decodeU64Be (encodeU64Be n.toUInt64)).toNat = n := by
  have hdec := decodeU64Be_encodeU64Be n.toUInt64 []
  rw [List.append_nil] at hdec
  rw [hdec]
  simp only [Nat.toUInt64_eq, UInt64.toNat_ofNat']
  omega

-- The bytes that a client takes for an offer, a content and a last frame can only come from a
-- download that was served to its end, since all others are too short.
theorem DownloadRun.complete {srv : ServerOpt} {header : ProtocolHeader} {sent raw size body : Bytes}
    (hrun : DownloadRun h content srv header e w sent) (hl : raw.length ≤ maxFileNameLen)
    (hs : size.length = 8) (hb : body.length = (decodeU64Be size).toNat)
    (hr : ResFrame.readyOk.bytes ++ (wireName raw ++ size) ++ (body ++ ResFrame.finalOk.bytes) <+:
      sent) :
    ∃ raw' fd, Opens h srv header e w raw' fd ∧ (CStr.ofBuf raw').chars = raw ∧
      body = content fd ∧ sent = ResFrame.readyOk.bytes ++
        filePrefix (.ofBuf raw') (content fd).length ++ content fd ++ ResFrame.finalOk.bytes := by
  cases hrun
  case rejected hsent =>
    have h₁ := hr.length_le
    have h₂ := hsent.isPrefix.length_le
    simp at h₁ h₂
    omega
  case unready raw' fd hopen hsent _ =>
    have hp := hr.trans hsent.isPrefix
    rw [← List.append_nil (_ ++ filePrefix _ _)] at hp
    have ⟨_, _, hp⟩ := filePrefix_prefix_inj hopen.name_le hl hs hp
    have := hp.length_le
    simp at this
  case broken raw' fd body' sent' hopen hlt hbody hshort hsent =>
    rw [List.append_assoc _ body'] at hr
    have ⟨_, hsize, hp⟩ := filePrefix_prefix_inj hopen.name_le hl hs hr
    have h₁ := hp.length_le
    have h₂ := hsent.isPrefix.length_le
    rw [hsize, decodeU64Be_encodeU64Be_toNat hlt] at hb
    simp only [List.length_append, ResFrame.length_bytes] at h₁ h₂
    omega
  case served raw' fd sent' hopen hlt hsent =>
    rw [List.append_assoc _ (content fd)] at hr
    have ⟨hname, hsize, hp⟩ := filePrefix_prefix_inj hopen.name_le hl hs hr
    rw [hsize, decodeU64Be_encodeU64Be_toNat hlt] at hb
    have ⟨hbody, hfinal⟩ := prefix_append_inj hp hb
    have heq : ResFrame.finalOk.bytes = sent' :=
      hfinal.eq_of_length (Nat.le_antisymm hfinal.length_le hsent.isPrefix.length_le)
    exact ⟨raw', fd, hopen, hname, hbody, by rw [heq]⟩

end

theorem World.handle_remove_view (w : World) (p q : CStr) :
    (World.handle (.remove p) w).2.files.view q = w.files.view q ∨
    (World.handle (.remove p) w).2.files.view q = none := by
  by_cases hr : w.files.Removes p
  case neg => exact .inl (by rw [World.handle_remove_not hr])
  case pos =>
    have hget := World.handle_remove_get hr
    obtain ⟨x, hx, hremovable⟩ := hr
    by_cases hq : q = p
    case pos => exact .inr (by rw [hq, Files.view, hget])
    case neg =>
      refine .inl (Files.view_congr ?_ fun i _ => ?_)
      · simp only [World.handle, hx, hremovable, if_true]
        exact Files.get_unlink_ne hq
      · simp [World.handle, hx, hremovable, Files.unlink]

theorem GetRun.unpublished {opt : ClientOpt} {e : Env} {w w' : World} {code : Nat} {sent : Bytes}
    (h : GetRun opt e w code sent w') (hcode : code ≠ 0) (path : CStr) :
    w'.files.view path = w.files.view path ∨ w'.files.view path = none := by
  cases h
  case refused          => exact .inl rfl
  case unopened left _ _ => exact World.handle_remove_view w _ path
  case failed hsame     => exact .inl (congrFun hsame.view path)
  case saved            => exact absurd rfl hcode

-- The name that the server has received is the one that the client has asked for.
theorem Opens.eq_of_sent {W : Type} {h : Handler Sys W} {srv : ServerOpt} {header : ProtocolHeader}
    {e : Env} {w : W} {raw : Bytes} {fd : Entry} {remote : CStr} (ho : Opens h srv header e w raw fd)
    (hl : remote.strlen ≤ maxFileNameLen) (hto : bytes e.inp <+: wireName remote.chars) :
    CStr.ofBuf raw = remote := by
  obtain ⟨rest, hn⟩ := ho.name
  rw [hn.bytes_eq, ← List.append_nil (wireName remote.chars)] at hto
  have ⟨hraw, _⟩ := wireName_prefix_inj hto (hn.raw_length ▸ hn.le) hl
  rw [hraw, CStr.ofBuf_chars]

-- The file that is published by a successful download is the one that the server has opened, and
-- the server has confirmed it. A download that fails publishes nothing.
theorem download_integrity {hs : Handler Sys W} {inv : W → Prop} {content : Entry → Bytes}
    (hshrinks : Shrinks hs inv content) (opt : ClientOpt) (srv : ServerOpt)
    (s : Session World.handle hs (clientGetFile opt) (handleProtocolConnection srv))
    (hinv : inv s.serverStart) (hd : s.clientEnv.direct = []) :
    (s.result = 0 → ∃ remote path f fd, opt.remotePath = some remote ∧
      fsJoinRelativePath pathCap srv.path remote = some path ∧
      (hs (.openRead path true f) s.serverStart).1 = .ok fd ∧
      s.serverSent = ResFrame.readyOk.bytes ++ filePrefix remote (content fd).length ++
        content fd ++ ResFrame.finalOk.bytes ∧
      s.clientStart.files.Replaced (opt.outputPath.getD remote) (content fd) s.clientEnd.files) ∧
    (s.result ≠ 0 → ∀ path, s.clientEnd.files.view path = s.clientStart.files.view path ∨
      s.clientEnd.files.view path = none) := by
  obtain ⟨sent, hout, hrun⟩ :=
    Io.wp_iff_exec.mp (wp_clientGetFile opt s.clientEnv s.clientStart)
  rw [s.clientOut, List.nil_append] at hout
  have hto : bytes s.serverEnv.inp <+: sent := hout ▸ s.toServer
  have hrun : GetRun opt s.clientEnv s.clientStart s.result sent s.clientEnd := hrun
  refine ⟨fun hres => ?_, fun hres => hrun.unpublished hres⟩
  generalize hw : s.clientEnd = w' at hrun ⊢
  rw [hres] at hrun
  cases hrun
  case saved remote raw size out body files hf hbody hleft hrep hsent =>
    obtain ⟨_, hle, -⟩ := protoGetFileNameLen_eq_some (Option.ne_none_iff_exists'.mp hf.named).choose_spec
    rw [hsent] at hto
    obtain ⟨sent', hout', hserver⟩ := Io.wp_iff_exec.mp
      (wp_handleProtocolConnection_get hshrinks hinv srv hto)
    rw [s.serverOut, List.nil_append] at hout'
    obtain ⟨hlen, rest, hin⟩ := hbody hd
    have hfrom : ResFrame.readyOk.bytes ++ (wireName raw ++ size) ++
        (body ++ ResFrame.finalOk.bytes) <+: sent' := by
      have := hin ▸ hout' ▸ s.toClient
      rw [← List.append_assoc] at this
      exact (List.prefix_append _ _).trans this
    rcases hserver with rfl | ⟨rest', hrest, hserver⟩
    case inl => simp [ResFrame.bytes] at hfrom
    case inr =>
      have ho := hf.offered
      obtain ⟨raw', fd, hopen, hname, hcontent, hsent'⟩ :=
        hserver.complete ho.le ho.sized hlen hfrom
      obtain ⟨path, f, hpath, hfd⟩ := hopen.opened
      have hremote := hopen.eq_of_sent hle hrest
      rw [hremote] at hpath hname hsent'
      have houtput : out = opt.outputPath.getD remote := by
        rcases hf.output with h | ⟨h, -, rfl⟩
        · simp [h]
        · simp [h, ← hname]
      exact ⟨remote, path, f, fd, hf.request, hpath, hfd, hout'.trans hsent', hcontent ▸ houtput ▸ hrep⟩

-- A session in which the file "f" is downloaded. The client receives the answer in two pieces.
def fetchSession : Session World.handle World.handle (clientGetFile fetchOfF)
    (handleProtocolConnection ⟨.lit "d", 0⟩) where
  clientEnv   := .calm 1 [.data 0 [0, 0, 0, 0, 1, 102, 0, 0, 0, 0, 0, 0, 0, 2, 7],
    .data 8 [1, 0, 0, 0]]
  serverEnv   := .calm 2 [.data 4 [41, 3, 3, 0, 0, 0, 0, 0, 0, 0, 0, 3, 0, 1, 102]]
  clientStart := .empty
  serverStart := { World.empty with files := (Files.empty.create (.lit "d/f")).setData 0 [7, 8] }
  clientOut   := rfl
  serverOut   := rfl
  toServer    := by decide +kernel
  toClient    := by decide +kernel

theorem fetchSession_has_integrity : fetchSession.result = 0 ∧
    ∃ remote path f fd, fetchOfF.remotePath = some remote ∧
      fsJoinRelativePath pathCap (.lit "d") remote = some path ∧
      (World.handle (.openRead path true f) fetchSession.serverStart).1 = .ok fd ∧
      fetchSession.serverSent = ResFrame.readyOk.bytes ++
        filePrefix remote (fetchSession.serverStart.files.content fd).length ++
        fetchSession.serverStart.files.content fd ++ ResFrame.finalOk.bytes ∧
      fetchSession.clientStart.files.Replaced (fetchOfF.outputPath.getD remote)
        (fetchSession.serverStart.files.content fd) fetchSession.clientEnd.files := by
  have hres : fetchSession.result = 0 := by decide +kernel
  exact ⟨hres, (download_integrity (World.shrinks fetchSession.serverStart) _ _ fetchSession rfl
    rfl).left hres⟩
