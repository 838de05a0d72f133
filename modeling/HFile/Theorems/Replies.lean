import HFile.Theorems.Names

open Arrival (bytes delivered)

-- The replies that the protocol allows to the three kinds of requests.
inductive ConformingReply (opt : ServerOpt) (w : World) : UInt8 → Bytes → Prop
  | text :
    protoResFrameValid frame = true → frame.phase = phaseFinal →
    ConformingReply opt w msgTypeTextMessage frame.bytes
  | uploadRejected :
    protoResFrameValid frame = true → frame.phase = phaseReady → frame.status = statusRejected →
    ConformingReply opt w msgTypeSendFile frame.bytes
  | uploadAccepted :
    protoResFrameValid frame = true → frame.phase = phaseFinal →
    ConformingReply opt w msgTypeSendFile (ResFrame.readyOk.bytes ++ frame.bytes)
  | downloadRejected :
    protoResFrameValid frame = true → frame.phase = phaseReady → frame.status = statusRejected →
    ConformingReply opt w msgTypeGetFile frame.bytes
  | downloadAccepted :
    protoResFrameValid frame = true → frame.phase = phaseFinal →
    fsJoinRelativePath pathCap opt.path name = some path → w.files.get path = some fd →
    body <+: w.files.content fd →
    ConformingReply opt w msgTypeGetFile (ResFrame.readyOk.bytes ++
      filePrefix name (w.files.content fd).length ++ body ++ frame.bytes)

theorem ConformingReply.ne_nil {opt : ServerOpt} {w : World} {msgType : UInt8} {reply : Bytes}
    (h : ConformingReply opt w msgType reply) : reply ≠ [] := by
  cases h <;> simp [ResFrame.bytes]

-- What is delivered after the header.
def Env.request (e : Env) : Env :=
  { e with inp := Arrival.push ((delivered e.inp).drop 13) [] }

section

variable {opt : ServerOpt} {header : ProtocolHeader} {e e' : Env} {w : World} {fs fs' : Files}
variable {board board' : Board} {sent : Bytes}

-- Whether a prefix is received is decided by the bytes that are delivered and by the memory.
theorem Env.hasPrefix_congr (hd : delivered e'.inp = delivered e.inp) (ha : e'.allocs = e.allocs) :
    e'.HasPrefix ↔ e.HasPrefix := by
  have hn : e'.nameLen = e.nameLen := by rw [Env.nameLen, hd, ← Env.nameLen]
  constructor
  · rintro ⟨⟨h₁, h₂, h₃, h₄, h₅⟩, h₆⟩
    rw [hd] at h₁ h₅ h₆
    rw [hn] at h₂ h₃ h₅ h₆
    exact ⟨⟨h₁, h₂, h₃, ha ▸ h₄, h₅⟩, h₆⟩
  · rintro ⟨⟨h₁, h₂, h₃, h₄, h₅⟩, h₆⟩
    rw [← hd] at h₁ h₅ h₆
    rw [← hn] at h₂ h₃ h₅ h₆
    exact ⟨⟨h₁, h₂, h₃, ha ▸ h₄, h₅⟩, h₆⟩

theorem Env.Header.request_hasPrefix {rest : List Arrival} (h : e.Header header rest) :
    e.request.HasPrefix ↔ Env.HasPrefix { e with inp := rest } := by
  obtain ⟨buf, hl, -, -, hd⟩ := h.accepted
  refine Env.hasPrefix_congr ?_ rfl
  simp [Env.request, hd, ← hl]

theorem TextRun.conforms (h : TextRun header e board sent board') (hb : ∀ t ∈ e.snd, t.Benign) :
    ConformingReply opt w msgTypeTextMessage sent := by
  cases h
  case failed hr hsent =>
    rw [hsent.eq_of_benign hb]
    exact .text (ResFrame.finalFailed_valid hr) rfl
  case stored hsent =>
    rw [hsent.eq_of_benign hb]
    exact .text ResFrame.finalOk_valid rfl

-- An upload is answered properly unless its prefix is awaited in vain.
theorem UploadRun.conforms_iff (h : UploadRun opt header e fs sent fs')
    (hb : ∀ t ∈ e.snd, t.Benign) : ConformingReply opt w msgTypeSendFile sent ↔
      (protoFileTransferPrefixSize 1 ≤ header.payloadSize → e.HasPrefix) := by
  cases h
  case tooSmall hs hsent =>
    rw [hsent.eq_of_benign hb]
    refine iff_of_true ?_ fun hle => absurd hs (UInt64.not_lt.mpr hle)
    exact .uploadRejected (ResFrame.readyRejected_valid (by simp)) rfl rfl
  case silent hs hp =>
    refine iff_of_false (fun hc => hc.ne_nil rfl) fun hp' => hp (hp' (UInt64.not_lt.mp hs))
  case refused hp _ hr hsent =>
    rw [hsent.eq_of_benign hb]
    refine iff_of_true ?_ fun _ => hp.toHasPrefix
    exact .uploadRejected (ResFrame.readyRejected_valid hr) rfl rfl
  case unready hsent hne => exact absurd (hsent.eq_of_benign hb) hne
  case failed hp _ hr hsent _ =>
    rw [hsent.eq_of_benign hb]
    exact iff_of_true (.uploadAccepted (ResFrame.finalFailed_valid hr) rfl) fun _ => hp.toHasPrefix
  case stored hp _ _ _ hsent _ =>
    rw [hsent.eq_of_benign hb]
    exact iff_of_true (.uploadAccepted ResFrame.finalOk_valid rfl) fun _ => hp.toHasPrefix

theorem DownloadRun.conforms (h : DownloadRun World.handle w.files.content opt header e w sent)
    (hb : ∀ t ∈ e.snd, t.Benign) : ConformingReply opt w msgTypeGetFile sent := by
  cases h
  case rejected hr hsent =>
    rw [hsent.eq_of_benign hb]
    exact .downloadRejected (ResFrame.readyRejected_valid hr) rfl rfl
  case unready hsent hne => exact absurd (hsent.eq_of_benign hb) hne
  case broken hopen _ hbody _ hsent =>
    obtain ⟨path, f, hpath, hfd⟩ := hopen.opened
    rw [hsent.eq_of_benign hb]
    exact .downloadAccepted (ResFrame.finalFailed_valid (by simp)) rfl hpath
      (World.handle_openRead_ok hfd) hbody
  case served hopen _ hsent =>
    obtain ⟨path, f, hpath, hfd⟩ := hopen.opened
    rw [hsent.eq_of_benign hb]
    exact .downloadAccepted ResFrame.finalOk_valid rfl hpath (World.handle_openRead_ok hfd)
      List.prefix_rfl

end

-- Every request whose header is accepted gets a proper reply, except for an upload that does not
-- get as far as the checks of its prefix.
theorem conformingReply_iff (opt : ServerOpt) (e : Env) (w : World) (header : ProtocolHeader)
    (hh : e.HasHeader header) (hb : ∀ t ∈ e.snd, t.Benign) :
    (∃ reply, (Io.exec World.handle (handleProtocolConnection opt) e w).1.2.out = e.out ++ reply ∧
      ConformingReply opt w header.msgType reply) ↔
    (header.msgType = msgTypeSendFile → protoFileTransferPrefixSize 1 ≤ header.payloadSize →
      e.request.HasPrefix) := by
  obtain ⟨sent, hout, hrun⟩ := Io.wp_iff_exec.mp (wp_handleProtocolConnection opt e w)
  have hreply : (∃ reply, (Io.exec World.handle (handleProtocolConnection opt) e w).1.2.out =
      e.out ++ reply ∧ ConformingReply opt w header.msgType reply) ↔
      ConformingReply opt w header.msgType sent := by
    simp [hout]
  rw [hreply]
  generalize (Io.exec World.handle (handleProtocolConnection opt) e w).2 = w' at hrun
  cases hrun
  case dropped hno => exact absurd hh (hno header)
  case text hheader ht hrun =>
    cases hh.unique hheader.hasHeader
    rw [ht]
    exact iff_of_true (hrun.conforms hb) fun h => absurd h (by decide)
  case upload hheader ht hrun =>
    cases hh.unique hheader.hasHeader
    rw [ht, hheader.request_hasPrefix, hrun.conforms_iff hb]
    simp
  case download hheader ht hrun =>
    cases hh.unique hheader.hasHeader
    rw [ht]
    exact iff_of_true (hrun.conforms hb) fun h => absurd h (by decide)

-- A connection on which an upload with a payload of 11 bytes is requested.
def uploadOf11 (payload : Bytes) : Env :=
  .calm 1 (Arrival.push (encodeHeader uploadHeader ++ payload) [])
where
  uploadHeader := { initHeader with msgType := msgTypeSendFile, payloadSize := 11 }

theorem conformingReply_iff_of_empty_file :
    (∃ reply, (Io.exec World.handle (handleProtocolConnection ⟨.lit "d", 0⟩)
      (uploadOf11 (filePrefix (.lit "f") 0)) .empty).1.2.out = [] ++ reply ∧
      ConformingReply ⟨.lit "d", 0⟩ .empty msgTypeSendFile reply) ↔
    (msgTypeSendFile = msgTypeSendFile → protoFileTransferPrefixSize 1 ≤ 11 →
      (uploadOf11 (filePrefix (.lit "f") 0)).request.HasPrefix) :=
  conformingReply_iff ⟨.lit "d", 0⟩ _ .empty uploadOf11.uploadHeader
    ⟨by decide, by decide⟩ (by decide)

-- If the name of such an upload has no bytes, the connection is closed without a reply.
theorem upload_without_name_gets_no_reply :
    (uploadOf11 [0, 0, 0, 0, 0, 0, 0, 0, 0, 0, 0]).HasHeader uploadOf11.uploadHeader ∧
    ¬∃ reply, (Io.exec World.handle (handleProtocolConnection ⟨.lit "d", 0⟩)
        (uploadOf11 [0, 0, 0, 0, 0, 0, 0, 0, 0, 0, 0]) .empty).1.2.out = [] ++ reply ∧
      ConformingReply ⟨.lit "d", 0⟩ .empty msgTypeSendFile reply := by
  refine ⟨⟨by decide, by decide⟩, ?_⟩
  rintro ⟨reply, hout, hreply⟩
  have hnone : (Io.exec World.handle (handleProtocolConnection ⟨.lit "d", 0⟩)
      (uploadOf11 [0, 0, 0, 0, 0, 0, 0, 0, 0, 0, 0]) .empty).1.2.out = [] := by decide +kernel
  exact hreply.ne_nil (hout.symm.trans hnone)
