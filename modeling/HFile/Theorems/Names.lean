import HFile.Theorems.Sizes
import HFile.Theorems.Server

open Arrival (bytes delivered)

-- The bytes of the name that a request announces.
def Env.nameBytes (e : Env) : Bytes :=
  ((delivered e.inp).drop 2).take e.nameLen

theorem Env.nameBytes_eq {e : Env} {raw tail : Bytes} (hl : raw.length = e.nameLen)
    (hd : delivered e.inp = wireName raw ++ tail) : e.nameBytes = raw := by
  have : (delivered e.inp).drop 2 = raw ++ tail := by
    rw [hd, wireName, List.append_assoc]
    exact List.drop_left' (length_encodeU16Be _)
  rw [Env.nameBytes, this, ← hl, List.take_left]

theorem wp_protoRecvFileNameOnly_name {h : Program.Handler Sys W} (e : Env) (w : W) :
    Io.wp h protoRecvFileNameOnly (fun r e' _ =>
      (∃ raw, e.Name raw e'.inp ∧ r = .ok (.ofBuf raw)) ∨ (¬e.HasName ∧ ∃ r', r = .error r')) e w := by
  refine wp_protoRecvFileNameOnly ?_ ?_
  · intro raw as al hn hl hb hd
    exact .inl ⟨raw, ⟨hn, hl, hb, hd⟩, rfl⟩
  · intro r as al hn _
    exact .inr ⟨hn, r, rfl⟩

-- The C string that a name is read into encodes to the bytes of the name only if there is no NUL
-- byte among them.
theorem encodeFileNameOnly_ofBuf {raw : Bytes} (hpos : 0 < raw.length)
    (hl : raw.length ≤ maxFileNameLen) :
    encodeFileNameOnly (.ofBuf raw) = .ok (wireName raw) ↔ 0 ∉ raw := by
  constructor
  · intro h
    simp only [encodeFileNameOnly] at h
    split at h
    case h_1 => cases h
    case h_2 =>
      have hlen := congrArg List.length (Except.ok.inj h)
      simp only [List.length_append, length_encodeU16Be, length_wireName] at hlen
      have hs : (CStr.ofBuf raw).chars.length = raw.length := by omega
      exact CStr.ofBuf_eq_iff.mp ((List.takeWhile_prefix _).eq_of_length hs)
  · intro hn
    have hc : (CStr.ofBuf raw).chars = raw := CStr.ofBuf_eq_of_nul_free hn
    have hs : (CStr.ofBuf raw).strlen = raw.length := congrArg List.length hc
    have hlen : protoGetFileNameLen (.ofBuf raw) = some raw.length.toUInt16 := by
      rw [protoGetFileNameLen, hs, if_neg (by omega)]
    simp [encodeFileNameOnly, hlen, hc, wireName]

-- The name in a request is treated as a whole: it is read back from the string that it is decoded
-- to, the sizes are checked against all of its bytes, and all of them name the file.
structure ServesWholeName (e : Env) : Prop where
  decoded : ∀ (w : World) (name : CStr),
    (Io.exec World.handle protoRecvFileNameOnly e w).1.1 = .ok name →
    ∃ consumed, encodeFileNameOnly name = .ok consumed ∧
      bytes e.inp = consumed ++ bytes (Io.exec World.handle protoRecvFileNameOnly e w).1.2.inp
  uploaded : ∀ (opt : ServerOpt) (header : ProtocolHeader) (w : World),
    AnswersReady (serverHandleFileTransfer opt header) e w →
    ∃ name contentSize, name.chars = e.nameBytes ∧
      header.payloadSize = protoFileTransferPrefixSize name.strlen.toUInt16 + contentSize ∧
      (protoFileTransferPrefixSize name.strlen.toUInt16).toNat = 2 + e.nameLen + 8 ∧
      ∀ path, (Io.exec World.handle (serverHandleFileTransfer opt header) e w).2.files.get path ≠
        w.files.get path → fsJoinRelativePath pathCap opt.path name = some path
  downloaded : ∀ (opt : ServerOpt) (header : ProtocolHeader) (w : World),
    AnswersReady (serverHandleGetFile opt header) e w →
    ∃ name path fd, name.chars = e.nameBytes ∧
      header.payloadSize = protoFileNameOnlySize name.strlen.toUInt16 ∧
      (protoFileNameOnlySize name.strlen.toUInt16).toNat = 2 + e.nameLen ∧
      fsJoinRelativePath pathCap opt.path name = some path ∧ w.files.get path = some fd ∧
      ∃ body frame, body <+: w.files.content fd ∧ frame.length ≤ 4 ∧
        (Io.exec World.handle (serverHandleGetFile opt header) e w).1.2.out <+: e.out ++
          (ResFrame.readyOk.bytes ++ filePrefix name (w.files.content fd).length ++ body ++ frame)

theorem UploadRun.changed {opt : ServerOpt} {header : ProtocolHeader} {e : Env} {fs fs' : Files}
    {sent : Bytes} {path : CStr} (h : UploadRun opt header e fs sent fs')
    (hne : fs'.get path ≠ fs.get path) :
    ∃ raw size rest, e.Prefix raw size rest ∧
      fsJoinRelativePath pathCap opt.path (.ofBuf raw) = some path := by
  cases h
  case failed hsame => exact absurd (congrFun hsame.get path) hne
  case stored hp _ hpath _ _ hrep =>
    refine ⟨_, _, _, hp, ?_⟩
    by_contra hno
    exact hne (hrep.get path fun heq => hno (heq ▸ hpath))
  all_goals contradiction

theorem World.handle_openRead_ok {w : World} {path : CStr} {b : Bool} {f : Option Errno} {fd : Entry}
    (h : (World.handle (.openRead path b f) w).1 = .ok fd) : w.files.get path = some fd := by
  simp only [World.handle] at h
  split at h
  case h_1 => cases h
  case h_2 =>
    split at h
    case h_1 hx => exact hx.trans (congrArg some (Except.ok.inj h))
    case h_2 => cases h

-- A download that is answered with READY/OK sends nothing but the file that it opened.
theorem DownloadRun.ready {opt : ServerOpt} {header : ProtocolHeader} {e : Env} {w : World}
    {sent : Bytes} (h : DownloadRun World.handle w.files.content opt header e w sent)
    (hr : ResFrame.readyOk.bytes <+: sent) :
    ∃ raw fd, Opens World.handle opt header e w raw fd ∧
      ∃ body frame, body <+: w.files.content fd ∧ frame.length ≤ 4 ∧ sent <+:
        ResFrame.readyOk.bytes ++ filePrefix (.ofBuf raw) (w.files.content fd).length ++ body ++
        frame := by
  have hst : statusOk ≠ statusRejected := by decide
  cases h
  case rejected hsent =>
    exact absurd (congrArg ResFrame.status (ResFrame.eq_of_prefix hr hsent.isPrefix)) hst
  case unready raw fd hopen hsent _ =>
    refine ⟨raw, fd, hopen, [], [], List.nil_prefix, by simp, ?_⟩
    simpa using hsent.isPrefix
  case broken raw fd body sent hopen _ hbody _ hsent =>
    exact ⟨raw, fd, hopen, body, sent, hbody, hsent.isPrefix.length_le, List.prefix_rfl⟩
  case served raw fd sent hopen _ hsent =>
    exact ⟨raw, fd, hopen, _, sent, List.prefix_rfl, hsent.isPrefix.length_le, List.prefix_rfl⟩

section

variable {e : Env}

theorem servesWholeName_decoded_iff : (∀ (w : World) (name : CStr),
    (Io.exec World.handle protoRecvFileNameOnly e w).1.1 = .ok name →
    ∃ consumed, encodeFileNameOnly name = .ok consumed ∧
      bytes e.inp = consumed ++ bytes (Io.exec World.handle protoRecvFileNameOnly e w).1.2.inp) ↔
    (e.HasName → 0 ∉ e.nameBytes) := by
  constructor
  · intro hall hn
    rcases Io.wp_iff_exec.mp (wp_protoRecvFileNameOnly_name (h := World.handle) e .empty) with
      ⟨raw, hname, hr⟩ | ⟨hno, _⟩
    case inl =>
      obtain ⟨consumed, henc, hb⟩ := hall _ _ hr
      have hc : consumed = wireName raw := List.append_cancel_right (hb.symm.trans hname.bytes_eq)
      rw [Env.nameBytes_eq hname.raw_length hname.delivered_eq]
      have hlen := hname.raw_length
      exact (encodeFileNameOnly_ofBuf (hlen ▸ hn.pos) (hlen ▸ hn.le)).mp (hc ▸ henc)
    case inr => exact absurd hn hno
  · intro hnul w name hr
    rcases Io.wp_iff_exec.mp (wp_protoRecvFileNameOnly_name (h := World.handle) e w) with
      ⟨raw, hname, hr'⟩ | ⟨_, r', hr'⟩
    case inl =>
      cases hr.symm.trans hr'
      have hn := hname.toHasName
      have hlen := hname.raw_length
      have hfree := Env.nameBytes_eq hname.raw_length hname.delivered_eq ▸ hnul hn
      exact ⟨_, (encodeFileNameOnly_ofBuf (hlen ▸ hn.pos) (hlen ▸ hn.le)).mpr hfree, hname.bytes_eq⟩
    case inr => cases hr.symm.trans hr'

-- A name without NUL bytes is kept as it is.
theorem strlen_ofBuf_nameBytes {raw : Bytes} (hl : raw.length = e.nameLen) (hnul : 0 ∉ raw) :
    (CStr.ofBuf raw).strlen = e.nameLen := by
  rw [CStr.strlen, CStr.ofBuf_eq_of_nul_free hnul, hl]

theorem toNat_protoFileNameOnlySize {n : Nat} (h : n ≤ maxFileNameLen) :
    (protoFileNameOnlySize n.toUInt16).toNat = 2 + n := by
  have hlt : n < 65536 := Nat.lt_of_le_of_lt h (by decide)
  have hmod : n % 65536 = n := Nat.mod_eq_of_lt hlt
  simp only [protoFileNameOnlySize, UInt64.toNat_add]
  simp [hmod]
  omega

theorem toNat_protoFileTransferPrefixSize {n : Nat} (h : n ≤ maxFileNameLen) :
    (protoFileTransferPrefixSize n.toUInt16).toNat = 2 + n + 8 := by
  have hmax : maxFileNameLen = 255 := rfl
  rw [protoFileTransferPrefixSize, UInt64.toNat_add, toNat_protoFileNameOnlySize h]
  simp
  omega

-- The name in a request is treated as a whole exactly if no byte of it is NUL.
theorem servesWholeName_iff (e : Env) : ServesWholeName e ↔ (e.HasName → 0 ∉ e.nameBytes) := by
  constructor
  · intro h
    exact servesWholeName_decoded_iff.mp h.decoded
  · intro hnul
    refine ⟨servesWholeName_decoded_iff.mpr hnul, ?_, ?_⟩
    · intro opt header w hready
      obtain ⟨_, raw, size, rest, hp, _, hsize⟩ := hready.accepted
      have hraw := Env.nameBytes_eq hp.raw_length ((hp.delivered_eq).trans (List.append_assoc ..))
      have hfree : 0 ∉ raw := hraw ▸ hnul hp.toHasName
      have hlen := strlen_ofBuf_nameBytes hp.raw_length hfree
      refine ⟨.ofBuf raw, decodeU64Be size, ?_, hsize, ?_, ?_⟩
      · rw [CStr.ofBuf_eq_of_nul_free hfree, hraw]
      · rw [hlen, toNat_protoFileTransferPrefixSize hp.le]
      · intro path hne
        have ⟨_, sent, _, hrun⟩ := Io.wp_iff_exec.mp (wp_serverHandleFileTransfer opt header e w)
        obtain ⟨raw', size', rest', hp', hpath⟩ := hrun.changed hne
        obtain ⟨rfl, -⟩ := hp.unique hp'
        exact hpath
    · intro opt header w hready
      have ⟨_, sent, hout, hrun⟩ := Io.wp_iff_exec.mp
        (wp_serverHandleGetFile (e := e) w.shrinks rfl opt header)
      rw [AnswersReady, hout, List.prefix_append_right_inj] at hready
      obtain ⟨raw, fd, hopen, body, frame, hbody, hframe, hsent⟩ := hrun.ready hready
      obtain ⟨rest, hn⟩ := hopen.name
      obtain ⟨path, f, hpath, hfd⟩ := hopen.opened
      have hraw := Env.nameBytes_eq hn.raw_length hn.delivered_eq
      have hfree : 0 ∉ raw := hraw ▸ hnul hn.toHasName
      have hlen := strlen_ofBuf_nameBytes hn.raw_length hfree
      refine ⟨.ofBuf raw, path, fd, ?_, hopen.payload, ?_, hpath, World.handle_openRead_ok hfd,
        body, frame, hbody, hframe, ?_⟩
      · rw [CStr.ofBuf_eq_of_nul_free hfree, hraw]
      · rw [hlen, toNat_protoFileNameOnlySize hn.le]
      · rw [hout, List.prefix_append_right_inj]
        exact hsent

end

-- The name "a\x00b" is received as "a".
theorem name_with_nul_is_cut : ¬ServesWholeName
    (.calm 1 (Arrival.push (wireName [97, 0, 98] ++ encodeU64Be 2 ++ [1, 2]) [])) := by
  intro h
  obtain ⟨consumed, henc, hb⟩ := h.decoded .empty ⟨[97], by decide⟩ (by decide +kernel)
  have hc : consumed = wireName [97] := by
    have : encodeFileNameOnly ⟨[97], by decide⟩ = .ok (wireName [97]) := by decide
    exact Except.ok.inj (henc.symm.trans this)
  subst hc
  revert hb
  decide
