import HFile.Theorems.Upload

open Program (Handler)
open Arrival (bytes delivered)

-- A file system whose files only ever get shorter while they are served: `content fd` is what the
-- descriptor `fd` refers to when it is opened, and `inv` holds as long as nothing else happens to it.
structure Shrinks (h : Handler Sys W) (inv : W → Prop) (content : Entry → Bytes) : Prop where
  openRead : ∀ {w} p b f, inv w → inv (h (.openRead p b f) w).2
  fstat : ∀ {w} fd f, inv w → inv (h (.fstat fd f) w).2
  pread : ∀ {w} fd off len, inv w → inv (h (.pread fd off len) w).2
  close : ∀ {w} fd f, inv w → inv (h (.close fd f) w).2
  size : ∀ {w} fd f info, inv w → (h (.fstat fd f) w).1 = some info → info.kind = .file →
    info.size = (content fd).length ∧ info.size < 2 ^ 63
  read : ∀ {w} fd off len, inv w →
    (h (.pread fd off len) w).1 <+: ((content fd).drop off).take len

namespace Shrinks

variable {h : Handler Sys W} {inv : W → Prop} {content : Entry → Bytes}

theorem reads (hs : Shrinks h inv content) (fd : Entry) :
    Reads h fd (fun w bs => inv w ∧ bs <+: content fd) where
  length_le {w bs} len hw :=
    (hs.read fd bs.length len hw.left).length_le.trans (List.length_take_le _ _)
  step {w bs} len hw := by
    refine ⟨hs.pread fd _ len hw.left, ?_⟩
    obtain ⟨tail, ht⟩ := hw.right
    have hr := hs.read fd bs.length len hw.left
    rw [← ht, List.drop_left] at hr
    rw [← ht]
    exact (List.prefix_append_right_inj bs).mpr (hr.trans (List.take_prefix _ _))

end Shrinks

-- A file system on which nobody else works.
theorem World.shrinks (w : World) : Shrinks World.handle (· = w) w.files.content where
  openRead p b f hw := by
    simp only [World.handle]
    split
    · exact hw
    · split <;> exact hw
  fstat fd f hw := by
    simp only [World.handle]
    split <;> exact hw
  pread fd off len hw := by
    simp only [World.handle]
    split <;> exact hw
  close fd f hw := hw
  size fd f info hw hi hk := by
    subst hw
    cases f <;> simp only [World.handle, reduceCtorEq] at hi
    simp only [Files.stat] at hi
    split at hi
    case isTrue hlt =>
      cases hi
      cases fd <;> simp_all [Files.info, Files.content]
    case isFalse => cases hi
  read fd off len hw := by
    subst hw
    cases fd
    case file i => exact List.prefix_rfl
    all_goals exact List.nil_prefix

-- The name of a download that has been received.
structure Env.Name (e : Env) (raw : Bytes) (rest : List Arrival) : Prop extends Env.HasName e where
  raw_length   : raw.length = e.nameLen
  bytes_eq     : bytes e.inp = wireName raw ++ bytes rest
  delivered_eq : delivered e.inp = wireName raw ++ delivered rest

-- The name and the size that stand before the content in an answer.
def filePrefix (name : CStr) (size : Nat) : Bytes :=
  wireName name.chars ++ encodeU64Be size.toUInt64

-- A request for which `server_handle_get_file` opens the file `fd`.
structure Opens (h : Handler Sys W) (opt : ServerOpt) (header : ProtocolHeader) (e : Env) (w : W)
    (raw : Bytes) (fd : Entry) : Prop where
  name    : ∃ rest, e.Name raw rest
  valid   : fsValidateFileName (.ofBuf raw) = true
  payload : header.payloadSize = protoFileNameOnlySize (CStr.ofBuf raw).strlen.toUInt16
  opened  : ∃ path f, fsJoinRelativePath pathCap opt.path (.ofBuf raw) = some path ∧
    (h (.openRead path true f) w).1 = .ok fd

-- Everything that `server_handle_get_file` can send.
inductive DownloadRun (h : Handler Sys W) (content : Entry → Bytes) (opt : ServerOpt)
    (header : ProtocolHeader) (e : Env) (w : W) : Bytes → Prop
  | rejected :
    code ≠ .ok → Sends e.snd (ResFrame.readyRejected code).bytes sent →
    DownloadRun h content opt header e w sent
  | unready :
    Opens h opt header e w raw fd →
    Sends e.snd (ResFrame.readyOk.bytes ++ filePrefix (.ofBuf raw) (content fd).length) sent →
    sent ≠ ResFrame.readyOk.bytes ++ filePrefix (.ofBuf raw) (content fd).length →
    DownloadRun h content opt header e w sent
  | broken :
    Opens h opt header e w raw fd → (content fd).length < 2 ^ 63 → body <+: content fd → body.length < (content fd).length →
    Sends e.snd (ResFrame.finalFailed .errIo).bytes sent →
    DownloadRun h content opt header e w
      (ResFrame.readyOk.bytes ++ filePrefix (.ofBuf raw) (content fd).length ++ body ++ sent)
  | served :
    Opens h opt header e w raw fd → (content fd).length < 2 ^ 63 → Sends e.snd ResFrame.finalOk.bytes sent →
    DownloadRun h content opt header e w
      (ResFrame.readyOk.bytes ++ filePrefix (.ofBuf raw) (content fd).length ++ content fd ++ sent)

section

variable {W : Type} {h : Handler Sys W} {inv : W → Prop} {content : Entry → Bytes} {e : Env} {w : W}

-- A name that passes the check fits the fields of an answer.
theorem encodeFilePrefix_eq {name : CStr} (size : Nat) (hn : name.chars ≠ [])
    (hl : name.strlen ≤ maxFileNameLen) :
    encodeFilePrefix name size.toUInt64 = .ok (filePrefix name size) := by
  have hpos : name.strlen ≠ 0 := fun h => hn (List.length_eq_zero_iff.mp h)
  have hlen : protoGetFileNameLen name = some name.strlen.toUInt16 := by
    rw [protoGetFileNameLen, if_neg (by omega)]
  simp [encodeFilePrefix, hlen, filePrefix, wireName, CStr.strlen]

theorem wp_serverHandleGetFile_send (hs : Shrinks h inv content) (hw : inv w) {name : CStr}
    {download : AppDownload} (hn : name.chars ≠ []) (hl : name.strlen ≤ maxFileNameLen)
    (hsize : download.info.size = (content download.fd).length) (hlt : download.info.size < 2 ^ 63)
    {Q : ProtocolResult → Env → W → Prop}
    (hunready : ∀ r sent ts w', inv w' →
      Sends e.snd (ResFrame.readyOk.bytes ++ filePrefix name (content download.fd).length) sent →
      sent ≠ ResFrame.readyOk.bytes ++ filePrefix name (content download.fd).length →
      Q r { e with snd := ts, out := e.out ++ sent } w')
    (hbroken : ∀ r body sent src snd allocs w', inv w' → body <+: content download.fd →
      body.length < (content download.fd).length →
      Sends e.snd (ResFrame.finalFailed .errIo).bytes sent →
      Q r { e with src := src, snd := snd, allocs := allocs, out := e.out ++
        (ResFrame.readyOk.bytes ++ filePrefix name (content download.fd).length ++ body ++ sent) } w')
    (hserved : ∀ r sent src snd allocs w', inv w' → Sends e.snd ResFrame.finalOk.bytes sent →
      Q r { e with src := src, snd := snd, allocs := allocs, out := e.out ++
        (ResFrame.readyOk.bytes ++ filePrefix name (content download.fd).length ++
          content download.fd ++ sent) } w') :
    Io.wp h (serverHandleGetFile.send name download) Q e w := by
  have htoNat : download.info.size.toUInt64.toNat = (content download.fd).length := by
    rw [← hsize]
    simp only [Nat.toUInt64_eq, UInt64.toNat_ofNat']
    omega
  have hready : encodeResFrame ⟨phaseReady, statusOk, ProtocolResult.ok.code⟩ =
    .ok ResFrame.readyOk.bytes := rfl
  rw [serverHandleGetFile.send, hready, encodeFilePrefix_eq _ hn hl, hsize]
  dsimp only
  rw [Io.wp_bind]
  refine wp_protoSendPayload_sends fun r sent ts hts hsent hr => ?_
  split
  case isTrue hne => exact hunready _ _ _ _ hw hsent fun h => hne (hr.mpr h)
  case isFalse hok =>
    cases hr.mp (not_not.mp hok)
    rw [Io.wp_bind]
    refine wp_netSendFileBestEffort (hs.reads download.fd) ⟨hw, List.nil_prefix⟩ ?_
    intro r' body src snd allocs w' hbody hsnd
    rw [← hsize] at hbody
    rw [htoNat] at hbody
    obtain ⟨got, ⟨hinv, hgot⟩, hp, hfull⟩ := hbody.reads
    split
    case isTrue hne =>
      rw [Io.wp_bind, Io.wp_discard]
      refine wp_sendResFrame_sends (ResFrame.finalFailed_valid (by simp)) ?_
      intro _ sent' ts' _ hsent' _
      have := hbroken .errIo body sent' src ts' allocs w' hinv (hp.trans hgot) (hbody.short hne)
        (hsent'.mono (List.Subset.trans hsnd hts))
      simpa only [List.append_assoc, Io.wp_pure] using this
    case isFalse hok' =>
      have hok' := not_not.mp hok'
      have hbody' : body = content download.fd :=
        (hp.trans hgot).eq_of_length (hbody.full hok')
      cases hbody'
      refine wp_sendResFrame_sends ResFrame.finalOk_valid ?_
      intro r'' sent' ts' _ hsent' _
      have := hserved r'' sent' src ts' allocs w' hinv (hsent'.mono (List.Subset.trans hsnd hts))
      simpa only [List.append_assoc] using this

theorem wp_appPrepareDownload (hs : Shrinks h inv content) (hw : inv w) {baseDir name : CStr}
    {Q : Except ProtocolResult AppDownload → Env → W → Prop}
    (herr : ∀ r fs w', r ≠ .ok → inv w' → Q (.error r) { e with faults := fs } w')
    (hok : ∀ d path f fs w', fsJoinRelativePath pathCap baseDir name = some path →
      (h (.openRead path true f) w).1 = .ok d.fd → d.info.size = (content d.fd).length →
      d.info.size < 2 ^ 63 → inv w' → Q (.ok d) { e with faults := fs } w') :
    Io.wp h (appPrepareDownload baseDir name) Q e w := by
  rw [appPrepareDownload]
  split
  case h_1 => exact herr _ e.faults _ (by simp) hw
  case h_2 path hp =>
    rw [Io.wp_bind]
    refine Io.wp_fault fun f fs => ?_
    rw [Io.wp_bind, Io.wp_sys]
    have hw₁ := hs.openRead path true f hw
    cases ho : (h (.openRead path true f) w).1
    case error => exact herr _ fs _ (by simp) hw₁
    case ok fd =>
      dsimp only
      rw [Io.wp_bind]
      refine Io.wp_fault fun f' fs' => ?_
      rw [Io.wp_bind, Io.wp_sys]
      have hw₂ := hs.fstat fd f' hw₁
      cases hi : (h (.fstat fd f') (h (.openRead path true f) w).2).1
      case none =>
        dsimp only
        rw [Io.wp_bind, Io.wp_discard, fsClose, Io.wp_bind]
        refine Io.wp_fault fun f'' fs'' => ?_
        exact herr _ fs'' _ (by simp) (hs.close fd f'' hw₂)
      case some info =>
        dsimp only
        split
        case isTrue =>
          rw [Io.wp_bind, Io.wp_discard, fsClose, Io.wp_bind]
          refine Io.wp_fault fun f'' fs'' => ?_
          exact herr _ fs'' _ (by simp) (hs.close fd f'' hw₂)
        case isFalse hk =>
          obtain ⟨hsize, hlt⟩ := hs.size fd f' info hw₁ hi (not_not.mp hk)
          exact hok ⟨fd, info⟩ path f fs' _ hp ho hsize hlt hw₂

theorem wp_serverHandleGetFile (hs : Shrinks h inv content) (hw : inv w) (opt : ServerOpt)
    (header : ProtocolHeader) : Io.wp h (serverHandleGetFile opt header) (fun _ e' w' =>
      inv w' ∧ ∃ sent, e'.out = e.out ++ sent ∧ DownloadRun h content opt header e w sent) e w := by
  -- All of the rejections end in the same way.
  have hreject : ∀ {r e₁ w₁}, r ≠ .ok → inv w₁ → e₁.snd = e.snd → e₁.out = e.out →
      Io.wp h (do
        discard <| serverSendResponse phaseReady statusRejected r
        return r) (fun _ e' w' => inv w' ∧ ∃ sent, e'.out = e.out ++ sent ∧
          DownloadRun h content opt header e w sent) e₁ w₁ := by
    intro r e₁ w₁ hr hw₁ hsnd hout
    rw [Io.wp_bind, Io.wp_discard]
    refine wp_sendResFrame_sends (ResFrame.readyRejected_valid hr) ?_
    intro _ sent ts _ hsent _
    rw [Io.wp_pure]
    exact ⟨hw₁, sent, by rw [hout], .rejected hr (hsnd ▸ hsent)⟩
  rw [serverHandleGetFile]
  split
  case isTrue => exact hreject (by simp) hw rfl rfl
  case isFalse =>
    rw [Io.wp_bind]
    refine wp_protoRecvFileNameOnly ?_ ?_
    case refine_2 => exact fun r as al _ hr => hreject hr hw rfl rfl
    case refine_1 =>
      intro raw as al hn hl hb hd
      dsimp only
      split
      case isTrue => exact hreject (by simp) hw rfl rfl
      case isFalse hv =>
        have hv : fsValidateFileName (.ofBuf raw) = true := by simpa using hv
        split
        case isTrue => exact hreject (by simp) hw rfl rfl
        case isFalse hm =>
          rw [Io.wp_bind]
          refine wp_appPrepareDownload hs hw ?_ ?_
          case refine_1 =>
            intro r fs w' hr hw'
            refine hreject ?_ hw' rfl rfl
            split
            · simp
            · exact hr
          case refine_2 =>
            intro d path f fs w' hp ho hsize hlt hw'
            have hopen : Opens h opt header e w raw d.fd :=
              ⟨⟨as, hn, hl, hb, hd⟩, hv, not_not.mp hm, path, f, hp, ho⟩
            have hne : (CStr.ofBuf raw).chars ≠ [] := by
              simp only [fsValidateFileName, decide_eq_true_eq] at hv
              exact hv.left
            have hle : (CStr.ofBuf raw).strlen ≤ maxFileNameLen :=
              (CStr.strlen_ofBuf_le raw).trans (hl ▸ hn.le)
            dsimp only
            rw [Io.wp_bind]
            refine wp_serverHandleGetFile_send hs hw' hne hle hsize hlt ?_ ?_ ?_
            · intro r sent ts w'' hw'' hsent hns
              rw [Io.wp_bind, appDownloadCleanup, Io.wp_discard, fsClose, Io.wp_bind]
              refine Io.wp_fault fun f' fs' => ?_
              exact ⟨hs.close d.fd f' hw'', sent, rfl, .unready hopen hsent hns⟩
            · intro r body sent src snd allocs w'' hw'' hbody hshort hsent
              rw [Io.wp_bind, appDownloadCleanup, Io.wp_discard, fsClose, Io.wp_bind]
              refine Io.wp_fault fun f' fs' => ?_
              exact ⟨hs.close d.fd f' hw'', _, rfl, .broken hopen (hsize ▸ hlt) hbody hshort hsent⟩
            · intro r sent src snd allocs w'' hw'' hsent
              rw [Io.wp_bind, appDownloadCleanup, Io.wp_discard, fsClose, Io.wp_bind]
              refine Io.wp_fault fun f' fs' => ?_
              exact ⟨hs.close d.fd f' hw'', _, rfl, .served hopen (hsize ▸ hlt) hsent⟩

end
