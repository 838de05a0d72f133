import HFile.Source.Client
import HFile.Theorems.Download

open Program (Handler)
open Arrival (bytes delivered)

-- The bytes that a process has read from files, in order.
def fileReads (trace : List ((o : SysOp) × o.Res)) : Bytes :=
  trace.flatMap fun
    | ⟨.pread .., got⟩ => got
    | _                => []

section

variable {W : Type} {h : Handler Sys W} {e : Env} {w : W}

-- The frame that the client waits for in a phase.
def okFrame (phase : UInt8) : ResFrame :=
  ⟨phase, statusOk, ProtocolResult.ok.code⟩

theorem wp_clientRecvCheckedResponse {phase : UInt8}
    (hphase : protoResFrameValid (okFrame phase) = true) {Q : Bool → Env → W → Prop}
    (hok : ∀ as, bytes e.inp = (okFrame phase).bytes ++ bytes as →
      delivered e.inp = (okFrame phase).bytes ++ delivered as → Q true { e with inp := as } w)
    (herr : ∀ as, ¬(okFrame phase).bytes <+: delivered e.inp → Q false { e with inp := as } w) :
    Io.wp h (clientRecvCheckedResponse phase) Q e w := by
  rw [clientRecvCheckedResponse, Io.wp_bind, clientRecvResponse, Io.wp_bind]
  refine wp_recvResFrame ?_ fun r as hno => herr as (hno _ hphase)
  intro frame as hv hb hd
  -- Any other frame that is received stands in the place of the one that is waited for.
  have hother : frame ≠ okFrame phase → ¬(okFrame phase).bytes <+: delivered e.inp := by
    intro hne ⟨tail, ht⟩
    exact hne (ResFrame.bytes_injective (List.append_inj (ht.trans hd) rfl).left).symm
  dsimp only
  split
  case isTrue hp => exact herr as (hother fun h => hp (congrArg ResFrame.phase h))
  case isFalse hp =>
    split
    case isTrue hs =>
      split
      case isTrue hc => exact herr as (hother fun h => hc (congrArg ResFrame.errorCode h))
      case isFalse hc =>
        have hframe : frame = okFrame phase := ResFrame.ext (not_not.mp hp) hs (not_not.mp hc)
        rw [Io.wp_pure, Io.wp_pure, clientCheckResponse, hs]
        exact hok as (hframe ▸ hb) (hframe ▸ hd)
    case isFalse hs =>
      have hno := hother fun h => hs (congrArg ResFrame.status h)
      split
      case isTrue => exact herr as hno
      case isFalse =>
        rw [Io.wp_pure, Io.wp_pure, clientCheckResponse, decide_eq_false hs]
        exact herr as hno

-- The header of a request, as the client sends it.
def requestHeader (msgType : UInt8) (payloadSize : UInt64) : ProtocolHeader :=
  { initHeader with msgType := msgType, flags := msgFlagNone, payloadSize := payloadSize }

@[simp]
theorem requestHeader_msgType (msgType : UInt8) (payloadSize : UInt64) :
    (requestHeader msgType payloadSize).msgType = msgType :=
  rfl

theorem wp_clientSendHeaderPayload {msgType : UInt8} {size : UInt64} {payload : Bytes}
    {Q : Bool → Env → W → Prop}
    (hok : ∀ ts, Q true { e with
      snd := ts, out := e.out ++ (encodeHeader (requestHeader msgType size) ++ payload) } w)
    (herr : ∀ sent ts, sent <+: encodeHeader (requestHeader msgType size) ++ payload →
      sent.length < 13 + payload.length → (∃ t ∈ e.snd, ¬t.Benign) →
      Q false { e with snd := ts, out := e.out ++ sent } w) :
    Io.wp h (clientSendHeaderPayload msgType size payload) Q e w := by
  rw [clientSendHeaderPayload]
  split
  case isTrue =>
    rw [Io.wp_bind]
    refine wp_protoSendPayload (fun ts _ _ => ?_) fun r sent ts _ hp hl hr hb _ => ?_
    · exact hok ts
    · rw [Io.wp_pure, decide_eq_false hr]
      exact herr sent ts hp (by simpa using hl) hb
  case isFalse =>
    rw [Io.wp_bind]
    refine wp_protoSendPayload (fun ts hs _ => ?_) fun r sent ts _ hp hl hr hb _ => ?_
    · rw [if_neg (by simp), Io.wp_bind]
      refine wp_protoSendPayload (fun ts' _ _ => ?_) fun r sent ts' _ hp hl hr hb _ => ?_
      · rw [Io.wp_pure, List.append_assoc]
        exact hok ts'
      · rw [Io.wp_pure, decide_eq_false hr, List.append_assoc]
        have ⟨t, ht, hb⟩ := hb
        apply herr _ ts' ((List.prefix_append_right_inj _).mpr hp) _ ⟨t, hs ht, hb⟩
        simpa using hl
    · rw [if_pos hr]
      have hl : sent.length < 13 := hl
      exact herr sent ts (hp.trans (List.prefix_append _ _)) (by omega) hb

-- A payload that is not longer than a file prefix is sent together with its header.
theorem wp_clientSendHeaderPayload_small {msgType : UInt8} {size : UInt64} {payload : Bytes}
    (hl : payload.length ≤ 2 + maxFileNameLen + 8) {Q : Bool → Env → W → Prop}
    (hok : ∀ ts, Transfer.Completes e.snd (13 + payload.length) → Q true { e with
      snd := ts, out := e.out ++ (encodeHeader (requestHeader msgType size) ++ payload) } w)
    (herr : ∀ sent ts, ¬Transfer.Completes e.snd (13 + payload.length) →
      Q false { e with snd := ts, out := e.out ++ sent } w) :
    Io.wp h (clientSendHeaderPayload msgType size payload) Q e w := by
  have hlen : (encodeHeader (requestHeader msgType size) ++ payload).length = 13 + payload.length := by
    simp
  rw [clientSendHeaderPayload, if_pos hl, Io.wp_bind]
  refine wp_protoSendPayload (fun ts _ hc => ?_) fun r sent ts _ _ _ hr _ hc => ?_
  · exact hok ts (hlen ▸ hc)
  · rw [Io.wp_pure, decide_eq_false hr]
    exact herr sent ts (hlen ▸ hc)

theorem wp_clientConnect {Q : Bool → Env → W → Prop}
    (hq : ∀ b fs, Q b { e with faults := fs } w) : Io.wp h clientConnect Q e w := by
  rw [clientConnect, Io.wp_bind]
  exact Io.wp_fault fun f fs => hq _ fs

-- `R w bs` says that `bs` is all that has been read from files so far.
structure Logs (h : Handler Sys W) (R : W → Bytes → Prop) : Prop where
  reads    : ∀ fd, Reads h fd R
  openRead : ∀ {w bs} p b f, R w bs → R (h (.openRead p b f) w).2 bs
  fstat    : ∀ {w bs} fd f, R w bs → R (h (.fstat fd f) w).2 bs
  close    : ∀ {w bs} fd f, R w bs → R (h (.close fd f) w).2 bs

-- The trace of a process tells what it has read.
theorem Handler.traced_logs (hp : ∀ fd off len w, (h (.pread fd off len) w).1.length ≤ len) :
    Logs (Handler.traced h) (fun w bs => fileReads w.2 = bs) where
  reads fd := {
    length_le := fun len _ => hp ..
    step      := fun len hw => by simp [Handler.traced, fileReads, ← hw] }
  openRead p b f hw := by simp [Handler.traced, fileReads, ← hw]
  fstat fd f hw := by simp [Handler.traced, fileReads, ← hw]
  close fd f hw := by simp [Handler.traced, fileReads, ← hw]

-- What a client has done when its upload is reported as successful.
structure FileSent (opt : ClientOpt) (inp : List Arrival) (sent content : Bytes) : Prop where
  name     : protoGetFileNameLen (fsBasenameFromPath opt.path) =
    some (fsBasenameFromPath opt.path).strlen.toUInt16
  small    : content.length ≤ maxFileSize.toNat
  sent     : sent = encodeHeader (requestHeader opt.msgType
      (protoFileTransferPrefixSize (fsBasenameFromPath opt.path).strlen.toUInt16 +
        content.length.toUInt64)) ++
    filePrefix (fsBasenameFromPath opt.path) content.length ++ content
  answered : ∃ rest, bytes inp = ResFrame.readyOk.bytes ++ ResFrame.finalOk.bytes ++ bytes rest

theorem protoGetFileNameLen_eq_some {name : CStr} {len : UInt16}
    (h : protoGetFileNameLen name = some len) :
    name.chars ≠ [] ∧ name.strlen ≤ maxFileNameLen ∧ len = name.strlen.toUInt16 := by
  simp only [protoGetFileNameLen] at h
  split at h
  case isTrue => cases h
  case isFalse hc =>
    have hne : name.chars ≠ [] := fun hn => hc (.inl (List.length_eq_zero_iff.mpr hn))
    exact ⟨hne, by omega, (Option.some.inj h).symm⟩

theorem wp_clientSendFileRaw_transfer {R : W → Bytes → Prop} (hr : Logs h R) (hw : R w [])
    {opt : ClientOpt} {fd : Entry} {len : UInt16}
    (hlen : protoGetFileNameLen (fsBasenameFromPath opt.path) = some len)
    {Q : Bool → Env → W → Prop}
    (hok : ∀ e' w' sent content, e'.out = e.out ++ sent → FileSent opt e.inp sent content →
      R w' content → Q true e' w')
    (herr : ∀ e' w', Q false e' w') :
    Io.wp h (clientSendFileRaw.transfer fd (fsBasenameFromPath opt.path) len opt.msgType) Q e w := by
  obtain ⟨hne, hle, rfl⟩ := protoGetFileNameLen_eq_some hlen
  rw [clientSendFileRaw.transfer]
  split
  case isTrue => exact herr _ _
  case isFalse =>
    rw [Io.wp_bind, clientGetFileSize, Io.wp_bind]
    refine Io.wp_fault fun f fs => ?_
    rw [Io.wp_bind, Io.wp_sys]
    have hw₁ := hr.fstat fd f hw
    cases (h (.fstat fd f) w).1
    case none => exact herr _ _
    case some info =>
      rw [Io.wp_pure]
      split
      case h_1 => exact herr _ _
      case h_2 size hsize =>
        split
        case isTrue => exact herr _ _
        case isFalse hmax =>
          rw [Io.wp_bind]
          refine wp_clientConnect fun b fs' => ?_
          cases b
          case false => exact herr _ _
          case true =>
            have hp : encodeFilePrefix (fsBasenameFromPath opt.path) size =
                .ok (filePrefix (fsBasenameFromPath opt.path) size.toNat) := by
              simpa using encodeFilePrefix_eq size.toNat hne hle
            rw [hp]
            refine Io.wp_bind.mpr (wp_clientSendHeaderPayload (fun ts => ?_) fun _ _ _ _ _ => herr _ _)
            refine Io.wp_bind.mpr (wp_clientRecvCheckedResponse ResFrame.readyOk_valid
              (fun as hready _ => ?_) fun _ _ => herr _ _)
            rw [clientSendFileBody]
            refine Io.wp_bind.mpr (Io.wp_bind.mpr ?_)
            refine wp_netSendFileBestEffort (hr.reads fd) hw₁ fun r body src snd allocs w' hbody _ => ?_
            obtain ⟨content, hw', _, hfull⟩ := hbody.reads
            by_cases hr' : r = .ok
            case neg =>
              rw [Io.wp_pure, decide_eq_false hr']
              exact herr _ _
            case pos =>
              rw [Io.wp_pure, decide_eq_true hr']
              cases hfull hr'
              refine wp_clientRecvCheckedResponse ResFrame.finalOk_valid (fun as' hfinal _ => ?_)
                fun _ _ => herr _ _
              have hlen' := hbody.full hr'
              have hready : bytes e.inp = ResFrame.readyOk.bytes ++ bytes as := hready
              have hfinal : bytes as = ResFrame.finalOk.bytes ++ bytes as' := hfinal
              refine hok _ _ (_ ++ body) body (List.append_assoc ..) ⟨hlen, ?_, ?_, as', ?_⟩ hw'
              · rw [hlen']
                exact UInt64.le_iff_toNat_le.mp (UInt64.not_lt.mp hmax)
              · simp [hlen', requestHeader]
              · rw [hready, hfinal, List.append_assoc]

theorem wp_clientSendFileRaw {R : W → Bytes → Prop} (hr : Logs h R) (hw : R w []) (opt : ClientOpt) :
    Io.wp h (clientSendFileRaw opt) (fun code e' w' => code = 0 → ∃ sent content,
      e'.out = e.out ++ sent ∧ FileSent opt e.inp sent content ∧ R w' content) e w := by
  rw [clientSendFileRaw]
  split
  case h_1 => simp
  case h_2 len hlen =>
    rw [Io.wp_bind]
    refine Io.wp_fault fun f fs => ?_
    rw [Io.wp_bind, Io.wp_sys]
    have hw₁ := hr.openRead opt.path false f hw
    cases (h (.openRead opt.path false f) w).1
    case error => simp
    case ok fd =>
      refine Io.wp_bind.mpr (wp_clientSendFileRaw_transfer hr hw₁ hlen ?_ ?_)
      · intro e' w' sent content hout hsent hw'
        rw [Io.wp_bind, Io.wp_discard, fsClose, Io.wp_bind]
        refine Io.wp_fault fun f' fs' => ?_
        exact fun _ => ⟨sent, content, hout, hsent, hr.close fd f' hw'⟩
      · intro e' w'
        rw [Io.wp_bind, Io.wp_discard, fsClose, Io.wp_bind]
        refine Io.wp_fault fun f' fs' => ?_
        exact fun hcode => absurd hcode (by simp)

theorem wp_clientSendMessage (opt : ClientOpt) :
    Io.wp h (clientSendMessage opt) (fun code e' _ => code = 0 →
      opt.message.strlen ≤ maxTextMessageSize ∧
      e'.out = e.out ++ (encodeHeader (requestHeader msgTypeTextMessage
        opt.message.strlen.toUInt64) ++ opt.message.chars) ∧
      ∃ rest, bytes e.inp = ResFrame.finalOk.bytes ++ bytes rest) e w := by
  rw [clientSendMessage]
  split
  case isTrue => simp
  case isFalse hmax =>
    rw [Io.wp_bind]
    refine wp_clientConnect fun b fs => ?_
    cases b
    case false => simp
    case true =>
      refine Io.wp_bind.mpr (wp_clientSendHeaderPayload (fun ts => ?_) fun _ _ _ _ _ => by simp)
      refine Io.wp_bind.mpr (wp_clientRecvCheckedResponse ResFrame.finalOk_valid
        (fun as hfinal _ => ?_) fun _ _ => by simp)
      exact fun _ => ⟨by omega, rfl, as, hfinal⟩

end
