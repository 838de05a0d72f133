import HFile.Theorems.Alike
import HFile.Theorems.Integrity
import HFile.Theorems.Messages
import HFile.Theorems.Names

open Program (Handler)
open Arrival (bytes delivered)

-- A process for which no call fails, although some of them are interrupted or get only a part done.
structure Env.Unfailing (e : Env) : Prop where
  allocates   : e.Allocates
  sends       : ∀ t ∈ e.snd, t.Benign
  reads       : ∀ t ∈ e.src, t.Benign
  writes      : ∀ t ∈ e.wr, t.Benign
  interrupted : Arrival.OnlyInterrupted e.inp
  direct      : e.direct = []
  faults      : ∀ f ∈ e.faults, f = none

-- Such a process has sent and received some bytes, and nothing has failed.
structure Env.Goes (e : Env) (sent taken : Bytes) (e' : Env) : Prop where
  unfailing : e'.Unfailing
  pid       : e'.pid = e.pid
  out       : e'.out = e.out ++ sent
  inp       : bytes e.inp = taken ++ bytes e'.inp

namespace Env

variable {e e' e'' : Env} {sent sent' taken taken' : Bytes}

theorem Unfailing.calm (pid : Nat) {inp : List Arrival} (h : Arrival.OnlyInterrupted inp) :
    (Env.calm pid inp).Unfailing where
  allocates _ hb := absurd hb List.not_mem_nil
  sends _ ht     := absurd ht List.not_mem_nil
  reads _ ht     := absurd ht List.not_mem_nil
  writes _ ht    := absurd ht List.not_mem_nil
  interrupted    := h
  direct         := rfl
  faults _ hf    := absurd hf List.not_mem_nil

theorem Goes.refl (he : e.Unfailing) : e.Goes [] [] e :=
  ⟨he, rfl, (List.append_nil _).symm, rfl⟩

theorem Goes.trans (h : e.Goes sent taken e') (h' : e'.Goes sent' taken' e'') :
    e.Goes (sent ++ sent') (taken ++ taken') e'' where
  unfailing := h'.unfailing
  pid       := h'.pid.trans h.pid
  out       := by rw [h'.out, h.out, List.append_assoc]
  inp       := by rw [h.inp, h'.inp, List.append_assoc]

-- What comes next once the bytes that are taken are known.
theorem Goes.rest (h : e.Goes sent taken e') (hin : bytes e.inp = taken ++ tail) : bytes e'.inp = tail :=
  List.append_cancel_left (h.inp.symm.trans hin)

end Env

section

variable {W : Type} {h : Handler Sys W} {e : Env} {w : W}

theorem wp_fault_of_unfailing (he : e.Unfailing) {Q : Option Errno → Env → W → Prop}
    (hq : ∀ e', e.Goes [] [] e' → Q none e' w) : Io.wp h Io.fault Q e w := by
  have hf : e.faults.headD none = none := by
    cases hfs : e.faults
    case nil  => rfl
    case cons f fs => exact he.faults f (by simp [hfs])
  have hfs : ∀ f ∈ e.faults.tail, f = none := fun f hm => he.faults f (List.mem_of_mem_tail hm)
  rw [Io.wp_fault_iff, hf]
  exact hq _ ⟨{ he with faults := hfs }, rfl, (List.append_nil _).symm, rfl⟩

theorem wp_malloc_of_unfailing (he : e.Unfailing) {Q : Bool → Env → W → Prop}
    (hq : ∀ e', e.Goes [] [] e' → Q true e' w) : Io.wp h Io.malloc Q e w := by
  apply wp_malloc_of_allocates he.allocates
  intro as has
  exact hq _ ⟨{ he with allocates := has }, rfl, (List.append_nil _).symm, rfl⟩

theorem wp_recvAll_of_unfailing (he : e.Unfailing) {bs tail : Bytes} (hin : bytes e.inp = bs ++ tail)
    {Q : Option Bytes → Env → W → Prop} (hq : ∀ e', e.Goes [] bs e' → Q (some bs) e' w) :
    Io.wp h (recvAll bs.length) Q e w := by
  obtain ⟨as, hrun, hb, has⟩ := recvAll.loop_eq bs.length he.interrupted
  rw [hin, List.take_left] at hrun
  rw [hin, List.drop_left] at hb
  have hwp : Io.wp h (recvAll bs.length) Q e w ↔ Q (some bs) { e with inp := as } w := by
    rw [Io.wp, StateT.run, recvAll, hrun]
    rfl
  apply hwp.mpr
  exact hq _ ⟨{ he with interrupted := has }, rfl, (List.append_nil _).symm, hin.trans (congrArg _ hb.symm)⟩

theorem wp_protoSendPayload_of_unfailing (he : e.Unfailing) {payload : Bytes} {Q : ProtocolResult → Env → W → Prop}
    (hq : ∀ e', e.Goes payload [] e' → Q .ok e' w) : Io.wp h (protoSendPayload payload) Q e w := by
  apply wp_protoSendPayload_sends
  intro r sent ts hts hs hr
  cases hs.eq_of_benign he.sends
  rw [hr.mpr rfl]
  exact hq _ ⟨{ he with sends := fun t ht => he.sends t (hts ht) }, rfl, rfl, rfl⟩

theorem wp_sendResFrame_of_unfailing (he : e.Unfailing) {frame : ResFrame} (hv : protoResFrameValid frame = true)
    {Q : ProtocolResult → Env → W → Prop} (hq : ∀ e', e.Goes frame.bytes [] e' → Q .ok e' w) :
    Io.wp h (sendResFrame frame) Q e w := by
  rw [sendResFrame, encodeResFrame_eq hv]
  exact wp_protoSendPayload_of_unfailing he hq

theorem wp_httpSendAll_of_unfailing (he : e.Unfailing) {bs : Bytes} {Q : Bool → Env → W → Prop}
    (hq : ∀ e', e.Goes bs [] e' → Q true e' w) : Io.wp h (httpSendAll bs) Q e w := by
  apply wp_httpSendAll
  intro b sent ts hts _ hsent hall
  cases hall he.sends
  cases hsent rfl
  exact hq _ ⟨{ he with sends := fun t ht => he.sends t (hts ht) }, rfl, rfl, rfl⟩

theorem wp_recvHeader_of_unfailing (he : e.Unfailing) {buf tail : Bytes} (hl : buf.length = headerSize)
    (hin : bytes e.inp = buf ++ tail) {Q : Except ProtocolResult Bytes → Env → W → Prop}
    (hq : ∀ e', e.Goes [] buf e' → Q (.ok buf) e' w) : Io.wp h recvHeader Q e w := by
  rw [recvHeader, ← hl, Io.wp_bind]
  apply wp_recvAll_of_unfailing he hin
  intro e' hg
  dsimp only
  rw [if_neg (Nat.lt_irrefl _)]
  exact hq e' hg

theorem wp_protoRecvFileNameOnly_of_unfailing (he : e.Unfailing) {name : CStr} {tail : Bytes}
    (hpos : 0 < name.strlen) (hle : name.strlen ≤ maxFileNameLen) (hin : bytes e.inp = wireName name.chars ++ tail)
    {Q : Except ProtocolResult CStr → Env → W → Prop}
    (hq : ∀ e', e.Goes [] (wireName name.chars) e' → Q (.ok name) e' w) : Io.wp h protoRecvFileNameOnly Q e w := by
  have hlen : name.chars.length.toUInt16.toNat = name.chars.length :=
    Nat.mod_eq_of_lt (Nat.lt_of_le_of_lt hle (by decide))
  have hdec : decodeU16Be (encodeU16Be name.chars.length.toUInt16) = name.chars.length.toUInt16 := by
    simpa using decodeU16Be_encodeU16Be name.chars.length.toUInt16 []
  rw [wireName, List.append_assoc] at hin
  rw [protoRecvFileNameOnly, ← length_encodeU16Be name.chars.length.toUInt16, Io.wp_bind]
  apply wp_recvAll_of_unfailing he hin
  intro e₁ h₁
  have hbounds : ¬(name.chars.length.toUInt16 = 0 ∨ name.chars.length.toUInt16.toNat > maxFileNameLen) := by
    rw [← UInt16.toNat_inj, hlen, UInt16.toNat_zero]
    rw [CStr.strlen] at hpos hle
    omega
  dsimp only
  rw [if_neg (not_not.mpr rfl), hdec, if_neg hbounds, hlen, Io.wp_bind]
  apply wp_malloc_of_unfailing h₁.unfailing
  intro e₂ h₂
  rw [if_neg (by simp), Io.wp_bind]
  apply wp_recvAll_of_unfailing h₂.unfailing (h₂.rest (h₁.rest hin))
  intro e₃ h₃
  dsimp only
  rw [if_neg (not_not.mpr rfl), CStr.ofBuf_chars]
  exact hq e₃ ((h₁.trans h₂).trans h₃)

theorem wp_protoRecvFileTransferPrefix_of_unfailing (he : e.Unfailing) {name : CStr} {size : Nat} {tail : Bytes}
    (hpos : 0 < name.strlen) (hle : name.strlen ≤ maxFileNameLen) (hin : bytes e.inp = filePrefix name size ++ tail)
    {Q : Except ProtocolResult (CStr × UInt64) → Env → W → Prop}
    (hq : ∀ e', e.Goes [] (filePrefix name size) e' → Q (.ok (name, size.toUInt64)) e' w) :
    Io.wp h protoRecvFileTransferPrefix Q e w := by
  have hdec : decodeU64Be (encodeU64Be size.toUInt64) = size.toUInt64 := by
    simpa using decodeU64Be_encodeU64Be size.toUInt64 []
  rw [filePrefix, List.append_assoc] at hin
  rw [protoRecvFileTransferPrefix, ← length_encodeU64Be size.toUInt64, Io.wp_bind]
  apply wp_protoRecvFileNameOnly_of_unfailing he hpos hle hin
  intro e₁ h₁
  dsimp only
  rw [Io.wp_bind]
  apply wp_recvAll_of_unfailing h₁.unfailing (h₁.rest hin)
  intro e₂ h₂
  dsimp only
  rw [if_neg (not_not.mpr rfl), hdec]
  exact hq e₂ (h₁.trans h₂)

theorem wp_clientConnect_of_unfailing (he : e.Unfailing) {Q : Bool → Env → W → Prop}
    (hq : ∀ e', e.Goes [] [] e' → Q true e' w) : Io.wp h clientConnect Q e w := by
  rw [clientConnect, Io.wp_bind]
  exact wp_fault_of_unfailing he hq

theorem wp_clientSendHeaderPayload_of_unfailing (he : e.Unfailing) {msgType : UInt8} {size : UInt64} {payload : Bytes}
    (hl : payload.length ≤ 2 + maxFileNameLen + 8) {Q : Bool → Env → W → Prop}
    (hq : ∀ e', e.Goes (encodeHeader (requestHeader msgType size) ++ payload) [] e' → Q true e' w) :
    Io.wp h (clientSendHeaderPayload msgType size payload) Q e w := by
  rw [clientSendHeaderPayload, if_pos hl, Io.wp_bind]
  exact wp_protoSendPayload_of_unfailing he hq

theorem wp_clientRecvCheckedResponse_of_unfailing (he : e.Unfailing) {phase : UInt8} {tail : Bytes}
    (hphase : protoResFrameValid (okFrame phase) = true) (hin : bytes e.inp = (okFrame phase).bytes ++ tail)
    {Q : Bool → Env → W → Prop} (hq : ∀ e', e.Goes [] (okFrame phase).bytes e' → Q true e' w) :
    Io.wp h (clientRecvCheckedResponse phase) Q e w := by
  have hl : resFrameSize = (okFrame phase).bytes.length := rfl
  rw [clientRecvCheckedResponse, Io.wp_bind, clientRecvResponse, Io.wp_bind, recvResFrame, hl, Io.wp_bind]
  apply wp_recvAll_of_unfailing he hin
  intro e' hg
  dsimp only
  rw [if_neg (Nat.lt_irrefl _), decodeResFrame_bytes hphase, Io.wp_pure]
  dsimp only
  have hp : ¬(okFrame phase).phase ≠ phase := not_not.mpr rfl
  have hs : (okFrame phase).status = statusOk := rfl
  have hc : ¬(okFrame phase).errorCode ≠ ProtocolResult.ok.code := not_not.mpr rfl
  rw [if_neg hp, if_pos hs, if_neg hc]
  exact hq e' hg

end

section

variable {e : Env} {w : World} {i : Nat}

theorem wp_fsClose_of_unfailing (he : e.Unfailing) {fd : Entry} {Q : Bool → Env → World → Prop}
    (hq : ∀ e', e.Goes [] [] e' → Q true e' w) : Io.wp World.handle (fsClose fd) Q e w := by
  rw [fsClose, Io.wp_bind]
  exact wp_fault_of_unfailing he hq

-- All that is left of the file is sent.
theorem netSendFileAll.run {ts : List Transfer} (ht : ∀ t ∈ ts, t.Benign) {offset remaining : Nat}
    (hl : offset + remaining = (w.files.data i).length) :
    ∃ ts', (netSendFileAll.loop (.file i) ts offset remaining).run World.handle w =
      ((.ok, (w.files.data i).drop offset, ts'), w) ∧ ts' ⊆ ts := by
  fun_induction netSendFileAll.loop (.file i) ts offset remaining
  case case1 ts offset =>
    rw [List.drop_eq_nil_of_le (Nat.add_zero offset ▸ hl.ge)]
    exact ⟨ts, rfl, List.Subset.refl _⟩
  case case2 ts offset remaining hn f ts' hnext hc =>
    have hf : f = .EINTR := ht (.fail f) (by simp [Transfer.next_fail hnext])
    rw [hf] at hc
    exact absurd hc.left (by decide)
  case case3 ts offset remaining hn ts' hnext hc hi =>
    have hsub := Transfer.next_subset hnext
    obtain ⟨ts'', hrun, hs⟩ := hi (fun t h => ht t (hsub h)) hl
    exact ⟨ts'', hrun, List.Subset.trans hs hsub⟩
  case case4 ts offset remaining hn f ts' hnext hc hf =>
    exact absurd (ht (.fail f) (by simp [Transfer.next_fail hnext])) hf
  case case5 ts offset remaining hn n ts' hnext hi =>
    have hsub := Transfer.next_subset hnext
    have hpos : 0 < n := by
      cases ts
      case nil       => cases hnext; omega
      case cons t ts => cases hnext; exact ht (.moves n) List.mem_cons_self
    have hread : World.handle (.pread (.file i) offset (min n remaining)) w =
        (((w.files.data i).drop offset).take (min n remaining), w) := rfl
    rw [Program.run_bind, Program.perform, Program.run_call, Program.run_ret, hread]
    dsimp only
    generalize hgot : ((w.files.data i).drop offset).take (min n remaining) = got
    have hlen : got.length = min n remaining := by
      rw [← hgot, List.length_take, List.length_drop]
      omega
    have hg : got ≠ [] := List.ne_nil_of_length_pos (by omega)
    obtain ⟨ts'', hrun, hs⟩ := hi got hg (fun t h => ht t (hsub h)) (by omega)
    have hsplit : (w.files.data i).drop offset = got ++ (w.files.data i).drop (offset + got.length) := by
      rw [← List.drop_drop, hlen, ← hgot, List.take_append_drop]
    rw [dif_neg hg, Program.run_bind, hrun, hsplit]
    exact ⟨ts'', rfl, List.Subset.trans hs hsub⟩

theorem wp_netSendFileBestEffort_of_unfailing (he : e.Unfailing) {content : Bytes} (hd : w.files.data i = content)
    (hlt : content.length < 2 ^ 64) {Q : NetSendFileResult → Env → World → Prop}
    (hq : ∀ e', e.Goes content [] e' → Q .ok e' w) :
    Io.wp World.handle (netSendFileBestEffort (.file i) content.length.toUInt64) Q e w := by
  have hsize : content.length.toUInt64.toNat = content.length := Nat.mod_eq_of_lt hlt
  have hall : 0 + content.length = (w.files.data i).length := by rw [hd, Nat.zero_add]
  obtain ⟨ts, hrun, hs⟩ := netSendFileAll.run he.reads hall
  rw [netSendFileBestEffort, Io.wp_bind, Io.wp, StateT.run, netSendFileAll, Program.wp_bind, hsize, Program.wp, hrun,
    hd]
  exact hq _ ⟨{ he with reads := fun t ht => he.reads t (hs ht) }, rfl, rfl, rfl⟩

theorem wp_netRecvFileAll_of_unfailing (he : e.Unfailing) {content tail : Bytes}
    (hlt : content.length < 2 ^ 64) (hin : bytes e.inp = content ++ tail) (ht : w.Takes i content)
    {Q : NetRecvFileResult → Env → World → Prop}
    (hq : ∀ e', e.Goes [] content e' → Q .ok e' (w.appended i content)) :
    Io.wp World.handle (netRecvFileAll i content.length.toUInt64) Q e w := by
  have hsize : content.length.toUInt64.toNat = content.length := Nat.mod_eq_of_lt hlt
  rw [netRecvFileAll]
  split
  case isTrue hz =>
    have hnil : content = [] := List.length_eq_zero_iff.mp (hsize.symm.trans (congrArg UInt64.toNat hz))
    subst hnil
    rw [World.appended_nil] at hq
    exact hq e (.refl he)
  case isFalse hz =>
    have hz : content.length ≠ 0 := fun h => hz (UInt64.toNat_inj.mp (hsize.trans h))
    have hdirect : netRecvFileAll.direct i e.direct e.inp content.length 0 0 =
        .ret (none, e.direct, e.inp) := by
      rw [he.direct, netRecvFileAll.direct, if_neg hz]
      rfl
    rw [hsize, Io.wp_bind, Io.wp, StateT.run, hdirect, Program.ret_bind]
    dsimp only
    rw [Program.pure_eq, Program.wp_ret]
    dsimp only
    rw [Io.wp_bind]
    apply wp_fault_of_unfailing he
    intro e₁ h₁
    have hin₁ : bytes e₁.inp = content ++ tail := h₁.rest hin
    have htake : (bytes e₁.inp).take content.length = content := by rw [hin₁, List.take_left]
    have hok : w.received i (bytes e₁.inp) content.length = .ok := by
      rw [World.received, htake, if_pos ht, hin₁, if_neg (by simp)]
    obtain ⟨as, ts, hrun, hl⟩ := netRecvFileAll.pipe_run (w := w) (i := i) h₁.unfailing.interrupted
      h₁.unfailing.writes content.length 0
    have hrest : bytes as = tail := by rw [hl.rest hok, hin₁, List.drop_left]
    rw [hok, htake] at hrun
    dsimp only
    rw [Io.wp, StateT.run, Program.wp_bind, Program.wp, hrun]
    apply hq
    constructor
    case unfailing =>
      exact { h₁.unfailing with interrupted := hl.interrupted, writes := fun t ht => h₁.unfailing.writes t (hl.outcomes ht) }
    case pid => exact h₁.pid
    case out => exact h₁.out
    case inp => exact hin.trans (congrArg _ hrest.symm)

theorem wp_netRecvFileBestEffort_of_unfailing (he : e.Unfailing) {content tail : Bytes}
    (hlt : content.length < 2 ^ 64) (hin : bytes e.inp = content ++ tail) (ht : w.Takes i content)
    {Q : NetRecvFileResult → Env → World → Prop}
    (hq : ∀ e', e.Goes [] content e' → Q .ok e' (w.appended i content)) :
    Io.wp World.handle (netRecvFileBestEffort i content.length.toUInt64) Q e w := by
  rw [netRecvFileBestEffort, Io.wp_bind]
  apply wp_netRecvFileAll_of_unfailing he hlt hin ht
  intro e' h
  rw [if_pos (by decide)]
  exact hq e' h

end

section

variable {e : Env} {w : World} {i : Nat} {baseDir name full : CStr} {content : Bytes}

-- A file that can be downloaded.
structure Files.Holds (fs : Files) (baseDir name : CStr) (i : Nat) (content : Bytes) : Prop where
  get   : ∃ full, fsJoinRelativePath pathCap baseDir name = some full ∧ fs.get full = some (.file i)
  data  : fs.data i = content
  small : content.length < 2 ^ 63

theorem wp_appPrepareDownload_of_unfailing (he : e.Unfailing) (hf : w.files.Holds baseDir name i content)
    {Q : Except ProtocolResult AppDownload → Env → World → Prop}
    (hq : ∀ e' info, e.Goes [] [] e' → info.size = content.length → Q (.ok ⟨.file i, info⟩) e' w) :
    Io.wp World.handle (appPrepareDownload baseDir name) Q e w := by
  obtain ⟨full, hjoin, hget⟩ := hf.get
  have hopen : World.handle (.openRead full true none) w = (.ok (.file i), w) := by
    simp only [World.handle, hget]
  have hstat : World.handle (.fstat (.file i) none) w = (some (w.files.info (.file i)), w) := by
    have hlt : (w.files.info (.file i)).size < 2 ^ 63 := by
      simp only [Files.info, hf.data]
      exact hf.small
    simp only [World.handle, Files.stat, if_pos hlt]
  rw [appPrepareDownload, hjoin]
  dsimp only
  rw [Io.wp_bind]
  apply wp_fault_of_unfailing he
  intro e₁ h₁
  rw [Io.wp_bind, Io.wp_sys, hopen]
  dsimp only
  rw [Io.wp_bind]
  apply wp_fault_of_unfailing h₁.unfailing
  intro e₂ h₂
  rw [Io.wp_bind, Io.wp_sys, hstat]
  dsimp only
  rw [if_neg (by simp [Files.info])]
  exact hq e₂ _ (h₁.trans h₂) (congrArg List.length hf.data)

-- The answer to a request for a file.
def fileReply (name : CStr) (content : Bytes) : Bytes :=
  ResFrame.readyOk.bytes ++ filePrefix name content.length ++ content ++ ResFrame.finalOk.bytes

theorem wp_serverHandleGetFile_send_of_unfailing (he : e.Unfailing) (hn : name.chars ≠ [])
    (hl : name.strlen ≤ maxFileNameLen) (hd : w.files.data i = content) (hlt : content.length < 2 ^ 63)
    {info : FsPathInfo} (hi : info.size = content.length) {Q : ProtocolResult → Env → World → Prop}
    (hq : ∀ e', e.Goes (fileReply name content) [] e' → Q .ok e' w) :
    Io.wp World.handle (serverHandleGetFile.send name ⟨.file i, info⟩) Q e w := by
  have hready : encodeResFrame ⟨phaseReady, statusOk, ProtocolResult.ok.code⟩ = .ok ResFrame.readyOk.bytes := rfl
  rw [serverHandleGetFile.send, hready, hi, encodeFilePrefix_eq _ hn hl]
  dsimp only
  rw [Io.wp_bind]
  apply wp_protoSendPayload_of_unfailing he
  intro e₁ h₁
  rw [if_neg (not_not.mpr rfl), Io.wp_bind]
  apply wp_netSendFileBestEffort_of_unfailing h₁.unfailing hd (by omega)
  intro e₂ h₂
  rw [if_neg (not_not.mpr rfl)]
  apply wp_sendResFrame_of_unfailing h₂.unfailing ResFrame.finalOk_valid
  intro e₃ h₃
  exact hq e₃ ((h₁.trans h₂).trans h₃)

-- A request for a file, as the client sends it.
def getRequest (name : CStr) : Bytes :=
  encodeHeader (requestHeader msgTypeGetFile (protoFileNameOnlySize name.strlen.toUInt16)) ++ wireName name.chars

-- A request for a file in place is answered with the file.
theorem wp_serverHandleGetFile_of_unfailing {srv : ServerOpt} {header : ProtocolHeader} {tail : Bytes}
    (he : e.Unfailing) (hv : fsValidateFileName name = true) (hl : name.strlen ≤ maxFileNameLen)
    (hsize : header.payloadSize = protoFileNameOnlySize name.strlen.toUInt16)
    (hf : w.files.Holds srv.path name i content) (hin : bytes e.inp = wireName name.chars ++ tail)
    {Q : ProtocolResult → Env → World → Prop}
    (hq : ∀ e', e.Goes (fileReply name content) (wireName name.chars) e' → Q .ok e' w) :
    Io.wp World.handle (serverHandleGetFile srv header) Q e w := by
  have hn : name.chars ≠ [] := by
    simp only [fsValidateFileName, decide_eq_true_eq] at hv
    exact hv.left
  have hpos : 0 < name.strlen := List.length_pos_iff.mpr hn
  have hmin : ¬header.payloadSize < protoFileNameOnlySize 1 := by
    have hone : (protoFileNameOnlySize 1).toNat = 3 := by decide
    rw [UInt64.lt_iff_toNat_lt, hone, hsize, toNat_protoFileNameOnlySize hl]
    omega
  rw [serverHandleGetFile, if_neg hmin, Io.wp_bind]
  apply wp_protoRecvFileNameOnly_of_unfailing he hpos hl hin
  intro e₁ h₁
  dsimp only
  rw [if_neg (by simp [hv]), if_neg (not_not.mpr hsize), Io.wp_bind]
  apply wp_appPrepareDownload_of_unfailing h₁.unfailing hf
  intro e₂ info h₂ hi
  dsimp only
  rw [Io.wp_bind]
  apply wp_serverHandleGetFile_send_of_unfailing h₂.unfailing hn hl hf.data hf.small hi
  intro e₃ h₃
  rw [Io.wp_bind, appDownloadCleanup, Io.wp_discard]
  apply wp_fsClose_of_unfailing h₃.unfailing
  intro e₄ h₄
  have h := ((h₁.trans h₂).trans h₃).trans h₄
  simp only [List.nil_append, List.append_nil] at h
  exact hq e₄ h

theorem wp_handleProtocolConnection_get_of_unfailing {srv : ServerOpt} (he : e.Unfailing)
    (hv : fsValidateFileName name = true) (hl : name.strlen ≤ maxFileNameLen)
    (hf : w.files.Holds srv.path name i content) (hin : bytes e.inp = getRequest name) :
    Io.wp World.handle (handleProtocolConnection srv) (fun _ e' w' => e'.out = e.out ++ fileReply name content ∧
      w' = w) e w := by
  have hdec := @decodeHeader_encodeHeader_of_supported
    (requestHeader msgTypeGetFile (protoFileNameOnlySize name.strlen.toUInt16)) ⟨rfl, rfl, .inr (.inr rfl), rfl⟩
  have htext : msgTypeGetFile ≠ msgTypeTextMessage := by decide
  have hsend : msgTypeGetFile ≠ msgTypeSendFile := by decide
  rw [handleProtocolConnection, Io.wp_bind]
  apply wp_recvHeader_of_unfailing he (length_encodeHeader _) hin
  intro e₁ h₁
  dsimp only
  rw [hdec]
  dsimp only
  rw [requestHeader_msgType, if_neg htext, if_neg hsend, if_pos rfl, Io.wp_bind]
  apply wp_serverHandleGetFile_of_unfailing h₁.unfailing hv hl rfl hf ((h₁.rest hin).trans (List.append_nil _).symm)
  intro e₂ h₂
  exact ⟨(h₁.trans h₂).out, rfl⟩

end

-- Without faults, only the names that are taken matter.
theorem pathLeft_of_none {fs : Files} {pid : Nat} {finalPath tmpPath : CStr} {ks : List Nat}
    {faults : List (Option Errno)} (hf : ∀ f ∈ faults, f = none) :
    pathLeft fs pid finalPath tmpPath ks faults = pathLeft fs pid finalPath tmpPath ks [] := by
  induction ks generalizing tmpPath faults
  case nil => rfl
  case cons k ks hi =>
    have hhead : faults.headD none = none := by
      cases faults
      case nil  => rfl
      case cons f fs => exact hf f List.mem_cons_self
    have htail : ∀ f ∈ faults.tail, f = none := fun f h => hf f (List.mem_of_mem_tail h)
    simp only [pathLeft, hhead, hi htail, List.headD_nil, List.tail_nil]

-- There is room for a file that is saved as `out`.
structure Files.CanSave (fs : Files) (pid : Nat) (out : CStr) (content : Bytes) : Prop where
  temp  : pathLeft fs pid out (.lit "") [0, 1, 2] [] = none
  noDir : fs.get out ≠ some .dir
  fits  : ∀ n, fs.limit = some n → content.length ≤ n

section

variable {e : Env} {w : World} {i : Nat} {name out : CStr} {content : Bytes}

-- A new file takes all that is within the limit.
theorem World.takes_created {tmp : CStr} (hfits : ∀ n, w.files.limit = some n → content.length ≤ n) :
    World.Takes { w with files := w.files.create tmp } w.files.fresh content ∧
    World.appended { w with files := w.files.create tmp } w.files.fresh content =
      { w with files := (w.files.create tmp).setData w.files.fresh content } := by
  have hdata : (w.files.create tmp).data w.files.fresh = [] := Function.update_self ..
  have hroom : World.Takes { w with files := w.files.create tmp } w.files.fresh content := by
    cases hl : w.files.limit
    case none =>
      have hl' : (World.files { w with files := w.files.create tmp }).limit = none := hl
      exact takes_of_no_limit hl' content
    case some n =>
      have hl' : (World.files { w with files := w.files.create tmp }).limit = some n := hl
      have hle := hfits n hl
      rw [Takes, room_le_of_limit hl', hdata, List.length_nil, Nat.sub_zero, Nat.min_eq_left hle]
  refine ⟨hroom, ?_⟩
  rw [appended_eq, hroom.take, hdata, List.nil_append]

theorem wp_clientOpenTempDownload_of_unfailing (he : e.Unfailing)
    (hfree : pathLeft w.files e.pid out (.lit "") [0, 1, 2] [] = none) {Q : Option Nat × CStr → Env → World → Prop}
    (hq : ∀ tmp e', e.Goes [] [] e' → w.files.get tmp = none →
      Q (some w.files.fresh, tmp) e' { w with files := w.files.create tmp }) :
    Io.wp World.handle (clientOpenTempDownload out (.lit "")) Q e w := by
  rw [clientOpenTempDownload]
  apply wp_clientOpenTempDownload_attempts
  case hok =>
    intro tmp fs hs hn _ _
    exact hq tmp _ ⟨{ he with faults := fun f hf => he.faults f (hs hf) }, rfl, (List.append_nil _).symm, rfl⟩ hn
  case herr =>
    intro left fs hleft
    rw [pathLeft_of_none he.faults, hfree] at hleft
    cases hleft

theorem wp_fsCommitTempFile_of_unfailing (he : e.Unfailing) {tmp : CStr} (htmp : w.files.get tmp = some (.file i))
    (hdir : w.files.get out ≠ some .dir) {Q : Bool → Env → World → Prop}
    (hq : ∀ e', e.Goes [] [] e' → Q true e' { w with files := w.files.move tmp out i htmp }) :
    Io.wp World.handle (fsCommitTempFile tmp out) Q e w := by
  rw [fsCommitTempFile, Io.wp_bind]
  apply wp_fault_of_unfailing he
  intro e' h
  have hmove : World.handle (.rename tmp out none) w = (true, { w with files := w.files.move tmp out i htmp }) := by
    simp only [World.handle]
    split
    case h_1 j hj =>
      cases hj.symm.trans htmp
      rw [if_neg hdir]
    case h_2 hno => exact absurd htmp (hno i)
  rw [Io.wp_sys, hmove]
  exact hq e' h

theorem wp_clientGetFile_body_of_unfailing (he : e.Unfailing) {tmp : CStr} {tail : Bytes} (hn : w.files.get tmp = none)
    (hdir : w.files.get out ≠ some .dir) (hfits : ∀ n, w.files.limit = some n → content.length ≤ n)
    (hlt : content.length < 2 ^ 63) (hin : bytes e.inp = content ++ (ResFrame.finalOk.bytes ++ tail))
    {Q : Bool × Bool → Env → World → Prop}
    (hq : ∀ e' files, e.Goes [] (content ++ ResFrame.finalOk.bytes) e' → w.files.Replaced out content files →
      Q (true, false) e' { w with files := files }) :
    Io.wp World.handle (clientGetFile.body w.files.fresh content.length.toUInt64 tmp out) Q e
      { w with files := w.files.create tmp } := by
  obtain ⟨hroom, hfile⟩ := @World.takes_created w content tmp hfits
  rw [clientGetFile.body, Io.wp_bind, clientRecvFileBody, Io.wp_bind]
  apply wp_netRecvFileBestEffort_of_unfailing he (by omega) hin hroom
  intro e₁ h₁
  rw [hfile, Io.wp_pure, if_neg (by simp), Io.wp_bind]
  apply wp_fsClose_of_unfailing h₁.unfailing
  intro e₂ h₂
  rw [if_neg (by simp), Io.wp_bind]
  apply wp_clientRecvCheckedResponse_of_unfailing h₂.unfailing ResFrame.finalOk_valid (h₂.rest (h₁.rest hin))
  intro e₃ h₃
  have htmp : ((w.files.create tmp).setData w.files.fresh content).get tmp = some (.file w.files.fresh) := by simp
  rw [if_neg (by simp), Io.wp_bind]
  apply wp_fsCommitTempFile_of_unfailing h₃.unfailing htmp
  case hdir =>
    by_cases heq : out = tmp
    case pos => simp [heq]
    case neg => rwa [Files.get_setData, Files.get_create_ne heq]
  case hq =>
    intro e₄ h₄
    have h := ((h₁.trans h₂).trans h₃).trans h₄
    simp only [List.append_nil] at h
    rw [if_neg (by simp)]
    exact hq e₄ _ h (Files.replaced_move hn)

theorem protoGetFileNameLen_of_le (hpos : 0 < name.strlen) (hl : name.strlen ≤ maxFileNameLen) :
    protoGetFileNameLen name = some name.strlen.toUInt16 := by
  rw [protoGetFileNameLen, if_neg (by omega)]

theorem wp_clientGetFile_request_of_unfailing (he : e.Unfailing) {tail : Bytes} (hpos : 0 < name.strlen)
    (hl : name.strlen ≤ maxFileNameLen) (hmax : content.length.toUInt64 ≤ maxFileSize)
    (hin : bytes e.inp = ResFrame.readyOk.bytes ++ (filePrefix name content.length ++ tail))
    {Q : Option (CStr × UInt64) → Env → World → Prop}
    (hq : ∀ e', e.Goes (getRequest name) (ResFrame.readyOk.bytes ++ filePrefix name content.length) e' →
      Q (some (name, content.length.toUInt64)) e' w) :
    Io.wp World.handle (clientGetFile.request name name.strlen.toUInt16) Q e w := by
  have hsmall : (wireName name.chars).length ≤ 2 + maxFileNameLen + 8 := by
    rw [length_wireName]
    rw [CStr.strlen] at hl
    omega
  rw [clientGetFile.request, encodeFileNameOnly_eq (protoGetFileNameLen_of_le hpos hl)]
  dsimp only
  rw [Io.wp_bind]
  apply wp_clientSendHeaderPayload_of_unfailing he hsmall
  intro e₁ h₁
  rw [if_neg (by simp), Io.wp_bind]
  apply wp_clientRecvCheckedResponse_of_unfailing h₁.unfailing ResFrame.readyOk_valid (h₁.rest hin)
  intro e₂ h₂
  rw [if_neg (by simp), Io.wp_bind]
  apply wp_protoRecvFileTransferPrefix_of_unfailing h₂.unfailing hpos hl (h₂.rest (h₁.rest hin))
  intro e₃ h₃
  have h := (h₁.trans h₂).trans h₃
  simp only [List.nil_append, List.append_nil] at h
  dsimp only
  rw [if_neg (UInt64.not_lt.mpr hmax)]
  exact hq e₃ h

-- A download from a server that answers the request is saved.
theorem wp_clientGetFile_of_unfailing {opt : ClientOpt} (he : e.Unfailing) (hremote : opt.remotePath = some name)
    (hv : fsValidateFileName name = true) (hl : name.strlen ≤ maxFileNameLen)
    (hmax : content.length.toUInt64 ≤ maxFileSize) (hlt : content.length < 2 ^ 63)
    (hsave : w.files.CanSave e.pid (opt.outputPath.getD name) content) (hin : bytes e.inp = fileReply name content) :
    Io.wp World.handle (clientGetFile opt) (fun code _ w' => code = 0 ∧
      ∃ files, w' = { w with files := files } ∧ w.files.Replaced (opt.outputPath.getD name) content files) e w := by
  have hn : name.chars ≠ [] := by
    simp only [fsValidateFileName, decide_eq_true_eq] at hv
    exact hv.left
  have hpos : 0 < name.strlen := List.length_pos_iff.mpr hn
  simp only [fileReply, List.append_assoc] at hin
  rw [clientGetFile, hremote]
  dsimp only
  rw [if_neg (by simp [hv]), protoGetFileNameLen_of_le hpos hl]
  dsimp only
  rw [Io.wp_bind]
  apply wp_clientConnect_of_unfailing he
  intro e₁ h₁
  rw [if_neg (by simp), Io.wp_bind]
  apply wp_clientGetFile_request_of_unfailing h₁.unfailing hpos hl hmax (h₁.rest hin)
  intro e₂ h₂
  have hin₁ : bytes e₁.inp = ResFrame.readyOk.bytes ++ filePrefix name content.length ++
      (content ++ ResFrame.finalOk.bytes) := by
    rw [List.append_assoc]
    exact h₁.rest hin
  have hrest : bytes e₂.inp = content ++ ResFrame.finalOk.bytes := h₂.rest hin₁
  dsimp only
  rw [if_neg (by simp [hv]), Io.wp_bind]
  apply wp_clientOpenTempDownload_of_unfailing h₂.unfailing (h₂.pid.trans h₁.pid ▸ hsave.temp)
  intro tmp e₃ h₃ htmp
  dsimp only
  rw [Io.wp_bind]
  apply wp_clientGetFile_body_of_unfailing h₃.unfailing htmp hsave.noDir hsave.fits hlt
    ((h₃.rest hrest).trans (congrArg _ (List.append_nil _).symm))
  intro e₄ files h₄ hrep
  exact wp_clientGetFile_finish_done ⟨rfl, files, rfl, hrep⟩

-- Whatever it receives, the client sends nothing but its request.
theorem wp_clientGetFile_sends {opt : ClientOpt} (he : e.Unfailing) (hremote : opt.remotePath = some name)
    (hv : fsValidateFileName name = true) (hl : name.strlen ≤ maxFileNameLen) :
    Io.wp World.handle (clientGetFile opt) (fun _ e' _ => e'.out = e.out ++ getRequest name) e w := by
  have hn : name.chars ≠ [] := by
    simp only [fsValidateFileName, decide_eq_true_eq] at hv
    exact hv.left
  have hlen := protoGetFileNameLen_of_le (List.length_pos_iff.mpr hn) hl
  have hsmall : (wireName name.chars).length ≤ 2 + maxFileNameLen + 8 := by
    rw [length_wireName]
    rw [CStr.strlen] at hl
    omega
  rw [clientGetFile, hremote]
  dsimp only
  rw [if_neg (by simp [hv]), hlen]
  dsimp only
  rw [Io.wp_bind]
  apply wp_clientConnect_of_unfailing he
  intro e₁ h₁
  rw [if_neg (by simp), Io.wp_bind, clientGetFile.request, encodeFileNameOnly_eq hlen]
  dsimp only
  rw [Io.wp_bind]
  apply wp_clientSendHeaderPayload_of_unfailing h₁.unfailing hsmall
  intro e₂ h₂
  have hout : e₂.out = e.out ++ getRequest name := (h₁.trans h₂).out
  rw [if_neg (by simp), Io.wp_bind]
  apply wp_clientRecvCheckedResponse ResFrame.readyOk_valid
  case herr => exact fun _ _ => hout
  case hok =>
    intro as _ _
    rw [if_neg (by simp), Io.wp_bind]
    apply wp_protoRecvFileTransferPrefix
    case herr => exact fun _ _ _ _ _ => hout
    case hok =>
      intro raw size as' al _ _ _ _ _
      dsimp only
      split
      case isTrue  => exact hout
      case isFalse =>
        rw [Io.wp_pure]
        dsimp only
        split
        case isTrue  => exact hout
        case isFalse =>
          rw [Io.wp_bind, clientOpenTempDownload]
          apply wp_clientOpenTempDownload_attempts
          case herr =>
            intro left fs _
            dsimp only
            rw [Io.wp_bind, clientGetFile.cleanUp]
            split <;> exact hout
          case hok =>
            intro tmp fs _ hnone hne _
            dsimp only
            rw [Io.wp_bind]
            apply wp_clientGetFile_body hnone
            case hok  => exact fun _ _ _ _ _ _ _ _ _ => hout
            case herr =>
              intro isOpen c as ts ds fs al
              have htmp : ((w.files.create tmp).setData w.files.fresh c).get tmp = some (.file w.files.fresh) := by
                simp
              exact wp_clientGetFile_finish_failed hne htmp fun _ => hout

end
