import HFile.Source.Server
import HFile.Theorems.Protocol
import HFile.Theorems.Transfer

open Program (Handler)
open Arrival (bytes delivered)

namespace ResFrame

def readyOk : ResFrame := ⟨phaseReady, statusOk, ProtocolResult.ok.code⟩
def readyRejected (r : ProtocolResult) : ResFrame := ⟨phaseReady, statusRejected, r.code⟩
def finalOk : ResFrame := ⟨phaseFinal, statusOk, ProtocolResult.ok.code⟩
def finalFailed (r : ProtocolResult) : ResFrame := ⟨phaseFinal, statusFailed, r.code⟩

theorem readyOk_valid : protoResFrameValid readyOk = true := by
  decide

theorem finalOk_valid : protoResFrameValid finalOk = true := by
  decide

theorem readyRejected_valid {r : ProtocolResult} (h : r ≠ .ok) :
    protoResFrameValid (readyRejected r) = true := by
  cases r <;> first | contradiction | decide

theorem finalFailed_valid {r : ProtocolResult} (h : r ≠ .ok) :
    protoResFrameValid (finalFailed r) = true := by
  cases r <;> first | contradiction | decide

-- A frame that stands at the start of a part of another frame is that frame.
theorem eq_of_prefix {f g : ResFrame} {sent : Bytes} (h₁ : f.bytes <+: sent)
    (h₂ : sent <+: g.bytes) : f = g := by
  have hl : f.bytes.length = g.bytes.length := rfl
  exact bytes_injective ((h₁.trans h₂).eq_of_length hl)

end ResFrame

-- What is sent of `payload`: all of it, or less if one of the outcomes `ts` of the calls to `send`
-- is a failure.
def Sends (ts : List Transfer) (payload sent : Bytes) : Prop :=
  sent = payload ∨ sent <+: payload ∧ sent.length < payload.length ∧ ∃ t ∈ ts, ¬t.Benign

namespace Sends

variable {ts ts' : List Transfer} {payload sent : Bytes}

theorem isPrefix (h : Sends ts payload sent) : sent <+: payload := by
  rcases h with rfl | ⟨h, _⟩
  · exact List.prefix_rfl
  · exact h

theorem mono (h : Sends ts payload sent) (hs : ts ⊆ ts') : Sends ts' payload sent := by
  rcases h with h | ⟨hp, hl, t, ht, hb⟩
  · exact .inl h
  · exact .inr ⟨hp, hl, t, hs ht, hb⟩

theorem eq_of_benign (h : Sends ts payload sent) (hb : ∀ t ∈ ts, t.Benign) : sent = payload := by
  rcases h with h | ⟨_, _, t, ht, hn⟩
  · exact h
  · exact absurd (hb t ht) hn

end Sends

section

variable {W : Type} {h : Handler Sys W} {e : Env} {w : W}

theorem wp_protoSendPayload_sends {payload : Bytes} {Q : ProtocolResult → Env → W → Prop}
    (hq : ∀ r sent ts, ts ⊆ e.snd → Sends e.snd payload sent → (r = .ok ↔ sent = payload) →
      Q r { e with snd := ts, out := e.out ++ sent } w) :
    Io.wp h (protoSendPayload payload) Q e w := by
  refine wp_protoSendPayload ?_ ?_
  · intro ts hs _
    exact hq _ _ _ hs (.inl rfl) (by simp)
  · intro r sent ts hs hp hl hr hb _
    refine hq _ _ _ hs (.inr ⟨hp, hl, hb⟩) ?_
    simp only [hr, false_iff]
    exact fun he => Nat.lt_irrefl _ (he ▸ hl)

theorem wp_sendResFrame_sends {frame : ResFrame} (hv : protoResFrameValid frame = true)
    {Q : ProtocolResult → Env → W → Prop}
    (hq : ∀ r sent ts, ts ⊆ e.snd → Sends e.snd frame.bytes sent → (r = .ok ↔ sent = frame.bytes) →
      Q r { e with snd := ts, out := e.out ++ sent } w) :
    Io.wp h (sendResFrame frame) Q e w := by
  rw [sendResFrame, encodeResFrame_eq hv]
  exact wp_protoSendPayload_sends hq

end

-- The prefix of an upload that has been received: the bytes of the name, those of the size, and
-- what is still to come.
structure Env.Prefix (e : Env) (raw size : Bytes) (rest : List Arrival) : Prop extends
    Env.HasPrefix e where
  raw_length     : raw.length = e.nameLen
  size_length    : size.length = 8
  bytes_eq     : bytes e.inp = wireName raw ++ size ++ bytes rest
  delivered_eq : delivered e.inp = wireName raw ++ size ++ delivered rest

-- The checks that `server_handle_file_transfer` makes on a prefix.
def AcceptsUpload (header : ProtocolHeader) (raw size : Bytes) : Prop :=
  fsValidateFileName (.ofBuf raw) = true ∧
  header.payloadSize =
    protoFileTransferPrefixSize (CStr.ofBuf raw).strlen.toUInt16 + decodeU64Be size

-- Everything that `server_handle_file_transfer` can do: the bytes that it sends and the files that
-- it leaves.
inductive UploadRun (opt : ServerOpt) (header : ProtocolHeader) (e : Env) (fs : Files) :
    Bytes → Files → Prop
  | tooSmall :
    header.payloadSize < protoFileTransferPrefixSize 1 →
    Sends e.snd (ResFrame.readyRejected .errInvalidArgument).bytes sent →
    UploadRun opt header e fs sent fs
  | silent :
    ¬header.payloadSize < protoFileTransferPrefixSize 1 → ¬e.HasPrefix →
    UploadRun opt header e fs [] fs
  | refused :
    ¬header.payloadSize < protoFileTransferPrefixSize 1 → e.Prefix raw size rest →
    ¬AcceptsUpload header raw size → code ≠ .ok →
    Sends e.snd (ResFrame.readyRejected code).bytes sent →
    UploadRun opt header e fs sent fs
  | unready :
    ¬header.payloadSize < protoFileTransferPrefixSize 1 → e.Prefix raw size rest →
    AcceptsUpload header raw size →
    Sends e.snd ResFrame.readyOk.bytes sent → sent ≠ ResFrame.readyOk.bytes →
    UploadRun opt header e fs sent fs
  | failed :
    ¬header.payloadSize < protoFileTransferPrefixSize 1 → e.Prefix raw size rest →
    AcceptsUpload header raw size → code ≠ .ok → fs.Same fs' →
    Sends e.snd (ResFrame.finalFailed code).bytes sent →
    UploadRun opt header e fs (ResFrame.readyOk.bytes ++ sent) fs'
  | stored :
    ¬header.payloadSize < protoFileTransferPrefixSize 1 → e.Prefix raw size rest →
    AcceptsUpload header raw size →
    fsJoinRelativePath pathCap opt.path (.ofBuf raw) = some path →
    (e.direct = [] → content.length = (decodeU64Be size).toNat ∧ content <+: bytes rest) →
    fs.Replaced path content fs' →
    Sends e.snd ResFrame.finalOk.bytes sent →
    UploadRun opt header e fs (ResFrame.readyOk.bytes ++ sent) fs'

theorem wp_serverHandleFileTransfer (opt : ServerOpt) (header : ProtocolHeader) (e : Env)
    (w : World) : Io.wp World.handle (serverHandleFileTransfer opt header) (fun _ e' w' =>
      w'.board = w.board ∧ ∃ sent, e'.out = e.out ++ sent ∧
      UploadRun opt header e w.files sent w'.files) e w := by
  rw [serverHandleFileTransfer]
  split
  case isTrue hs =>
    rw [Io.wp_bind, Io.wp_discard]
    refine wp_sendResFrame_sends (ResFrame.readyRejected_valid (by simp)) ?_
    intro _ sent ts _ hsent _
    exact ⟨rfl, sent, rfl, .tooSmall hs hsent⟩
  case isFalse hs =>
    rw [Io.wp_bind]
    refine wp_protoRecvFileTransferPrefix ?_ ?_
    case refine_2 =>
      intro r as al hp _
      exact ⟨rfl, [], by simp, .silent hs hp⟩
    case refine_1 =>
      intro raw size as al hp hraw hsize hb hd
      have hp : e.Prefix raw size as := ⟨hp, hraw, hsize, hb, hd⟩
      dsimp only
      split
      case isTrue hv =>
        rw [Io.wp_bind, Io.wp_discard]
        refine wp_sendResFrame_sends (ResFrame.readyRejected_valid (by simp)) ?_
        intro _ sent ts _ hsent _
        exact ⟨rfl, sent, rfl, .refused hs hp (fun ha => by simp [ha.left] at hv) (by simp) hsent⟩
      case isFalse hv =>
        split
        case isTrue hm =>
          rw [Io.wp_bind, Io.wp_discard]
          refine wp_sendResFrame_sends (ResFrame.readyRejected_valid (by simp)) ?_
          intro _ sent ts _ hsent _
          exact ⟨rfl, sent, rfl, .refused hs hp (fun ha => hm ha.right) (by simp) hsent⟩
        case isFalse hm =>
          have ha : AcceptsUpload header raw size := ⟨by simpa using hv, not_not.mp hm⟩
          rw [Io.wp_bind]
          refine wp_sendResFrame_sends ResFrame.readyOk_valid ?_
          intro r sent ts hts hsent hr
          split
          case isTrue hne => exact ⟨rfl, sent, rfl, .unready hs hp ha hsent (fun h => hne (hr.mpr h))⟩
          case isFalse hok =>
            cases hr.mp (not_not.mp hok)
            rw [Io.wp_bind]
            refine wp_transferRecvSocketFile ?_ ?_
            · intro path c as' ts' ds fs al' files hpath hc hrep
              refine wp_sendResFrame_sends ResFrame.finalOk_valid ?_
              intro r' sent' ts'' _ hsent' _
              refine ⟨rfl, _, List.append_assoc .., .stored hs hp ha hpath ?_ hrep (hsent'.mono hts)⟩
              intro hdirect
              have ⟨hl, hb'⟩ := hc hdirect
              exact ⟨hl, _, hb'.symm⟩
            · intro r' as' ts' ds fs al' files hr' hsame
              rw [Io.wp_bind, Io.wp_discard]
              refine wp_sendResFrame_sends (ResFrame.finalFailed_valid hr') ?_
              intro _ sent' ts'' _ hsent' _
              exact ⟨rfl, _, List.append_assoc .., .failed hs hp ha hr' hsame (hsent'.mono hts)⟩

