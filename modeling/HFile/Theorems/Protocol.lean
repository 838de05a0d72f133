import HFile.Theorems.Codec
import HFile.Theorems.Net

open Program (Handler)
open Arrival (bytes delivered)

section

variable {W : Type} {h : Handler Sys W} {e : Env} {w : W}

theorem wp_protoSendPayload {payload : Bytes} {Q : ProtocolResult → Env → W → Prop}
    (hall : ∀ ts, ts ⊆ e.snd → Transfer.Completes e.snd payload.length →
      Q .ok { e with snd := ts, out := e.out ++ payload } w)
    (hpart : ∀ r sent ts, ts ⊆ e.snd → sent <+: payload → sent.length < payload.length → r ≠ .ok →
      (∃ t ∈ e.snd, ¬t.Benign) → ¬Transfer.Completes e.snd payload.length →
      Q r { e with snd := ts, out := e.out ++ sent } w) :
    Io.wp h (protoSendPayload payload) Q e w := by
  rw [protoSendPayload, Io.wp_bind]
  refine wp_sendAll ?_ ?_
  · intro ts hs hc
    simpa using hall ts hs hc
  · intro r sent ts hs hp hl hr hb hc
    cases r
    case none => exact hpart _ _ _ hs hp hl (by simp) hb hc
    case some n =>
      dsimp only
      rw [if_pos (hr n rfl)]
      exact hpart _ _ _ hs hp hl (by simp) hb hc

theorem wp_recvResFrame {Q : Except ProtocolResult ResFrame → Env → W → Prop}
    (hok : ∀ frame as, protoResFrameValid frame = true → bytes e.inp = frame.bytes ++ bytes as →
      delivered e.inp = frame.bytes ++ delivered as → Q (.ok frame) { e with inp := as } w)
    (herr : ∀ r as, (∀ frame, protoResFrameValid frame = true → ¬frame.bytes <+: delivered e.inp) →
      Q (.error r) { e with inp := as } w) :
    Io.wp h recvResFrame Q e w := by
  rw [recvResFrame, Io.wp_bind]
  refine wp_recvAll ?_ ?_
  · intro buf as hl hb hd
    dsimp only
    rw [Io.wp_pure, if_neg (by omega)]
    cases hf : decodeResFrame buf
    case error =>
      refine herr _ _ fun frame hv hp => ?_
      have hbuf : frame.bytes = buf := by
        obtain ⟨tail, ht⟩ := hp
        exact (List.append_inj (ht.trans hd) (frame.length_bytes.trans hl.symm)).left
      rw [← hbuf, decodeResFrame_bytes hv] at hf
      cases hf
    case ok frame =>
      have ⟨hbuf, hv⟩ := decodeResFrame_ok hl hf
      exact hok _ _ hv (hbuf ▸ hb) (hbuf ▸ hd)
  · intro r as _ hl hr _
    have hno : ∀ frame, protoResFrameValid frame = true → ¬frame.bytes <+: delivered e.inp :=
      fun frame _ hp => Nat.not_lt.mpr (show 4 ≤ _ from hp.length_le) hl
    cases r
    case none => exact herr _ _ hno
    case some buf =>
      dsimp only
      rw [Io.wp_pure, if_pos (hr _ rfl)]
      exact herr _ _ hno

-- The length of the name that a request announces.
def Env.nameLen (e : Env) : Nat :=
  (decodeU16Be (delivered e.inp)).toNat

-- The name that a request announces is received.
structure Env.HasName (e : Env) : Prop where
  len      : 2 ≤ (delivered e.inp).length
  pos      : 0 < e.nameLen
  le       : e.nameLen ≤ maxFileNameLen
  alloc    : e.allocs.headD true = true
  complete : 2 + e.nameLen ≤ (delivered e.inp).length

-- The name and the size that a request announces are received.
structure Env.HasPrefix (e : Env) : Prop extends Env.HasName e where
  sized : 2 + e.nameLen + 8 ≤ (delivered e.inp).length

-- The bytes of a name on the wire.
def wireName (raw : Bytes) : Bytes :=
  encodeU16Be raw.length.toUInt16 ++ raw

theorem decodeU16Be_append {bs cs : Bytes} (h : bs.length = 2) :
    decodeU16Be (bs ++ cs) = decodeU16Be bs := by
  match bs with
  | [a, b] => rfl

theorem Env.nameLen_eq {len rest : Bytes} (hl : len.length = 2)
    (hd : delivered e.inp = len ++ rest) : e.nameLen = (decodeU16Be len).toNat := by
  rw [Env.nameLen, hd, decodeU16Be_append hl]

theorem Env.hasName_iff {len rest : Bytes} (hl : len.length = 2)
    (hd : delivered e.inp = len ++ rest) :
    e.HasName ↔ ¬(decodeU16Be len = 0 ∨ (decodeU16Be len).toNat > maxFileNameLen) ∧
      e.allocs.headD true = true ∧ (decodeU16Be len).toNat ≤ rest.length := by
  have hn := Env.nameLen_eq hl hd
  have hlen : (delivered e.inp).length = 2 + rest.length := by simp [hd, hl]
  have hz : decodeU16Be len = 0 ↔ (decodeU16Be len).toNat = 0 := by
    rw [← UInt16.toNat_inj, UInt16.toNat_zero]
  rw [hz]
  constructor
  · intro ⟨_, hpos, hle, halloc, hcomplete⟩
    exact ⟨by omega, halloc, by omega⟩
  · intro ⟨hlen', halloc, hrest⟩
    exact ⟨by omega, by omega, by omega, halloc, by omega⟩

theorem wp_protoRecvFileNameOnly {Q : Except ProtocolResult CStr → Env → W → Prop}
    (hok : ∀ raw as al, e.HasName → raw.length = e.nameLen →
      bytes e.inp = wireName raw ++ bytes as → delivered e.inp = wireName raw ++ delivered as →
      Q (.ok (.ofBuf raw)) { e with inp := as, allocs := al } w)
    (herr : ∀ r as al, ¬e.HasName → r ≠ .ok → Q (.error r) { e with inp := as, allocs := al } w) :
    Io.wp h protoRecvFileNameOnly Q e w := by
  rw [protoRecvFileNameOnly, Io.wp_bind]
  refine wp_recvAll ?_ ?_
  case refine_2 =>
    intro r as _ hl hr _
    have hn : ¬e.HasName := fun hn => absurd hn.len (by omega)
    cases r
    case none => exact herr _ _ e.allocs hn (by simp)
    case some buf =>
      dsimp only
      rw [if_pos (hr _ rfl).ne]
      exact herr _ _ e.allocs hn (by simp)
  case refine_1 =>
    intro len as hl hb hd
    have hiff := Env.hasName_iff hl hd
    dsimp only
    rw [if_neg (not_not.mpr hl)]
    split
    case isTrue hc => exact herr _ _ e.allocs (fun hn => (hiff.mp hn).left hc) (by simp)
    case isFalse hc =>
      rw [Io.wp_bind, Io.wp_malloc_iff]
      cases ha : e.allocs.headD true
      case false =>
        exact herr _ _ _ (fun hn => Bool.noConfusion (ha.symm.trans hn.alloc)) (by simp)
      case true =>
        refine Io.wp_bind.mpr (wp_recvAll ?_ ?_)
        case refine_2 =>
          intro r as' _ hl' hr _
          have hn : ¬e.HasName := fun hn => absurd (hiff.mp hn).right.right (Nat.not_le.mpr hl')
          cases r
          case none => exact herr _ _ _ hn (by simp)
          case some buf =>
            dsimp only
            rw [if_pos (hr _ rfl).ne]
            exact herr _ _ _ hn (by simp)
        case refine_1 =>
          intro raw as' hl' hb' hd'
          have hb' : bytes as = raw ++ bytes as' := hb'
          have hd' : delivered as = raw ++ delivered as' := hd'
          have hwire : wireName raw = len ++ raw := by
            simp [wireName, hl', encodeU16Be_decodeU16Be_of_length hl]
          dsimp only
          rw [if_neg (not_not.mpr hl')]
          refine hok raw as' _ (hiff.mpr ⟨hc, ha, ?_⟩) (hl'.trans (Env.nameLen_eq hl hd).symm) ?_ ?_
          · simp [hd', hl']
          · rw [hb, hb', hwire, List.append_assoc]
          · rw [hd, hd', hwire, List.append_assoc]

theorem wp_protoRecvFileTransferPrefix {Q : Except ProtocolResult (CStr × UInt64) → Env → W → Prop}
    (hok : ∀ raw size as al, e.HasPrefix → raw.length = e.nameLen → size.length = 8 →
      bytes e.inp = wireName raw ++ size ++ bytes as →
      delivered e.inp = wireName raw ++ size ++ delivered as →
      Q (.ok (.ofBuf raw, decodeU64Be size)) { e with inp := as, allocs := al } w)
    (herr : ∀ r as al, ¬e.HasPrefix → r ≠ .ok →
      Q (.error r) { e with inp := as, allocs := al } w) :
    Io.wp h protoRecvFileTransferPrefix Q e w := by
  rw [protoRecvFileTransferPrefix, Io.wp_bind]
  refine wp_protoRecvFileNameOnly ?_ ?_
  case refine_2 => exact fun r as al hn hr => herr r as al (fun hp => hn hp.toHasName) hr
  case refine_1 =>
    intro raw as al hn hl hb hd
    have hlen : (delivered e.inp).length = 2 + e.nameLen + (delivered as).length := by
      simp [hd, wireName, hl, Nat.add_assoc]
    refine Io.wp_bind.mpr (wp_recvAll ?_ ?_)
    case refine_2 =>
      intro r as' _ hl' hr _
      have hl' : (delivered as).length < 8 := hl'
      have hp : ¬e.HasPrefix := fun hp => absurd hp.sized (by omega)
      cases r
      case none => exact herr _ _ _ hp (by simp)
      case some buf =>
        dsimp only
        rw [if_pos (hr _ rfl).ne]
        exact herr _ _ _ hp (by simp)
    case refine_1 =>
      intro size as' hl' hb' hd'
      have hb' : bytes as = size ++ bytes as' := hb'
      have hd' : delivered as = size ++ delivered as' := hd'
      dsimp only
      rw [if_neg (not_not.mpr hl')]
      refine hok raw size as' _ ⟨hn, ?_⟩ hl hl' ?_ ?_
      · rw [hlen, hd', List.length_append]
        omega
      · rw [hb, hb', List.append_assoc]
      · rw [hd, hd', List.append_assoc]

theorem wp_recvHeader {Q : Except ProtocolResult Bytes → Env → W → Prop}
    (hok : ∀ buf as, buf.length = 13 → bytes e.inp = buf ++ bytes as →
      delivered e.inp = buf ++ delivered as → Q (.ok buf) { e with inp := as } w)
    (herr : ∀ r as, (delivered e.inp).length < 13 → Q (.error r) { e with inp := as } w) :
    Io.wp h recvHeader Q e w := by
  rw [recvHeader, Io.wp_bind]
  refine wp_recvAll ?_ ?_
  · intro buf as hl hb hd
    dsimp only
    rw [Io.wp_pure, if_neg (by omega)]
    exact hok buf as hl hb hd
  · intro r as _ hl hr _
    cases r
    case none => exact herr _ _ hl
    case some buf =>
      dsimp only
      rw [Io.wp_pure, if_pos (hr _ rfl)]
      exact herr _ _ hl

end
