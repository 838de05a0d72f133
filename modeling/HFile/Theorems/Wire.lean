import HFile.Theorems.Client

open Program (Handler)
open Arrival (bytes delivered)

-- Bit `j` of the byte of `v` at bit `k`.
theorem UInt64.getElem_toUInt8_shiftRight (v k : UInt64) (j : Nat) (hk : k.toNat < 64) (hj : j < 8) :
    (v >>> k).toUInt8.toBitVec[j] = v.toBitVec.getLsbD (k.toNat + j) := by
  have hm : (k.toBitVec % 64#64).toNat = k.toNat := by simp [Nat.mod_eq_of_lt hk]
  simp only [UInt64.toBitVec_toUInt8, UInt64.toBitVec_shiftRight]
  rw [← BitVec.getLsbD_eq_getElem]
  simp [hm, hj]

-- Bit `j` of the byte `n` of a number that only has the byte `m`.
theorem UInt8.getLsbD_shiftLeft (b : UInt8) (k : UInt64) (m n j : Nat) (hk : k.toNat = 8 * m)
    (hm : m < 8) (hn : n < 8) (hj : j < 8) :
    (b.toUInt64 <<< k).toBitVec.getLsbD (8 * n + j) = (decide (m = n) && b.toBitVec.getLsbD j) := by
  have hmod : k.toNat % 64 = 8 * m := by omega
  have hlt : 8 * n + j < 64 := by omega
  have hb := BitVec.getLsbD_of_ge b.toBitVec (8 * n + j - 8 * m)
  simp only [UInt64.toBitVec_shiftLeft, UInt8.toBitVec_toUInt64, BitVec.shiftLeft_eq',
    BitVec.getLsbD_shiftLeft, BitVec.getLsbD_setWidth]
  rcases Nat.lt_trichotomy m n with h | h | h
  case inl =>
    have hb := hb (by omega)
    simp [h.ne, hmod, hb]
  case inr.inl =>
    subst h
    simp [hlt, hmod, show j < 64 by omega]
  case inr.inr =>
    have hlow : 8 * n + j < 8 * m := by omega
    simp [h.ne', hmod, hlow]

theorem UInt8.getLsbD_toUInt64 (b : UInt8) (n j : Nat) (hj : j < 8) :
    b.toUInt64.toBitVec.getLsbD (8 * n + j) = (decide (0 = n) && b.toBitVec.getLsbD j) := by
  by_cases hn : 0 = n
  case pos =>
    subst hn
    simp [show j < 64 by omega]
  case neg =>
    have hb : b.toBitVec.getLsbD (8 * n + j) = false := BitVec.getLsbD_of_ge _ _ (by omega)
    simp [hn, hb]

theorem getLsbD_decodeU64Be {a b c d e f g i : UInt8} {n j : Nat} (hn : n < 8) (hj : j < 8) :
    (decodeU64Be [a, b, c, d, e, f, g, i]).toBitVec.getLsbD (8 * n + j) =
      ([i, g, f, e, d, c, b, a][n]?.getD 0).toBitVec.getLsbD j := by
  have hbyte := fun (x : UInt8) (k : UInt64) (m : Nat) (hk : k.toNat = 8 * m) (hm : m < 8) =>
    UInt8.getLsbD_shiftLeft x k m n j hk hm hn hj
  simp only [decodeU64Be, List.getElem?_cons_zero, List.getElem?_cons_succ, Option.getD_some,
    UInt64.toBitVec_or, BitVec.getLsbD_or]
  rw [hbyte a 56 7 rfl (by omega), hbyte b 48 6 rfl (by omega), hbyte c 40 5 rfl (by omega),
    hbyte d 32 4 rfl (by omega), hbyte e 24 3 rfl (by omega), hbyte f 16 2 rfl (by omega),
    hbyte g 8 1 rfl (by omega), UInt8.getLsbD_toUInt64 _ _ _ hj]
  interval_cases n <;> simp

-- Eight bytes are the encoding of the number that they decode to.
theorem encodeU64Be_decodeU64Be {bs : Bytes} (h : bs.length = 8) : encodeU64Be (decodeU64Be bs) = bs := by
  match bs with
  | [a, b, c, d, e, f, g, i] =>
    have hbyte : ∀ (k : UInt64) (n : Nat), n < 8 → k.toNat = 8 * n →
        (decodeU64Be [a, b, c, d, e, f, g, i] >>> k).toUInt8 = [i, g, f, e, d, c, b, a][n]?.getD 0 := by
      intro k n hn hk
      apply UInt8.eq_of_toBitVec_eq
      ext j hj
      rw [UInt64.getElem_toUInt8_shiftRight _ _ _ (by omega) hj, hk, getLsbD_decodeU64Be hn hj,
        BitVec.getLsbD_eq_getElem hj]
    have h₀ := hbyte 0 0 (by omega) rfl
    rw [UInt64.shiftRight_zero] at h₀
    rw [encodeU64Be, h₀, hbyte 8 1 (by omega) rfl, hbyte 16 2 (by omega) rfl,
      hbyte 24 3 (by omega) rfl, hbyte 32 4 (by omega) rfl, hbyte 40 5 (by omega) rfl,
      hbyte 48 6 (by omega) rfl, hbyte 56 7 (by omega) rfl]
    rfl

-- The message types of the protocol.
def MsgTypeSupported (t : UInt8) : Prop :=
  t = msgTypeSendFile ∨ t = msgTypeTextMessage ∨ t = msgTypeGetFile

structure ProtocolHeader.Supported (header : ProtocolHeader) : Prop where
  magic   : header.magic = protocolMagic
  version : header.version = protocolVersion
  msgType : MsgTypeSupported header.msgType
  flags   : header.flags = msgFlagNone

-- The fields of a header, by their place among the 13 bytes.
structure SupportedHeader (buf : Bytes) : Prop where
  magic   : buf.take 2 = encodeU16Be protocolMagic
  version : buf[2]? = some protocolVersion
  msgType : ∃ t, buf[3]? = some t ∧ MsgTypeSupported t
  flags   : buf[4]? = some msgFlagNone

-- All bytes of an accepted header are in the result.
theorem decodeHeader_ok {buf : Bytes} {header : ProtocolHeader} (hl : buf.length = 13)
    (h : decodeHeader buf = .ok header) : encodeHeader header = buf ∧ header.Supported := by
  match buf, hl with
  | a :: b :: v :: t :: f :: size, hl =>
    have hsize : size.length = 8 := by simpa using hl
    have hmagic : decodeU16Be (a :: b :: v :: t :: f :: size) = decodeU16Be [a, b] := rfl
    simp only [decodeHeader, hmagic] at h
    split at h
    case isTrue => cases h
    case isFalse hm =>
      split at h
      case isTrue => cases h
      case isFalse hv =>
        split at h
        case isTrue => cases h
        case isFalse ht =>
          split at h
          case isTrue => cases h
          case isFalse hf =>
            cases h
            constructor
            · simp [encodeHeader, encodeU16Be_decodeU16Be, encodeU64Be_decodeU64Be hsize]
            · refine ⟨not_not.mp hm, not_not.mp hv, ?_, not_not.mp hf⟩
              simp only [MsgTypeSupported]
              tauto

theorem decodeHeader_encodeHeader_of_supported {header : ProtocolHeader} (h : header.Supported) :
    decodeHeader (encodeHeader header) = .ok header := by
  have ht := h.msgType
  apply decodeHeader_encodeHeader header h.magic h.version h.flags
  simp only [MsgTypeSupported] at ht
  tauto

theorem decodeHeader_accepts_iff {buf : Bytes} (hl : buf.length = 13) :
    (∃ header, decodeHeader buf = .ok header) ↔ SupportedHeader buf := by
  constructor
  · intro ⟨header, h⟩
    have ⟨he, hs⟩ := decodeHeader_ok hl h
    subst he
    exact ⟨by rw [← hs.magic]; rfl, by rw [← hs.version]; rfl, ⟨_, rfl, hs.msgType⟩, by rw [← hs.flags]; rfl⟩
  · intro ⟨hm, hv, ⟨t, ht, hs⟩, hf⟩
    match buf, hl with
    | a :: b :: v :: t' :: f :: size, hl =>
      have hsize : size.length = 8 := by simpa using hl
      simp only [List.getElem?_cons_succ, List.getElem?_cons_zero, Option.some.injEq] at hv ht hf
      simp only [List.take_succ_cons, List.take_zero] at hm
      subst hv ht hf
      exists ⟨protocolMagic, protocolVersion, t', msgFlagNone, decodeU64Be size⟩
      rw [← decodeHeader_encodeHeader_of_supported ⟨rfl, rfl, hs, rfl⟩]
      simp [encodeHeader, ← hm, encodeU64Be_decodeU64Be hsize]

theorem encodeFilePrefix_eq_wireName {name : CStr} (size : UInt64) (hpos : 0 < name.strlen)
    (hle : name.strlen ≤ maxFileNameLen) :
    encodeFilePrefix name size = .ok (wireName name.chars ++ encodeU64Be size) := by
  simpa [filePrefix] using encodeFilePrefix_eq size.toNat (List.ne_nil_of_length_pos hpos) hle

section

variable {W : Type} {h : Handler Sys W} {e : Env} {w : W}

-- A prefix that is delivered is received, whatever pieces it arrives in.
theorem wp_protoRecvFileTransferPrefix_of_delivered {name : CStr} {size : UInt64} {tail : Bytes}
    (hpos : 0 < name.strlen) (hle : name.strlen ≤ maxFileNameLen) (ha : e.allocs.headD true = true)
    (hd : delivered e.inp = wireName name.chars ++ encodeU64Be size ++ tail)
    {Q : Except ProtocolResult (CStr × UInt64) → Env → W → Prop}
    (hq : ∀ as al, delivered as = tail →
      bytes e.inp = wireName name.chars ++ encodeU64Be size ++ bytes as →
      Q (.ok (name, size)) { e with inp := as, allocs := al } w) :
    Io.wp h protoRecvFileTransferPrefix Q e w := by
  have hlen : name.strlen.toUInt16.toNat = name.strlen :=
    Nat.mod_eq_of_lt (Nat.lt_of_le_of_lt hle (by decide))
  have hn : e.nameLen = name.strlen := by
    rw [Env.nameLen, hd, wireName, List.append_assoc, List.append_assoc, decodeU16Be_encodeU16Be]
    exact hlen
  have hl : (delivered e.inp).length = 2 + name.strlen + 8 + tail.length := by
    rw [hd]
    simp [wireName, CStr.strlen]
    omega
  have hp : e.HasPrefix :=
    ⟨⟨by omega, by omega, by omega, ha, by omega⟩, by omega⟩
  apply wp_protoRecvFileTransferPrefix
  case herr => exact fun _ _ _ hno => absurd hp hno
  case hok =>
    intro raw sz as al _ hraw hsz hb hd'
    have hwire : wireName raw = wireName name.chars ∧ sz = encodeU64Be size ∧ delivered as = tail := by
      rw [hd, List.append_assoc, List.append_assoc] at hd'
      have hwl : (wireName name.chars).length = (wireName raw).length := by
        simp [wireName, hraw, hn, CStr.strlen]
      obtain ⟨h₁, h₂⟩ := List.append_inj hd' hwl
      obtain ⟨h₃, h₄⟩ := List.append_inj h₂ (by simp [hsz])
      exact ⟨h₁.symm, h₃.symm, h₄.symm⟩
    obtain ⟨hw, hs, ht⟩ := hwire
    have hr : raw = name.chars := congrArg (List.drop 2) hw
    have hdec : decodeU64Be (encodeU64Be size) = size := by
      simpa using decodeU64Be_encodeU64Be size []
    subst hr hs
    rw [CStr.ofBuf_chars, hdec]
    exact hq as al ht hb

end

-- Encoders and decoders of the protocol are inverse to each other, and what is sent is what is
-- received, however it is cut into pieces on the way.
structure WireFormat : Prop where
  header_accepts : ∀ buf, buf.length = headerSize →
    ((∃ header, decodeHeader buf = .ok header) ↔ SupportedHeader buf)
  header_bytes : ∀ buf header, buf.length = headerSize → decodeHeader buf = .ok header →
    encodeHeader header = buf
  header : ∀ header : ProtocolHeader, header.Supported →
    decodeHeader (encodeHeader header) = .ok header
  frame_bytes : ∀ buf frame, buf.length = resFrameSize → decodeResFrame buf = .ok frame →
    encodeResFrame frame = .ok buf
  frame : ∀ frame, protoResFrameValid frame = true →
    ∃ buf, encodeResFrame frame = .ok buf ∧ buf.length = resFrameSize ∧ decodeResFrame buf = .ok frame
  file_prefix : ∀ (name : CStr) (size : UInt64), 0 < name.strlen → name.strlen ≤ maxFileNameLen →
    ∃ buf, encodeFilePrefix name size = .ok buf ∧
      ∀ (W : Type) (h : Handler Sys W) (e : Env) (w : W) (tail : Bytes),
        delivered e.inp = buf ++ tail → e.allocs.headD true = true →
        Io.wp h protoRecvFileTransferPrefix (fun r e' _ => r = .ok (name, size) ∧
          delivered e'.inp = tail ∧ bytes e.inp = buf ++ bytes e'.inp) e w
  request : ∀ (msgType : UInt8) (payloadSize : UInt64) (payload : Bytes) (W : Type)
    (h : Handler Sys W) (e : Env) (w : W),
    Io.wp h (clientSendHeaderPayload msgType payloadSize payload) (fun done e' _ =>
      ∃ sent, e'.out = e.out ++ sent ∧
        sent <+: encodeHeader (requestHeader msgType payloadSize) ++ payload ∧
        (done = true ↔ sent = encodeHeader (requestHeader msgType payloadSize) ++ payload) ∧
        ((∀ t ∈ e.snd, t.Benign) → done = true)) e w

theorem wire_round_trip : WireFormat where
  header_accepts _ hl := decodeHeader_accepts_iff hl
  header_bytes _ _ hl h := (decodeHeader_ok hl h).left
  header _ h := decodeHeader_encodeHeader_of_supported h
  frame_bytes buf frame hl h := by
    have ⟨hb, hv⟩ := decodeResFrame_ok hl h
    rw [encodeResFrame_eq hv, hb]
  frame frame hv := ⟨frame.bytes, encodeResFrame_eq hv, rfl, decodeResFrame_bytes hv⟩
  file_prefix name size hpos hle := by
    refine ⟨_, encodeFilePrefix_eq_wireName size hpos hle, ?_⟩
    intro W h e w tail hd ha
    apply wp_protoRecvFileTransferPrefix_of_delivered hpos hle ha hd
    intro as al ht hb
    exact ⟨rfl, ht, hb⟩
  request msgType payloadSize payload W h e w := by
    apply wp_clientSendHeaderPayload
    · intro ts
      exact ⟨_, rfl, List.prefix_rfl, by simp, fun _ => rfl⟩
    · intro sent ts hp hl hb
      have ⟨t, ht, hb⟩ := hb
      refine ⟨sent, rfl, hp, ?_, fun hall => absurd (hall t ht) hb⟩
      constructor
      · intro hd
        cases hd
      · intro hs
        subst hs
        simp at hl
