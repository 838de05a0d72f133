import HFile.Source.Protocol

-- Bit `i` of the byte of `v` at bit `k`, put back to where it came from.
theorem UInt64.getElem_byte (v k : UInt64) (i : Nat) (hk : k.toNat < 64) (hi : i < 64) :
    ((v >>> k).toUInt8.toUInt64 <<< k).toBitVec[i] =
      (decide (k.toNat ≤ i ∧ i < k.toNat + 8) && v.toBitVec[i]) := by
  have hm : (k.toBitVec % 64#64).toNat = k.toNat := by simp [Nat.mod_eq_of_lt hk]
  simp only [UInt64.toBitVec_shiftLeft, UInt64.toBitVec_shiftRight, UInt8.toBitVec_toUInt64,
    UInt64.toBitVec_toUInt8]
  by_cases h : k.toNat ≤ i
  case pos =>
    have h₁ : ¬i < k.toNat := by omega
    have h₂ : k.toNat + (i - k.toNat) = i := by omega
    by_cases h' : i < k.toNat + 8
    · simp [BitVec.getElem_shiftLeft, hm, h, h₁, h₂, h', show i - k.toNat < 8 by omega, hi]
    · simp [BitVec.getElem_shiftLeft, hm, h, h₁, h', show ¬i - k.toNat < 8 by omega]
  case neg =>
    simp [BitVec.getElem_shiftLeft, hm, h]

theorem decodeU16Be_encodeU16Be (v : UInt16) (bs : Bytes) :
    decodeU16Be (encodeU16Be v ++ bs) = v := by
  apply UInt16.eq_of_toBitVec_eq
  ext i hi
  simp only [decodeU16Be, encodeU16Be, List.cons_append, List.getElem?_cons_zero,
    List.getElem?_cons_succ, Option.getD_some, UInt16.toBitVec_or, UInt16.toBitVec_shiftLeft,
    UInt16.toBitVec_shiftRight, UInt8.toBitVec_toUInt16, UInt16.toBitVec_toUInt8,
    BitVec.getElem_or]
  interval_cases i <;> simp

theorem encodeU16Be_decodeU16Be (a b : UInt8) : encodeU16Be (decodeU16Be [a, b]) = [a, b] := by
  simp only [decodeU16Be, encodeU16Be, List.cons.injEq, and_true]
  constructor
  · apply UInt8.eq_of_toBitVec_eq
    ext i hi
    simp
    interval_cases i <;> simp
  · apply UInt8.eq_of_toBitVec_eq
    ext i hi
    simp

theorem decodeU64Be_encodeU64Be (v : UInt64) (bs : Bytes) :
    decodeU64Be (encodeU64Be v ++ bs) = v := by
  apply UInt64.eq_of_toBitVec_eq
  ext i hi
  have h₀ := UInt64.getElem_byte v 0 i (by decide) hi
  simp only [UInt64.shiftRight_zero, UInt64.shiftLeft_zero] at h₀
  simp only [decodeU64Be, encodeU64Be, List.cons_append, List.getElem?_cons_zero,
    List.getElem?_cons_succ, Option.getD_some, UInt64.toBitVec_or, BitVec.getElem_or]
  rw [h₀, UInt64.getElem_byte v 8 i (by decide) hi, UInt64.getElem_byte v 16 i (by decide) hi,
    UInt64.getElem_byte v 24 i (by decide) hi, UInt64.getElem_byte v 32 i (by decide) hi,
    UInt64.getElem_byte v 40 i (by decide) hi, UInt64.getElem_byte v 48 i (by decide) hi,
    UInt64.getElem_byte v 56 i (by decide) hi]
  -- Every bit lies in exactly one of the eight bytes.
  simp only [← Bool.and_or_distrib_right, ← Bool.decide_or]
  rw [Bool.and_eq_right_iff_imp]
  intro _
  simp
  omega

@[simp]
theorem length_encodeU16Be (v : UInt16) : (encodeU16Be v).length = 2 :=
  rfl

@[simp]
theorem length_encodeU64Be (v : UInt64) : (encodeU64Be v).length = 8 :=
  rfl

-- Two bytes are the encoding of the number that they decode to.
theorem encodeU16Be_decodeU16Be_of_length {bs : Bytes} (h : bs.length = 2) :
    encodeU16Be (decodeU16Be bs) = bs := by
  match bs with
  | [a, b] => exact encodeU16Be_decodeU16Be a b

@[simp]
theorem length_encodeHeader (header : ProtocolHeader) : (encodeHeader header).length = 13 :=
  rfl

-- A header that is well-formed is accepted as it was encoded.
theorem decodeHeader_encodeHeader (header : ProtocolHeader) (hm : header.magic = protocolMagic)
    (hv : header.version = protocolVersion) (hf : header.flags = msgFlagNone)
    (ht : header.msgType = msgTypeTextMessage ∨ header.msgType = msgTypeSendFile ∨
      header.msgType = msgTypeGetFile) :
    decodeHeader (encodeHeader header) = .ok header := by
  have h₁ : decodeU16Be (encodeHeader header) = header.magic := by
    rw [encodeHeader, List.append_assoc, decodeU16Be_encodeU16Be]
  have h₂ : (encodeHeader header).drop 5 = encodeU64Be header.payloadSize := rfl
  have h₃ : decodeU64Be (encodeU64Be header.payloadSize) = header.payloadSize := by
    simpa using decodeU64Be_encodeU64Be header.payloadSize []
  have h₄ : ¬(header.msgType ≠ msgTypeTextMessage ∧ header.msgType ≠ msgTypeSendFile ∧
      header.msgType ≠ msgTypeGetFile) := by tauto
  have h₅ : (encodeHeader header)[2]?.getD 0 = header.version := rfl
  have h₆ : (encodeHeader header)[3]?.getD 0 = header.msgType := rfl
  have h₇ : (encodeHeader header)[4]?.getD 0 = header.flags := rfl
  simp only [decodeHeader, h₁, h₂, h₃, h₅, h₆, h₇, hm, hv, hf, h₄, ne_eq, not_true_eq_false,
    if_false]
  congr
  exacts [hm.symm, hv.symm, hf.symm]

-- The four bytes of a frame.
def ResFrame.bytes (frame : ResFrame) : Bytes :=
  frame.phase :: frame.status :: encodeU16Be frame.errorCode

@[simp]
theorem ResFrame.length_bytes (frame : ResFrame) : frame.bytes.length = 4 :=
  rfl

theorem ResFrame.bytes_injective {f g : ResFrame} (h : f.bytes = g.bytes) : f = g := by
  simp only [bytes, List.cons.injEq] at h
  have hc := congrArg decodeU16Be h.right.right
  have h₁ := decodeU16Be_encodeU16Be f.errorCode []
  have h₂ := decodeU16Be_encodeU16Be g.errorCode []
  simp only [List.append_nil] at h₁ h₂
  exact ResFrame.ext h.left h.right.left (h₁.symm.trans (hc.trans h₂))

theorem encodeResFrame_eq {frame : ResFrame} (h : protoResFrameValid frame = true) :
    encodeResFrame frame = .ok frame.bytes := by
  simp [encodeResFrame, h, ResFrame.bytes]

-- A frame that is accepted is what its four bytes say, and it is well-formed.
theorem decodeResFrame_ok {buf : Bytes} {frame : ResFrame} (hl : buf.length = 4)
    (h : decodeResFrame buf = .ok frame) : buf = frame.bytes ∧ protoResFrameValid frame = true := by
  match buf with
  | [a, b, c, d] =>
    simp only [decodeResFrame] at h
    split at h
    case isTrue hv =>
      cases h
      refine ⟨?_, hv⟩
      simp [ResFrame.bytes, encodeU16Be_decodeU16Be]
    case isFalse => cases h

theorem decodeResFrame_bytes {frame : ResFrame} (h : protoResFrameValid frame = true) :
    decodeResFrame frame.bytes = .ok frame := by
  have hc := decodeU16Be_encodeU16Be frame.errorCode []
  rw [List.append_nil] at hc
  have heq : (⟨frame.bytes[0]?.getD 0, frame.bytes[1]?.getD 0, decodeU16Be (frame.bytes.drop 2)⟩ :
      ResFrame) = frame := ResFrame.ext rfl rfl hc
  rw [decodeResFrame, heq, if_pos h]
