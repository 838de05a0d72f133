import HFile.Theorems.Upload

open Arrival (bytes delivered)

@[simp]
theorem length_wireName (raw : Bytes) : (wireName raw).length = 2 + raw.length := by
  simp [wireName, Nat.add_comm]

theorem prefix_append_inj {as bs cs ds : Bytes} (h : as ++ bs <+: cs ++ ds)
    (hl : as.length = cs.length) : as = cs ∧ bs <+: ds := by
  obtain ⟨tail, ht⟩ := h
  rw [List.append_assoc] at ht
  have ⟨h₁, h₂⟩ := List.append_inj ht hl
  exact ⟨h₁, tail, h₂⟩

theorem wireName_prefix_inj {raw raw' tail tail' : Bytes}
    (h : wireName raw ++ tail <+: wireName raw' ++ tail') (hl : raw.length ≤ maxFileNameLen) (hl' : raw'.length ≤ maxFileNameLen) :
    raw = raw' ∧ tail <+: tail' := by
  simp only [wireName, List.append_assoc] at h
  obtain ⟨hlen, h⟩ := prefix_append_inj h rfl
  have hmax : maxFileNameLen = 255 := rfl
  have hdec := congrArg decodeU16Be hlen
  have h₁ := decodeU16Be_encodeU16Be raw.length.toUInt16 []
  have h₂ := decodeU16Be_encodeU16Be raw'.length.toUInt16 []
  rw [List.append_nil] at h₁ h₂
  have heq : raw.length = raw'.length := by
    have := congrArg UInt16.toNat (h₁.symm.trans (hdec.trans h₂))
    simp at this
    omega
  exact prefix_append_inj h heq

theorem Env.nameLen_of_wire {e : Env} {raw tail : Bytes} (hl : raw.length ≤ maxFileNameLen)
    (hd : delivered e.inp = wireName raw ++ tail) : e.nameLen = raw.length := by
  have hlt : raw.length < 65536 := Nat.lt_of_le_of_lt hl (by decide)
  rw [Env.nameLen, hd, wireName, List.append_assoc, decodeU16Be_encodeU16Be]
  simpa using hlt

-- A prefix whose bytes are all delivered is received.
theorem Env.hasPrefix_of_wire {e : Env} {raw size tail : Bytes} (hpos : 0 < raw.length)
    (hl : raw.length ≤ maxFileNameLen) (hs : size.length = 8) (ha : e.allocs.headD true = true)
    (hd : delivered e.inp = wireName raw ++ size ++ tail) : e.HasPrefix := by
  have hn : e.nameLen = raw.length := Env.nameLen_of_wire hl (hd.trans (List.append_assoc ..))
  have hlen : (delivered e.inp).length = 2 + raw.length + 8 + tail.length := by simp [hd, hs]; omega
  exact ⟨⟨by omega, by omega, by omega, ha, by omega⟩, by omega⟩

namespace Env.Prefix

variable {e : Env} {raw size raw' size' : Bytes} {rest rest' : List Arrival}

-- A prefix on the wire is read back as it was written.
theorem eq_of_wire (h : e.Prefix raw size rest) (hl : raw'.length ≤ maxFileNameLen)
    (hs : size'.length = 8) (hw : wireName raw' ++ size' <+: delivered e.inp) :
    raw = raw' ∧ size = size' := by
  obtain ⟨tail, ht⟩ := hw
  have hlen : raw.length = raw'.length :=
    h.raw_length.trans (Env.nameLen_of_wire hl (ht.symm.trans (List.append_assoc ..)))
  have h₁ := List.append_inj (ht.trans h.delivered_eq) (by simp [hlen, hs, h.size_length])
  have h₂ := List.append_inj h₁.left (by simp [hlen])
  have h₃ := List.append_inj h₂.left rfl
  exact ⟨h₃.right.symm, h₂.right.symm⟩

theorem unique (h : e.Prefix raw size rest) (h' : e.Prefix raw' size' rest') :
    raw = raw' ∧ size = size' :=
  h.eq_of_wire (h'.raw_length ▸ h'.le) h'.size_length ⟨_, h'.delivered_eq.symm⟩

end Env.Prefix

namespace UploadRun

variable {opt : ServerOpt} {header : ProtocolHeader} {e : Env} {fs fs' : Files} {sent : Bytes}

-- Only a complete prefix that passes the checks is answered with READY/OK.
theorem accepted (h : UploadRun opt header e fs sent fs') (hr : ResFrame.readyOk.bytes <+: sent) :
    ¬header.payloadSize < protoFileTransferPrefixSize 1 ∧
    ∃ raw size rest, e.Prefix raw size rest ∧ AcceptsUpload header raw size := by
  have hst : statusOk ≠ statusRejected := by decide
  have hne : ∀ {code}, ResFrame.readyOk ≠ ResFrame.readyRejected code :=
    fun he => hst (congrArg ResFrame.status he)
  cases h
  case tooSmall hsent          => exact absurd (ResFrame.eq_of_prefix hr hsent.isPrefix) hne
  case silent                  => simp [ResFrame.bytes] at hr
  case refused hsent           => exact absurd (ResFrame.eq_of_prefix hr hsent.isPrefix) hne
  case unready hs hp ha _ _    => exact ⟨hs, _, _, _, hp, ha⟩
  case failed hs hp ha _ _ _   => exact ⟨hs, _, _, _, hp, ha⟩
  case stored hs hp ha _ _ _ _ => exact ⟨hs, _, _, _, hp, ha⟩

-- If the server's sends work, every such prefix is answered with READY/OK.
theorem ready (h : UploadRun opt header e fs sent fs') {raw size : Bytes} {rest : List Arrival}
    (hs : ¬header.payloadSize < protoFileTransferPrefixSize 1) (hp : e.Prefix raw size rest)
    (ha : AcceptsUpload header raw size) (hb : ∀ t ∈ e.snd, t.Benign) :
    ResFrame.readyOk.bytes <+: sent := by
  cases h
  case tooSmall hs' _ => exact absurd hs' hs
  case silent _ hn => exact absurd hp.toHasPrefix hn
  case refused hp' hn _ _ =>
    obtain ⟨rfl, rfl⟩ := hp.unique hp'
    exact absurd ha hn
  case unready hsent hne => exact absurd (hsent.eq_of_benign hb) hne
  case failed => exact List.prefix_append _ _
  case stored => exact List.prefix_append _ _

end UploadRun

-- The first frame of the server says that it is ready for the content of a file.
def AnswersReady (server : Io α) (e : Env) (w : World) : Prop :=
  e.out ++ ResFrame.readyOk.bytes <+: (Io.exec World.handle server e w).1.2.out

instance (server : Io α) (e : Env) (w : World) : Decidable (AnswersReady server e w) :=
  inferInstanceAs <| Decidable (_ <+: _)

section

variable {opt : ServerOpt} {header : ProtocolHeader} {e : Env} {w : World}

theorem AnswersReady.accepted (h : AnswersReady (serverHandleFileTransfer opt header) e w) :
    ¬header.payloadSize < protoFileTransferPrefixSize 1 ∧
    ∃ raw size rest, e.Prefix raw size rest ∧ AcceptsUpload header raw size := by
  have ⟨_, sent, hout, hrun⟩ := Io.wp_iff_exec.mp (wp_serverHandleFileTransfer opt header e w)
  rw [AnswersReady, hout, List.prefix_append_right_inj] at h
  exact hrun.accepted h

theorem answersReady_of_accepted {raw size : Bytes} {rest : List Arrival}
    (hs : ¬header.payloadSize < protoFileTransferPrefixSize 1) (hp : e.Prefix raw size rest)
    (ha : AcceptsUpload header raw size) (hb : ∀ t ∈ e.snd, t.Benign) :
    AnswersReady (serverHandleFileTransfer opt header) e w := by
  have ⟨_, sent, hout, hrun⟩ := Io.wp_iff_exec.mp (wp_serverHandleFileTransfer opt header e w)
  rw [AnswersReady, hout, List.prefix_append_right_inj]
  exact hrun.ready hs hp ha hb

end

-- The sum that is compared with the payload size, as a natural number.
theorem toNat_prefix_add {name : CStr} (hl : name.strlen ≤ maxFileNameLen) (size : UInt64) :
    (protoFileTransferPrefixSize name.strlen.toUInt16 + size).toNat =
      (2 + name.strlen + 8 + size.toNat) % 2 ^ 64 := by
  have hlt : name.strlen < 65536 := Nat.lt_of_le_of_lt hl (by decide)
  have hmod : name.strlen % 65536 = name.strlen := Nat.mod_eq_of_lt hlt
  simp [protoFileTransferPrefixSize, protoFileNameOnlySize, UInt64.toNat_add, hmod]

-- A prefix that arrives in one piece.
theorem Env.prefix_calm {name : CStr} (hpos : 1 ≤ name.strlen) (hl : name.strlen ≤ maxFileNameLen)
    (size : UInt64) : (Env.calm 0 (Arrival.push (wireName name.chars ++ encodeU64Be size) [])).Prefix
      name.chars (encodeU64Be size) [] := by
  have hd : delivered (Arrival.push (wireName name.chars ++ encodeU64Be size) []) =
      wireName name.chars ++ encodeU64Be size ++ [] := by simp
  have hn : (Env.calm 0 (Arrival.push (wireName name.chars ++ encodeU64Be size) [])).nameLen =
      name.strlen := Env.nameLen_of_wire hl (hd.trans (List.append_assoc ..))
  exact ⟨Env.hasPrefix_of_wire hpos hl rfl rfl hd, hn.symm, rfl, by simp [Env.calm], hd⟩

-- The sizes of an accepted upload agree, except that the sum of the sizes of its parts may exceed
-- the payload size by 2^64.
theorem upload_sizes_agree_iff (payloadSize contentSize : UInt64) (name : CStr)
    (hpos : 1 ≤ name.strlen) (hl : name.strlen ≤ maxFileNameLen) :
    (∀ (opt : ServerOpt) (header : ProtocolHeader) (e : Env) (w : World),
      header.payloadSize = payloadSize →
      wireName name.chars ++ encodeU64Be contentSize <+: delivered e.inp →
      AnswersReady (serverHandleFileTransfer opt header) e w →
      payloadSize.toNat = 2 + name.strlen + 8 + contentSize.toNat ∧ contentSize ≤ payloadSize) ↔
    ¬(fsValidateFileName name = true ∧ 11 ≤ payloadSize.toNat ∧
      payloadSize.toNat + 2 ^ 64 = 2 + name.strlen + 8 + contentSize.toNat) := by
  have hsum := toNat_prefix_add hl contentSize
  have hdec : decodeU64Be (encodeU64Be contentSize) = contentSize := by
    simpa using decodeU64Be_encodeU64Be contentSize []
  have hmin : (protoFileTransferPrefixSize 1).toNat = 11 := by decide
  have hmax : maxFileNameLen = 255 := rfl
  have hlt := contentSize.toNat_lt
  have hlt' := payloadSize.toNat_lt
  constructor
  · intro hall ⟨hv, hsmall, hwrap⟩
    have hready : AnswersReady (serverHandleFileTransfer ⟨.lit "d", 0⟩
        { initHeader with payloadSize := payloadSize })
        (Env.calm 0 (Arrival.push (wireName name.chars ++ encodeU64Be contentSize) [])) .empty := by
      refine answersReady_of_accepted ?_ (Env.prefix_calm hpos hl contentSize) ?_ (by simp [Env.calm])
      · rw [UInt64.lt_iff_toNat_lt, hmin]
        exact Nat.not_lt.mpr hsmall
      · refine ⟨by simpa using hv, UInt64.toNat_inj.mp ?_⟩
        simp only [CStr.ofBuf_chars, hdec, hsum]
        omega
    have := hall _ _ _ _ rfl (by simp [Env.calm]) hready
    omega
  · intro hno opt header e w hh hw hready
    obtain ⟨hsmall, raw, size, rest, hp, hv, hsize⟩ := hready.accepted
    obtain ⟨rfl, rfl⟩ := hp.eq_of_wire hl (length_encodeU64Be _) hw
    rw [CStr.ofBuf_chars] at hv hsize
    rw [hdec, hh] at hsize
    rw [hh, UInt64.lt_iff_toNat_lt, hmin] at hsmall
    have hmod : payloadSize.toNat = _ := (congrArg UInt64.toNat hsize).trans hsum
    have hne : payloadSize.toNat + 2 ^ 64 ≠ 2 + name.strlen + 8 + contentSize.toNat :=
      fun hwrap => hno ⟨hv, by omega, hwrap⟩
    rw [UInt64.le_iff_toNat_le]
    constructor <;> omega

theorem upload_sizes_agree_iff_for_a_short_name :
    (∀ (opt : ServerOpt) (header : ProtocolHeader) (e : Env) (w : World),
      header.payloadSize = 14 →
      wireName (CStr.lit "f").chars ++ encodeU64Be 3 <+: delivered e.inp →
      AnswersReady (serverHandleFileTransfer opt header) e w →
      (14 : UInt64).toNat = 2 + (CStr.lit "f").strlen + 8 + (3 : UInt64).toNat ∧ (3 : UInt64) ≤ 14) ↔
    ¬(fsValidateFileName (.lit "f") = true ∧ 11 ≤ (14 : UInt64).toNat ∧
      (14 : UInt64).toNat + 2 ^ 64 = 2 + (CStr.lit "f").strlen + 8 + (3 : UInt64).toNat) :=
  upload_sizes_agree_iff 14 3 (.lit "f") (by decide) (by decide)

-- A payload of 11 bytes is accepted for a name of 6 bytes and a content of 2^64 - 5 bytes.
theorem upload_size_wraps :
    AnswersReady (serverHandleFileTransfer ⟨.lit "d", 0⟩ { initHeader with payloadSize := 11 })
      (.calm 1 (Arrival.push (wireName (CStr.lit "abcdef").chars ++
        encodeU64Be 0xFFFFFFFFFFFFFFFB) [])) .empty ∧
    (11 : UInt64).toNat ≠ 2 + (CStr.lit "abcdef").strlen + 8 + (0xFFFFFFFFFFFFFFFB : UInt64).toNat := by
  decide +kernel
