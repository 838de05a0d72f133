import HFile.Theorems.Download

open Program (Handler)
open Arrival (bytes delivered)

-- The message that `message_store_set` keeps of a text.
def storedMessage (message : CStr) : CStr :=
  ⟨messageStoreTrim message.chars, messageStoreTrim_nul_free message⟩

-- Everything that `server_handle_text_message` can do.
inductive TextRun (header : ProtocolHeader) (e : Env) (board : Board) : Bytes → Board → Prop
  | failed :
    code ≠ .ok → Sends e.snd (ResFrame.finalFailed code).bytes sent →
    TextRun header e board sent board
  | stored :
    message.length = header.payloadSize.toNat → bytes e.inp = message ++ bytes rest →
    Sends e.snd ResFrame.finalOk.bytes sent →
    TextRun header e board sent ⟨some (storedMessage (.ofBuf message)), board.version + 1⟩

section

variable {e : Env} {w : World}

theorem wp_appSubmitMessage {message : CStr} {Q : ProtocolResult → Env → World → Prop}
    (hok : ∀ al, Q .ok { e with allocs := al }
      { w with board := ⟨some (storedMessage message), w.board.version + 1⟩ })
    (herr : ∀ r al, r ≠ .ok → Q r { e with allocs := al } w) :
    Io.wp World.handle (appSubmitMessage message) Q e w := by
  rw [appSubmitMessage]
  split
  case isTrue => exact herr _ e.allocs (by simp)
  case isFalse =>
    rw [Io.wp_bind, messageStoreSet, Io.wp_bind]
    refine Io.wp_malloc fun b al => ?_
    cases b
    case false => exact herr .errIo al (by simp)
    case true  => exact hok al

theorem wp_serverHandleTextMessage_receive {header : ProtocolHeader}
    {Q : ProtocolResult → Env → World → Prop}
    (hok : ∀ message as al, message.length = header.payloadSize.toNat →
      bytes e.inp = message ++ bytes as → Q .ok { e with inp := as, allocs := al }
        { w with board := ⟨some (storedMessage (.ofBuf message)), w.board.version + 1⟩ })
    (herr : ∀ r as al, r ≠ .ok → Q r { e with inp := as, allocs := al } w) :
    Io.wp World.handle (serverHandleTextMessage.receive header) Q e w := by
  rw [serverHandleTextMessage.receive]
  split
  case isTrue => exact herr _ _ e.allocs (by simp)
  case isFalse =>
    rw [Io.wp_bind]
    refine Io.wp_malloc fun b al => ?_
    cases b
    case false => exact herr .errAlloc _ al (by simp)
    case true =>
      refine Io.wp_bind.mpr (wp_recvAll ?_ ?_)
      · intro message as hl hb _
        dsimp only
        rw [if_neg (not_not.mpr hl)]
        refine wp_appSubmitMessage ?_ fun r al' hr => herr r as al' hr
        exact fun al' => hok message as al' hl hb
      · intro r as _ _ hr _
        cases r
        case none => exact herr .errIo _ al (by simp)
        case some message =>
          dsimp only
          rw [if_pos (hr _ rfl).ne]
          exact herr .errEof _ al (by simp)

theorem wp_serverHandleTextMessage (header : ProtocolHeader) (e : Env) (w : World) :
    Io.wp World.handle (serverHandleTextMessage header) (fun _ e' w' =>
      w'.files = w.files ∧ ∃ sent, e'.out = e.out ++ sent ∧
      TextRun header e w.board sent w'.board) e w := by
  rw [serverHandleTextMessage, Io.wp_bind]
  refine wp_serverHandleTextMessage_receive ?_ ?_
  · intro message as al hl hb
    rw [Io.wp_bind, Io.wp_discard]
    refine wp_sendResFrame_sends ResFrame.finalOk_valid ?_
    intro _ sent ts _ hsent _
    exact ⟨rfl, sent, rfl, .stored hl hb hsent⟩
  · intro r as al hr
    rw [Io.wp_bind, Io.wp_discard, if_neg hr]
    refine wp_sendResFrame_sends (ResFrame.finalFailed_valid hr) ?_
    intro _ sent ts _ hsent _
    exact ⟨rfl, sent, rfl, .failed hr hsent⟩

end

-- The first bytes that are delivered are an acceptable header.
structure Env.HasHeader (e : Env) (header : ProtocolHeader) : Prop where
  len     : 13 ≤ (delivered e.inp).length
  decoded : decodeHeader ((delivered e.inp).take 13) = .ok header

-- The header of a request that has been received.
structure Env.Header (e : Env) (header : ProtocolHeader) (rest : List Arrival) : Prop where
  accepted : ∃ buf, buf.length = 13 ∧ decodeHeader buf = .ok header ∧
    bytes e.inp = buf ++ bytes rest ∧ delivered e.inp = buf ++ delivered rest

theorem Env.Header.hasHeader {e : Env} {header : ProtocolHeader} {rest : List Arrival}
    (h : e.Header header rest) : e.HasHeader header := by
  obtain ⟨buf, hl, hh, -, hd⟩ := h.accepted
  refine ⟨by simp [hd, hl], ?_⟩
  rw [hd, ← hl, List.take_left]
  exact hh

theorem Env.HasHeader.unique {e : Env} {header header' : ProtocolHeader} (h : e.HasHeader header)
    (h' : e.HasHeader header') : header = header' :=
  Except.ok.inj (h.decoded.symm.trans h'.decoded)

-- Everything that `handle_protocol_connection` can do.
inductive NativeRun (opt : ServerOpt) (e : Env) (w : World) : Bytes → World → Prop
  | dropped :
    (∀ header, ¬e.HasHeader header) → NativeRun opt e w [] w
  | text :
    e.Header header rest → header.msgType = msgTypeTextMessage →
    TextRun header { e with inp := rest } w.board sent board →
    NativeRun opt e w sent { w with board := board }
  | upload :
    e.Header header rest → header.msgType = msgTypeSendFile →
    UploadRun opt header { e with inp := rest } w.files sent files →
    NativeRun opt e w sent { w with files := files }
  | download :
    e.Header header rest → header.msgType = msgTypeGetFile →
    DownloadRun World.handle w.files.content opt header { e with inp := rest } w sent →
    NativeRun opt e w sent w

theorem decodeHeader_msgType {buf : Bytes} {header : ProtocolHeader}
    (h : decodeHeader buf = .ok header) : header.msgType = msgTypeTextMessage ∨
    header.msgType = msgTypeSendFile ∨ header.msgType = msgTypeGetFile := by
  simp only [decodeHeader] at h
  split at h <;> try cases h
  split at h <;> try cases h
  split at h <;> try cases h
  split at h <;> try cases h
  dsimp only
  tauto

theorem wp_handleProtocolConnection (opt : ServerOpt) (e : Env) (w : World) :
    Io.wp World.handle (handleProtocolConnection opt) (fun _ e' w' =>
      ∃ sent, e'.out = e.out ++ sent ∧ NativeRun opt e w sent w') e w := by
  rw [handleProtocolConnection, Io.wp_bind]
  refine wp_recvHeader ?_ ?_
  case refine_2 =>
    intro r as hl
    exact ⟨[], by simp, .dropped fun header hh => Nat.not_lt.mpr hh.len hl⟩
  case refine_1 =>
    intro buf as hl hb hd
    dsimp only
    cases hh : decodeHeader buf
    case error r =>
      refine ⟨[], by simp, .dropped fun header hheader => ?_⟩
      have hdec := hheader.decoded
      rw [hd, ← hl, List.take_left] at hdec
      cases hh.symm.trans hdec
    case ok header =>
      have hheader : e.Header header as := ⟨buf, hl, hh, hb, hd⟩
      dsimp only
      split
      case isTrue ht =>
        rw [Io.wp_bind]
        refine Io.wp_mono (wp_serverHandleTextMessage header _ w) ?_
        rintro _ e' ⟨files, board⟩ ⟨hf, sent, hout, hrun⟩
        cases hf
        exact ⟨sent, hout, .text hheader ht hrun⟩
      case isFalse ht₁ =>
        split
        case isTrue ht =>
          rw [Io.wp_bind]
          refine Io.wp_mono (wp_serverHandleFileTransfer opt header _ w) ?_
          rintro _ e' ⟨files, board⟩ ⟨hb, sent, hout, hrun⟩
          cases hb
          exact ⟨sent, hout, .upload hheader ht hrun⟩
        case isFalse ht₂ =>
          have ht : header.msgType = msgTypeGetFile := by
            have := decodeHeader_msgType hh
            tauto
          rw [if_pos ht, Io.wp_bind]
          refine Io.wp_mono (wp_serverHandleGetFile w.shrinks rfl opt header) ?_
          rintro _ e' w' ⟨rfl, sent, hout, hrun⟩
          exact ⟨sent, hout, .download hheader ht hrun⟩
