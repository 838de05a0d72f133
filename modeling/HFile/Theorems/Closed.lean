import HFile.Source.Http

-- A property of programs that only depends on what they are made of. All programs that do nothing
-- but send have it.
structure Io.Closed (M : {α : Type} → Io α → Prop) : Prop where
  pure   : ∀ {α} (a : α), M (pure a)
  bind   : ∀ {α β} {m : Io α} {f : α → Io β}, M m → (∀ a, M (f a)) → M (m >>= f)
  malloc : M Io.malloc
  send   : ∀ bs, M (sendAll bs)

-- Such a property, if programs that receive have it as well.
structure Io.ClosedRecv (M : {α : Type} → Io α → Prop) : Prop extends Io.Closed M where
  recv : ∀ n, M (recvAll n)

section

variable {M : {α : Type} → Io α → Prop}

theorem Io.Closed.discard (h : Closed M) {m : Io α} (hm : M m) : M (Functor.discard m) := by
  have hd : (Functor.discard m : Io Unit) = (m >>= fun _ => Pure.pure ()) := by
    simp only [Functor.discard, map_const, Function.comp, ← bind_pure_comp, Function.const]
  rw [hd]
  exact h.bind hm fun _ => h.pure _

theorem closed_protoSendPayload (h : Io.Closed M) (payload : Bytes) :
    M (protoSendPayload payload) := by
  apply h.bind (h.send _)
  intro n
  split <;> exact h.pure _

theorem closed_sendResFrame (h : Io.Closed M) (frame : ResFrame) : M (sendResFrame frame) := by
  rw [sendResFrame]
  split
  · exact h.pure _
  · exact closed_protoSendPayload h _

theorem closed_serverSendResponse (h : Io.Closed M) (phase status : UInt8) (r : ProtocolResult) :
    M (serverSendResponse phase status r) :=
  closed_sendResFrame h _

theorem closed_httpSendAll (h : Io.Closed M) (bs : Bytes) : M (httpSendAll bs) :=
  h.bind (h.send _) fun _ => h.pure _

theorem closed_httpSendResponse (h : Io.Closed M) (status : Nat) (reason contentType : CStr)
    (body : Bytes) : M (httpSendResponse status reason contentType body) := by
  rw [httpSendResponse]
  dsimp only
  split
  case isTrue => exact h.pure _
  case isFalse =>
    apply h.bind (closed_httpSendAll h _)
    intro sent
    split
    case isTrue => exact h.pure _
    case isFalse =>
      split
      case isTrue =>
        apply h.bind (closed_httpSendAll h _)
        intro sent
        split <;> exact h.pure _
      case isFalse => exact h.pure _

theorem closed_httpSendJsonError (h : Io.Closed M) (status : Nat) (reason message : CStr) :
    M (httpSendJsonError status reason message) :=
  closed_httpSendResponse h ..

theorem closed_httpSendSseMessageEvent (h : Io.Closed M) (message : CStr) :
    M (httpSendSseMessageEvent message) :=
  closed_httpSendAll h _

theorem closed_httpParseMessageJson (h : Io.Closed M) (body : Bytes) :
    M (httpParseMessageJson body) := by
  apply h.bind h.malloc
  intro b
  split <;> exact h.pure _

theorem closed_recvHeader (h : Io.ClosedRecv M) : M recvHeader := by
  apply h.bind (h.recv _)
  intro buf
  split <;> exact h.pure _

theorem closed_recvResFrame (h : Io.ClosedRecv M) : M recvResFrame := by
  apply h.bind (h.recv _)
  intro buf
  split <;> exact h.pure _

theorem closed_protoRecvFileNameOnly (h : Io.ClosedRecv M) : M protoRecvFileNameOnly := by
  apply h.bind (h.recv _)
  intro netLen
  split
  case h_1 => exact h.pure _
  case h_2 netLen =>
    split
    case isTrue => exact h.pure _
    case isFalse =>
      dsimp only
      split
      case isTrue => exact h.pure _
      case isFalse =>
        apply h.bind h.malloc
        intro b
        split
        case isTrue => exact h.pure _
        case isFalse =>
          apply h.bind (h.recv _)
          intro fileName
          split
          case h_1 => exact h.pure _
          case h_2 => split <;> exact h.pure _

theorem closed_protoRecvFileTransferPrefix (h : Io.ClosedRecv M) : M protoRecvFileTransferPrefix := by
  apply h.bind (closed_protoRecvFileNameOnly h)
  intro r
  split
  case h_1 => exact h.pure _
  case h_2 =>
    apply h.bind (h.recv _)
    intro size
    split
    case h_1 => exact h.pure _
    case h_2 => split <;> exact h.pure _

end
