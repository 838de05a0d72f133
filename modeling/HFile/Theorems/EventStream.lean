import HFile.Library.EventStream
import HFile.Theorems.Streams

open EventStream (State decode lf cr)

-- The state in which a line of data has been started.
def dataState (data acc : Bytes) : State :=
  { State.initial with type := ascii "message", data := data, line := ascii "data: " ++ acc }

theorem step_lf {s : State} (hs : s.afterCr = false) : s.step lf = s.endLine := by
  rw [State.step, if_pos rfl, if_neg (by simp [hs])]

theorem endLine_dataState (data acc : Bytes) : (dataState data acc).endLine =
    ({ State.initial with type := ascii "message", data := data ++ acc ++ [lf] }, []) := by
  have hdata : ascii "data: " = [100, 97, 116, 97, 58, 32] := by decide
  have hname : ascii "data" = [100, 97, 116, 97] := by decide
  have hevent : ascii "event" = [101, 118, 101, 110, 116] := by decide
  simp [dataState, hdata, State.endLine, State.field, State.initial, hname, hevent, EventStream.colon,
    EventStream.value, EventStream.space]

-- The line feed in a message starts the next line of data.
theorem decode_break (data acc : Bytes) :
    decode (dataState data acc) (ascii "\ndata: ") = (dataState (data ++ acc ++ [lf]) [], []) := by
  have hline : ascii "\ndata: " = lf :: ascii "data: " := by decide
  have htext : ∀ c ∈ ascii "data: ", c ≠ lf ∧ c ≠ cr := by decide +kernel
  rw [hline, decode, step_lf rfl, endLine_dataState, EventStream.decode_text rfl htext]
  rfl

-- The data lines of a message, from the middle of a line on.
theorem decode_data {data acc message : Bytes} (h : cr ∉ message) :
    decode (dataState data acc)
      (message.flatMap (fun c => if c = 10 then ascii "\ndata: " else [c]) ++ [lf]) =
      ({ State.initial with type := ascii "message", data := data ++ acc ++ message ++ [lf] }, []) := by
  induction message generalizing data acc
  case nil =>
    rw [List.flatMap_nil, List.nil_append, List.append_nil, decode, step_lf rfl, endLine_dataState]
    rfl
  case cons c message hi =>
    rw [List.mem_cons, not_or] at h
    rw [List.flatMap_cons, List.append_assoc, EventStream.decode_append]
    by_cases hc : c = 10
    case pos =>
      rw [if_pos hc, decode_break, hi h.right, hc]
      simp [lf]
    case neg =>
      have htext : decode (dataState data acc) [c] = (dataState data (acc ++ [c]), []) := by
        rw [EventStream.decode_text rfl (by simpa using ⟨hc, Ne.symm h.left⟩)]
        simp [dataState]
      rw [if_neg hc, htext, hi h.right]
      simp

theorem decode_type :
    decode .initial (ascii "event: message\n") = ({ State.initial with type := ascii "message" }, []) := by
  decide

-- A message without carriage returns is received as a single event.
theorem decode_event {version : Nat} {message : CStr} (h : cr ∉ message.chars) :
    decode .initial (StreamItem.message version message).bytes =
      (.initial, [⟨ascii "message", message.chars⟩]) := by
  have hstart : decode { State.initial with type := ascii "message" } (ascii "data: ") =
      (dataState [] [], []) := by
    rw [EventStream.decode_text rfl (by decide +kernel)]
    rfl
  have hend : decode { State.initial with type := ascii "message", data := message.chars ++ [lf] } [lf] =
      (.initial, [⟨ascii "message", message.chars⟩]) := by
    have htype : ascii "message" ≠ [] := by decide
    simp [decode, step_lf, State.endLine, State.dispatch, State.initial, htype]
  have hbytes : (StreamItem.message version message).bytes = ascii "event: message\n" ++
      (ascii "data: " ++ (httpSendSseMessageEvent.data message ++ [lf] ++ [lf])) := by
    rw [StreamItem.bytes, show ascii "\n\n" = [lf] ++ [lf] by decide]
    simp only [List.append_assoc]
  rw [hbytes, EventStream.decode_append, decode_type, EventStream.decode_append, hstart,
    EventStream.decode_append, httpSendSseMessageEvent.data, decode_data h]
  exact congrArg (fun r => (r.1, [] ++ ([] ++ ([] ++ r.2)))) hend

-- What a successful run writes is received as a single event with the message, which leaves nothing
-- behind.
def SentFaithfully (message : CStr) (e e' : Env) : Prop :=
  ∃ sent, e'.out = e.out ++ sent ∧ decode .initial sent = (.initial, [⟨ascii "message", message.chars⟩])

-- Messages are received as they are, unless they have a carriage return.
theorem httpSendSseMessageEvent_faithful_iff (message : CStr) :
    (∀ (e : Env) (w : World), Io.wp World.handle (httpSendSseMessageEvent message)
      (fun ok e' _ => ok = true → SentFaithfully message e e') e w) ↔ cr ∉ message.chars := by
  constructor
  case mp =>
    intro h
    have hrun : Io.wp World.handle (httpSendSseMessageEvent message)
        (fun ok e' _ => ok = true ∧ e'.out = (StreamItem.message 0 message).bytes) (.calm 0 []) World.empty := by
      rw [httpSendSseMessageEvent]
      apply wp_httpSendAll
      intro ok sent ts _ _ hok hall
      have ht : ok = true := by
        apply hall
        simp [Env.calm]
      rw [hok ht]
      exact ⟨ht, rfl⟩
    obtain ⟨hok, hout⟩ := Io.wp_iff_exec.mp hrun
    obtain ⟨sent, hout', hd⟩ := Io.wp_iff_exec.mp (h (.calm 0 []) World.empty) hok
    have hev : ⟨ascii "message", message.chars⟩ ∈ (decode .initial sent).2 := by
      rw [hd]
      exact List.mem_singleton_self _
    exact EventStream.decode_clean ⟨List.not_mem_nil, List.not_mem_nil⟩ sent _ hev
  case mpr =>
    intro h e w
    rw [httpSendSseMessageEvent]
    apply wp_httpSendAll
    intro ok sent ts _ _ hok _ ht
    rw [hok ht]
    exact ⟨_, rfl, @decode_event 0 _ h⟩

-- A carriage return ends the line of data, and what follows it is not received.
theorem carriage_return_ends_data :
    (Io.exec World.handle (httpSendSseMessageEvent (.lit "a\rb")) (.calm 0 []) World.empty).1.1 = true ∧
    decode .initial
      (Io.exec World.handle (httpSendSseMessageEvent (.lit "a\rb")) (.calm 0 []) World.empty).1.2.out =
      (.initial, [⟨ascii "message", ascii "a"⟩]) ∧
    (CStr.lit "a\rb").chars ≠ ascii "a" := by
  decide
