import HFile.Theorems.Http
import HFile.Theorems.Ownership
import HFile.Theorems.Server

-- What the handler of a message stream sends after the headers.
inductive StreamItem
  | message (version : Nat) (text : CStr)
  | keepalive (version : Nat)

namespace StreamItem

def bytes : StreamItem → Bytes
  | message _ text => ascii "event: message\n" ++ ascii "data: " ++
    httpSendSseMessageEvent.data text ++ ascii "\n\n"
  | keepalive _    => ascii ": keep-alive\n\n"

def version? : StreamItem → Option Nat
  | message v _ => some v
  | keepalive _ => none

end StreamItem

def sseHeaders : Bytes :=
  ascii "HTTP/1.1 200 OK" ++ crlf ++
  ascii "Content-Type: text/event-stream; charset=utf-8" ++ crlf ++
  ascii "Cache-Control: no-cache" ++ crlf ++
  ascii "Connection: close" ++ crlf ++
  ascii "X-Accel-Buffering: no" ++ crlf ++ crlf

theorem httpSendSseHeaders_eq : httpSendSseHeaders = httpSendAll sseHeaders :=
  rfl

-- The variable `version` of a stream, once the snapshot has been taken, and what has been sent.
structure StreamState where
  known : Option Nat
  sent  : List StreamItem

namespace StreamState

def start : StreamState :=
  ⟨none, []⟩

-- The effect of an answer of the message store.
def answer (s : StreamState) : Event → StreamState
  | ⟨.getMessage, (message, version)⟩ =>
    ⟨some version, s.sent ++ (message.map (StreamItem.message version)).toList⟩
  | ⟨.waitMessage _, (some message, version)⟩ => ⟨some version, s.sent ++ [.message version message]⟩
  | ⟨.waitMessage _, (none, version)⟩ => ⟨some version, s.sent ++ [.keepalive version]⟩
  | _ => s

end StreamState

-- A thread that calls `message_store_set`, or one that serves a message stream.
inductive MessageThread
  | set (message : CStr) (env : Env)
  | subscribe (env : Env)

namespace MessageThread

def env : MessageThread → Env
  | set _ env     => env
  | subscribe env => env

def program : MessageThread → Program Sys (Bool × Env)
  | set message env => (messageStoreSet message).run env
  | subscribe env   => httpHandleMessagesStream.run env

-- A stream asks for updates of the version it knows.
inductive Allows : MessageThread → StreamState → SysOp → Prop
  | set : Allows (set message e) s (.setMessage (storedMessage message))
  | snapshot (hk : s.known = none) : Allows (subscribe e) s .getMessage
  | wait (hk : s.known = some v) : Allows (subscribe e) s (.waitMessage v)

def contract (t : MessageThread) : Contract Sys StreamState where
  allows     := t.Allows
  next s o r := fun s' => s' = s.answer ⟨o, r⟩

-- A stream ends after a shutdown is found to be requested, or when something cannot be sent.
def Ends : MessageThread → Bool × Env → StreamState → Prop
  | set _ _, _, _           => True
  | subscribe env, (b, e), s =>
    e.out <+: env.out ++ sseHeaders ++ s.sent.flatMap StreamItem.bytes ∧
    (b = true → e.out = env.out ++ sseHeaders ++ s.sent.dropLast.flatMap StreamItem.bytes)

theorem contract_oracle (t : MessageThread) : Nonempty (Contract.Oracle t.contract) :=
  Contract.Oracle.nonempty fun {_ o} _ => ⟨(default : Sys.Res o), _, rfl⟩

section

open Contract (Rehearsal)

variable {t : MessageThread} {e : Env} {s : StreamState} {f : Contract.Oracle t.contract}

theorem wp_sys_rehearse {o : SysOp} {Q : o.Res → Env → Rehearsal t.contract → Prop}
    (ha : t.Allows s o) (hq : ∀ r f, Q r e ⟨s.answer ⟨o, r⟩, True, f⟩) :
    Io.wp t.contract.rehearse (Io.sys o) Q e ⟨s, True, f⟩ := by
  apply Contract.wp_rehearse (C := t.contract) (Q := fun r x => Q r e x) ha
  intro r s' f hn
  cases hn
  exact hq r f

end

theorem wp_waitForUpdate_rehearse {env e : Env} {s : StreamState} {v : Nat}
    {f : Contract.Oracle (subscribe env).contract} (ha : e.Allocates) (hk : s.known = some v)
    {Q : Option (Option CStr × Nat) → Env → Contract.Rehearsal (subscribe env).contract → Prop}
    (hq : ∀ m v' as f, (∀ b ∈ as, b = true) →
      Q (some (m, v')) { e with allocs := as } ⟨s.answer ⟨.waitMessage v, (m, v')⟩, True, f⟩) :
    Io.wp (subscribe env).contract.rehearse (messageStoreWaitForUpdate v) Q e ⟨s, True, f⟩ := by
  rw [messageStoreWaitForUpdate, Io.wp_bind]
  apply wp_sys_rehearse (.wait hk)
  rintro ⟨m, v'⟩ f
  dsimp only
  split
  case isTrue =>
    rw [Io.wp_bind]
    apply wp_malloc_of_allocates ha
    intro as has
    exact hq m v' as f has
  case isFalse => exact hq m v' e.allocs f ha

theorem wp_loop_rehearse {env e : Env} {s : StreamState} {v : Nat} (rounds : Nat)
    {f : Contract.Oracle (subscribe env).contract} (ha : e.Allocates) (hk : s.known = some v)
    (ho : e.out = env.out ++ sseHeaders ++ s.sent.flatMap StreamItem.bytes) :
    Io.wp (subscribe env).contract.rehearse (httpHandleMessagesStream.loop v rounds)
      (fun b e' x => x.sound ∧ (subscribe env).Ends (b, e') x.state) e ⟨s, True, f⟩ := by
  induction rounds generalizing e s v f
  case zero =>
    rw [httpHandleMessagesStream.loop, Io.wp_bind]
    apply wp_waitForUpdate_rehearse ha hk
    intro m v' as f has
    cases m <;> simp [Ends, StreamState.answer, ho]
  case succ rounds hi =>
    rw [httpHandleMessagesStream.loop, Io.wp_bind]
    apply wp_waitForUpdate_rehearse ha hk
    intro m v' as f has
    cases m
    case none =>
      dsimp only
      rw [Io.wp_bind, httpSendSseKeepalive]
      apply wp_httpSendAll
      intro b sent ts _ hp hb _
      cases b
      case false => 
        refine ⟨trivial, ?_, by simp⟩
        simpa [StreamState.answer, ho, StreamItem.bytes] using hp
      case true =>
        cases hb rfl
        exact hi has rfl (by simp [StreamState.answer, ho, StreamItem.bytes])
    case some m =>
      dsimp only
      rw [Io.wp_bind, httpSendSseMessageEvent]
      apply wp_httpSendAll
      intro b sent ts _ hp hb _
      cases b
      case false => 
        refine ⟨trivial, ?_, by simp⟩
        simpa [StreamState.answer, ho, StreamItem.bytes] using hp
      case true =>
        cases hb rfl
        exact hi has rfl (by simp [StreamState.answer, ho, StreamItem.bytes])

theorem wp_stream_rehearse {env : Env} {f : Contract.Oracle (subscribe env).contract} (ha : env.Allocates) :
    Io.wp (subscribe env).contract.rehearse httpHandleMessagesStream
      (fun b e' x => x.sound ∧ (subscribe env).Ends (b, e') x.state) env ⟨.start, True, f⟩ := by
  rw [httpHandleMessagesStream, Io.wp_bind, httpSendSseHeaders_eq]
  apply wp_httpSendAll
  intro b sent ts _ hp hb _
  cases b
  case false =>
    refine ⟨trivial, ?_, by simp⟩
    simpa [StreamState.start] using hp
  case true =>
    cases hb rfl
    rw [if_neg (by simp), messageStoreGetSnapshot, Io.wp_bind, Io.wp_bind]
    apply wp_sys_rehearse (.snapshot rfl)
    rintro ⟨m, v⟩ f
    cases m
    case none =>
      exact wp_loop_rehearse env.rounds ha rfl (by simp [StreamState.answer, StreamState.start])
    case some m =>
      dsimp only [Option.isSome_some]
      rw [if_pos rfl, Io.wp_bind]
      apply wp_malloc_of_allocates (e := { env with snd := ts, out := _ }) ha
      intro as has
      dsimp only
      rw [if_neg (by simp), Io.wp_pure, Io.wp_bind, httpSendSseMessageEvent]
      apply wp_httpSendAll
      intro b sent ts _ hp hb _
      cases b
      case false =>
        refine ⟨trivial, ?_, by simp⟩
        simpa [StreamState.answer, StreamState.start, StreamItem.bytes] using hp
      case true =>
        cases hb rfl
        exact wp_loop_rehearse env.rounds has rfl
          (by simp [StreamState.answer, StreamState.start, StreamItem.bytes])

theorem wp_set_rehearse {message : CStr} {env : Env} {f : Contract.Oracle (set message env).contract} :
    Io.wp (set message env).contract.rehearse (messageStoreSet message)
      (fun b e' x => x.sound ∧ (set message env).Ends (b, e') x.state) env ⟨.start, True, f⟩ := by
  rw [messageStoreSet, Io.wp_bind]
  apply Io.wp_malloc
  intro b as
  cases b
  case false => exact ⟨trivial, trivial⟩
  case true =>
    rw [if_neg (by simp), Io.wp_bind]
    apply wp_sys_rehearse .set
    intro r f
    exact ⟨trivial, trivial⟩

theorem program_follows {t : MessageThread} (ha : t.env.Allocates) :
    t.program.Follows t.contract t.Ends .start := by
  apply Contract.follows_of_wp t.contract_oracle
  intro f
  cases t
  case set       => exact wp_set_rehearse
  case subscribe => exact wp_stream_rehearse ha

end MessageThread

section

variable {ι : Type}

-- The messages that have been stored. The `v`-th of them has made the version `v`.
def sets (log : List (ι × Event)) : List CStr :=
  log.filterMap fun
    | (_, ⟨.setMessage message, _⟩) => some message
    | _                             => none

theorem sets_append (l₁ l₂ : List (ι × Event)) : sets (l₁ ++ l₂) = sets l₁ ++ sets l₂ :=
  List.filterMap_append

variable [DecidableEq ι]

def streamState (log : List (ι × Event)) (i : ι) : StreamState :=
  log.foldl (fun s x => if x.1 = i then s.answer x.2 else s) .start

theorem streamState_append (log : List (ι × Event)) (i j : ι) (x : Event) :
    streamState (log ++ [(i, x)]) j =
      if i = j then (streamState log j).answer x else streamState log j := by
  simp [streamState]

end

namespace StreamState

def versions (s : StreamState) : List Nat :=
  s.sent.filterMap StreamItem.version?

@[simp]
theorem versions_keepalive (s : StreamState) (v : Nat) (known : Option Nat) :
    versions ⟨known, s.sent ++ [.keepalive v]⟩ = s.versions := by
  rw [versions, List.filterMap_append]
  exact List.append_nil _

@[simp]
theorem versions_message (s : StreamState) (v : Nat) (m : CStr) (known : Option Nat) :
    versions ⟨known, s.sent ++ [.message v m]⟩ = s.versions ++ [v] :=
  List.filterMap_append

-- The version of the last message that was sent, or 0.
def lastVersion (s : StreamState) : Nat :=
  s.versions.getLast?.getD 0

-- A stream knows the last of the messages `ms` that it has sent, and this is the newest one at the
-- time of its last call.
structure Tracks (s : StreamState) (ms : List CStr) : Prop where
  start      : s.known = none → s.sent = []
  last       : ∀ v, s.known = some v → s.lastVersion = v ∧ v ≤ ms.length
  increasing : s.versions.Pairwise (· < ·)
  exact      : ∀ v m, .message v m ∈ s.sent → 0 < v ∧ ms[v - 1]? = some m

variable {s : StreamState} {ms : List CStr} {v : Nat}

theorem le_lastVersion (hs : s.versions.Pairwise (· < ·)) (hv : v ∈ s.versions) : v ≤ s.lastVersion := by
  have hne := List.ne_nil_of_mem hv
  have hlast : s.lastVersion = s.versions.getLast hne := by
    rw [lastVersion, List.getLast?_eq_some_getLast hne, Option.getD_some]
  rw [hlast]
  rw [← List.dropLast_append_getLast hne] at hs hv
  cases List.mem_append.mp hv
  case inl hv => exact Nat.le_of_lt ((List.pairwise_append.mp hs).right.right v hv _ (by simp))
  case inr hv => exact Nat.le_of_eq (List.mem_singleton.mp hv)

namespace Tracks

theorem nothing (ms : List CStr) : StreamState.start.Tracks ms where
  start _       := rfl
  last _ h      := by cases h
  increasing    := .nil
  exact _ _ h   := by cases h

theorem empty : StreamState.Tracks ⟨some 0, []⟩ [] where
  start hn    := by cases hn
  last v hv   := by
    cases hv
    exact ⟨rfl, Nat.le_refl _⟩
  increasing  := .nil
  exact _ _ h := by cases h

theorem append (h : s.Tracks ms) (m : CStr) : s.Tracks (ms ++ [m]) where
  start      := h.start
  last v hv  := by
    have ⟨hl, hle⟩ := h.last v hv
    exact ⟨hl, by simp; omega⟩
  increasing := h.increasing
  exact v m' hm := by
    have ⟨hpos, hget⟩ := h.exact v m' hm
    refine ⟨hpos, ?_⟩
    rw [List.getElem?_append_left (List.getElem?_eq_some_iff.mp hget).choose, hget]

theorem keepalive (h : s.Tracks ms) (hk : s.known = some v) :
    StreamState.Tracks ⟨some v, s.sent ++ [.keepalive v]⟩ ms where
  start hn      := by cases hn
  last v' hv    := by
    cases hv
    simpa [lastVersion] using h.last v hk
  increasing    := by simpa using h.increasing
  exact v' m hm := h.exact v' m (by simpa using hm)

-- The newest message is sent to a stream that has not seen it.
theorem message (h : s.Tracks ms) {m : CStr} (hm : ms.getLast? = some m)
    (hl : s.lastVersion < ms.length) :
    StreamState.Tracks ⟨some ms.length, s.sent ++ [.message ms.length m]⟩ ms where
  start hn       := by cases hn
  last v hv      := by
    cases hv
    simp [lastVersion]
  increasing     := by
    have hlt : ∀ v ∈ s.versions, v < ms.length :=
      fun v hv => Nat.lt_of_le_of_lt (le_lastVersion h.increasing hv) hl
    simpa [List.pairwise_append] using And.intro h.increasing hlt
  exact v m' hm' := by
    cases List.mem_append.mp hm'
    case inl hm' => exact h.exact v m' hm'
    case inr hm' =>
      cases List.mem_singleton.mp hm'
      exact ⟨by omega, by rw [← hm, List.getLast?_eq_getElem?]⟩

end Tracks
end StreamState

section

variable {ι : Type} [DecidableEq ι]

-- The threads, when they take turns as given by a schedule.
def streamRun (threads : ι → MessageThread) (w : World) (sched : List ι) :
    Pool Sys World ι (Bool × Env) :=
  (Pool.start w (fun i => (threads i).program)).run World.handle sched

-- What the stream of `i` has sent, after the turns of a schedule.
def streamAfter (threads : ι → MessageThread) (w : World) (sched : List ι) (i : ι) : StreamState :=
  streamState (streamRun threads w sched).log i

-- The store holds the last of the messages that have been set, and all streams have followed.
structure Delivered (P : Pool Sys World ι (Bool × Env)) (ls : ι → StreamState) : Prop where
  board  : P.world.board = ⟨(sets P.log).getLast?, (sets P.log).length⟩
  state  : ∀ i, ls i = streamState P.log i
  tracks : ∀ i, (ls i).Tracks (sets P.log)

namespace Delivered

variable {P : Pool Sys World ι (Bool × Env)} {ls : ι → StreamState} {i : ι} {t : MessageThread}
variable {o : SysOp} {k : o.Res → Program Sys (Bool × Env)}

theorem start {w : World} (hw : w.board = ⟨none, 0⟩) (procs : ι → Program Sys (Bool × Env)) :
    Delivered (.start w procs) (fun _ => .start) where
  board    := hw
  state _  := rfl
  tracks _ := .nothing _

theorem state_step (h : Delivered P ls) (hp : P.procs i = .call o k) (j : ι) :
    Function.update ls i ((ls i).answer ⟨o, (World.handle o P.world).1⟩) j =
      streamState (P.step World.handle i).log j := by
  rw [Pool.step_of_call hp, streamState_append]
  by_cases hj : i = j
  case pos =>
    subst hj
    simp [h.state]
  case neg => simp [hj, Ne.symm hj, h.state]

-- The answer to a stream that has made a call.
theorem tracks_answer (h : Delivered P ls) (ha : t.Allows (ls i) o) :
    ((ls i).answer ⟨o, (World.handle o P.world).1⟩).Tracks (sets P.log) := by
  have ht := h.tracks i
  have hb := h.board
  cases ha
  case set => exact ht
  case snapshot hk =>
    have hsent := ht.start hk
    cases hm : (sets P.log).getLast?
    case none =>
      have hnil := List.getLast?_eq_none_iff.mp hm
      simp only [World.handle, StreamState.answer, hb, hnil, hsent]
      exact StreamState.Tracks.empty
    case some m =>
      have hpos := List.length_pos_of_mem (List.mem_of_getLast? hm)
      simp only [World.handle, StreamState.answer, hb, hm]
      exact ht.message hm (by simpa [StreamState.lastVersion, StreamState.versions, hsent] using hpos)
  case wait v _ hk =>
    obtain ⟨hl, hle⟩ := ht.last v hk
    by_cases hv : v < (sets P.log).length
    case pos =>
      have hne := List.ne_nil_of_length_pos (Nat.zero_lt_of_lt hv)
      have hm := List.getLast?_eq_some_getLast hne
      simp only [World.handle, StreamState.answer, hb, gt_iff_lt, if_pos hv, hm]
      exact ht.message hm (hl ▸ hv)
    case neg =>
      have he : v = (sets P.log).length := by omega
      simp only [World.handle, StreamState.answer, hb, gt_iff_lt, if_neg hv]
      exact he ▸ ht.keepalive hk

theorem progress (h : Delivered P ls) (hp : P.procs i = .call o k) (ha : t.Allows (ls i) o) :
    ∃ s, t.contract.next (ls i) o (World.handle o P.world).1 s ∧
      Delivered (P.step World.handle i) (Function.update ls i s) := by
  refine ⟨_, rfl, ?_, h.state_step hp, ?_⟩
  case refine_1 =>
    have hb := h.board
    rw [Pool.step_of_call hp, sets_append]
    cases ha <;> simp [World.handle, sets, hb]
  case refine_2 =>
    have hans := h.tracks_answer ha
    have ht : ∀ j, (Function.update ls i ((ls i).answer ⟨o, (World.handle o P.world).1⟩) j).Tracks
        (sets P.log) := by
      intro j
      by_cases hj : j = i
      case pos => simpa [hj] using hans
      case neg => simpa [hj] using h.tracks j
    intro j
    rw [Pool.step_of_call hp, sets_append]
    cases ha
    case set      => exact (ht j).append _
    case snapshot => simpa [sets] using ht j
    case wait     => simpa [sets] using ht j

end Delivered

section

variable {threads : ι → MessageThread} {w : World} {sched : List ι}

theorem streamRun_kept (hw : w.board = ⟨none, 0⟩) (ha : ∀ i, (threads i).env.Allocates) :
    (streamRun threads w sched).Kept (fun i => (threads i).contract) (fun i => (threads i).Ends)
      Delivered := by
  apply Pool.Kept.run (G := fun _ _ => True) (fun h _ hp ha => h.progress hp ha)
  · exact ⟨_, .start hw _, fun i => (threads i).program_follows (ha i)⟩
  · exact .of_forall (fun _ _ => trivial) sched

end

-- The deliveries to the stream `i` after the turns of a schedule.
structure Delivers (threads : ι → MessageThread) (w : World) (sched : List ι) (i : ι) : Prop where
  increasing : (streamAfter threads w sched i).versions.Pairwise (· < ·)
  exact : ∀ v m, .message v m ∈ (streamAfter threads w sched i).sent →
    0 < v ∧ (sets (streamRun threads w sched).log)[v - 1]? = some m
  -- The turn after `s₁` makes the stream send a sign of life.
  keepalive : ∀ s₁ s₂ v, sched = s₁ ++ i :: s₂ →
    (streamAfter threads w (s₁ ++ [i]) i).sent = (streamAfter threads w s₁ i).sent ++ [.keepalive v] →
    (streamAfter threads w s₁ i).lastVersion = (streamRun threads w s₁).world.board.version
  ended : ∀ env b e, threads i = .subscribe env → (streamRun threads w sched).result i = some (b, e) →
    e.out <+: env.out ++ sseHeaders ++ (streamAfter threads w sched i).sent.flatMap StreamItem.bytes ∧
    (b = true → e.out = env.out ++ sseHeaders ++
      (streamAfter threads w sched i).sent.dropLast.flatMap StreamItem.bytes)

section

variable {threads : ι → MessageThread} {w : World} {sched : List ι} {i : ι}

-- A stream is only told that there is no update if it knows the version of the store.
theorem Delivered.lastVersion_of_keepalive {P : Pool Sys World ι (Bool × Env)} {ls : ι → StreamState}
    {t : MessageThread} {o : SysOp} {v : Nat} (h : Delivered P ls) (ha : t.Allows (ls i) o)
    (hs : ((ls i).answer ⟨o, (World.handle o P.world).1⟩).sent = (ls i).sent ++ [.keepalive v]) :
    (ls i).lastVersion = P.world.board.version := by
  cases ha
  case set => simp [StreamState.answer] at hs
  case snapshot => cases hm : P.world.board.message <;> simp [StreamState.answer, World.handle, hm] at hs
  case wait known _ hk =>
    obtain ⟨hl, hle⟩ := (h.tracks i).last known hk
    by_cases hv : known < (sets P.log).length
    case neg =>
      rw [hl, h.board]
      exact Nat.le_antisymm hle (Nat.le_of_not_lt hv)
    case pos =>
      have hne := List.ne_nil_of_length_pos (Nat.zero_lt_of_lt hv)
      have hm := List.getLast?_eq_some_getLast hne
      simp [StreamState.answer, World.handle, h.board, hv, hm] at hs

theorem stream_keepalive (hw : w.board = ⟨none, 0⟩) (ha : ∀ i, (threads i).env.Allocates) {v : Nat}
    (hs : (streamAfter threads w (sched ++ [i]) i).sent =
      (streamAfter threads w sched i).sent ++ [.keepalive v]) :
    (streamAfter threads w sched i).lastVersion = (streamRun threads w sched).world.board.version := by
  have ⟨ls, hd, hf⟩ : (streamRun threads w sched).Kept _ _ _ := streamRun_kept hw ha
  have hrun : streamRun threads w (sched ++ [i]) = (streamRun threads w sched).step World.handle i :=
    Pool.run_append ..
  rw [streamAfter, streamAfter, hrun] at hs
  cases hp : (streamRun threads w sched).procs i
  case ret =>
    rw [Pool.step, hp] at hs
    simp at hs
  case call o k =>
    have hfi := hf i
    rw [hp] at hfi
    rw [Pool.step_of_call hp, streamState_append, if_pos rfl, ← hd.state] at hs
    rw [streamAfter, ← hd.state]
    exact hd.lastVersion_of_keepalive hfi.left hs

-- In every run, a stream gets messages with increasing versions, each of them the one that was stored
-- with its version, and never misses the newest one.
theorem messages_delivered (hw : w.board = ⟨none, 0⟩) (ha : ∀ i, (threads i).env.Allocates)
    (sched : List ι) (i : ι) : Delivers threads w sched i := by
  have ⟨ls, hd, hf⟩ : (streamRun threads w sched).Kept _ _ _ := streamRun_kept hw ha
  have ht := hd.tracks i
  have he := hf i
  rw [hd.state] at ht he
  constructor
  case increasing => exact ht.increasing
  case exact      => exact ht.exact
  case keepalive  =>
    intro s₁ s₂ v _ hs
    exact stream_keepalive hw ha hs
  case ended =>
    intro env b e hi hr
    have hends : (threads i).Ends (b, e) (streamAfter threads w sched i) := Pool.ends_of_result he hr
    rwa [hi] at hends

end

-- Two threads that store a message, and a stream.
def twoSetters : Fin 3 → MessageThread
  | 0 => .set (.lit "a") (.calm 1 [])
  | 1 => .set (.lit "b ") (.calm 1 [])
  | 2 => .subscribe { Env.calm 1 [] with rounds := 2 }

theorem messages_delivered_to_one_stream :
    (streamAfter twoSetters .empty [2, 0, 2, 2, 1, 2] 2).versions = [1, 2] ∧
    Delivers twoSetters .empty [2, 0, 2, 2, 1, 2] 2 := by
  refine ⟨by decide +kernel, messages_delivered rfl ?_ _ _⟩
  intro i
  match i with
  | 0 | 1 | 2 => exact fun b hb => absurd hb List.not_mem_nil

end
