import HFile.Library.Monitor
import HFile.Source.MessageStore

-- src/message_store.c, with its mutex and its condition variable: what the functions do between two calls
-- of `pthread` functions. The store stays initialized.

-- `message_store_state_t`
structure MessageStore where
  message      : Option CStr
  version      : Nat
  shuttingDown : Bool

def MessageStore.init : MessageStore where
  message      := none
  version      := 0
  shuttingDown := false

inductive StoreCall
  | set (message : CStr)
  | getSnapshot
  | waitForUpdate (knownVersion : Nat)
  | shutdown

-- What a call returns: whether `message_store_set` succeeds, and the outputs of the other functions
-- unless they fail.
inductive StoreReturn
  | set (stored : Bool)
  | snapshot (r : Option (Option CStr × Nat))
  | update (r : Option (Option CStr × Nat))
  | shutdown

-- Where a thread is. The variables are those of the functions; `copied` is false if the `malloc` of
-- `copy` has failed.
inductive StorePlace
  | between
  -- `message_store_set`
  | setLock (message : CStr)
  | setMessage (message : CStr)
  | setVersion (message : CStr)
  | setBroadcast (message : CStr)
  | setUnlock (message : CStr)
  -- `message_store_get_snapshot`
  | getMessage
  | getMalloc (src : CStr)
  | getVersion (src : Option CStr) (copied : Bool)
  | getUnlock (src : Option CStr) (copied : Bool) (version : Nat)
  -- `message_store_wait_for_update`
  | waitVersion (known : Nat)
  | waitShutdown (known : Nat)
  | waitClock (known : Nat)
  | waitSleep (known : Nat)
  | waitFail (known : Nat)
  | waitMessage (known : Nat)
  | waitMalloc (known : Nat) (src : CStr)
  | waitVersionOut (known : Nat) (src : Option CStr) (copied : Bool)
  | waitUnlock (known : Nat) (src : Option CStr) (copied : Bool) (version : Nat)
  -- `message_store_shutdown`
  | shutdownSet
  | shutdownBroadcast
  | shutdownUnlock

-- The calls that are left, where the thread is, and what the calls so far have returned.
structure StoreThread where
  todo     : List StoreCall
  place    : StorePlace
  returned : List (StoreCall × StoreReturn)

namespace StoreThread

def start (todo : List StoreCall) : StoreThread where
  todo     := todo
  place    := .between
  returned := []

def goto (t : StoreThread) (place : StorePlace) : StoreThread :=
  { t with place }

def finish (t : StoreThread) (call : StoreCall) (r : StoreReturn) : StoreThread :=
  { t with place := .between, returned := t.returned ++ [(call, r)] }

end StoreThread

-- The copy that is stored: the message without the white space at its end.
def messageStoreCopy (message : CStr) : CStr :=
  ⟨messageStoreTrim message.chars, messageStoreTrim_nul_free message⟩

-- The outputs of a function that has copied `src`, if there is one.
def storeOutputs (src : Option CStr) (copied : Bool) (version : Nat) : Option (Option CStr × Nat) :=
  if src.isSome && !copied then none else some (src, version)

open Monitor (Action)

def storeAct (t : StoreThread) : Action MessageStore StoreThread :=
  match t.place with
  | .between =>
    match t.todo with
    | []                           => .idle
    | .set message :: todo         =>
      let t := { t with todo }
      .choose fun ok => if ok then t.goto (.setLock message) else t.finish (.set message) (.set false)
    | .getSnapshot :: todo         => .lock ({ t with todo }.goto .getMessage)
    | .waitForUpdate known :: todo => .lock ({ t with todo }.goto (.waitVersion known))
    | .shutdown :: todo            => .lock ({ t with todo }.goto .shutdownSet)
  | .setLock message      => .lock (t.goto (.setMessage message))
  | .setMessage message   => .access fun s =>
    (t.goto (.setVersion message), { s with message := some (messageStoreCopy message) })
  | .setVersion message   => .access fun s => (t.goto (.setBroadcast message), { s with version := s.version + 1 })
  | .setBroadcast message => .broadcast (t.goto (.setUnlock message))
  | .setUnlock message    => .unlock (t.finish (.set message) (.set true))
  | .getMessage           => .access fun s =>
    match s.message with
    | none     => (t.goto (.getVersion none false), s)
    | some src => (t.goto (.getMalloc src), s)
  | .getMalloc src                 => .choose fun ok => t.goto (.getVersion (some src) ok)
  | .getVersion src copied         => .access fun s => (t.goto (.getUnlock src copied s.version), s)
  | .getUnlock src copied version  =>
    .unlock (t.finish .getSnapshot (.snapshot (storeOutputs src copied version)))
  | .waitVersion known             => .access fun s =>
    (t.goto (if s.version ≤ known then .waitShutdown known else .waitMessage known), s)
  | .waitShutdown known            => .access fun s =>
    (t.goto (if s.shuttingDown then .waitMessage known else .waitClock known), s)
  | .waitClock known               => .choose fun ok => t.goto (if ok then .waitSleep known else .waitFail known)
  | .waitSleep known               => .wait fun
    | .woken    => t.goto (.waitVersion known)
    | .timedOut => t.goto (.waitMessage known)
    | .failed   => t.goto (.waitFail known)
  | .waitFail known                => .unlock (t.finish (.waitForUpdate known) (.update none))
  | .waitMessage known             => .access fun s =>
    if s.version > known then
      match s.message with
      | none     => (t.goto (.waitVersionOut known none false), s)
      | some src => (t.goto (.waitMalloc known src), s)
    else
      (t.goto (.waitVersionOut known none false), s)
  | .waitMalloc known src                 => .choose fun ok => t.goto (.waitVersionOut known (some src) ok)
  | .waitVersionOut known src copied      => .access fun s => (t.goto (.waitUnlock known src copied s.version), s)
  | .waitUnlock known src copied version  =>
    .unlock (t.finish (.waitForUpdate known) (.update (storeOutputs src copied version)))
  | .shutdownSet       => .access fun s => (t.goto .shutdownBroadcast, { s with shuttingDown := true })
  | .shutdownBroadcast => .broadcast (t.goto .shutdownUnlock)
  | .shutdownUnlock    => .unlock (t.finish .shutdown .shutdown)

-- The call of the store without locks that takes effect when a function unlocks.
def storeRecord (t : StoreThread) : List ((o : SysOp) × o.Res) :=
  match t.place with
  | .setUnlock message                 => [⟨.setMessage (messageStoreCopy message), ()⟩]
  | .getUnlock src _ version           => [⟨.getMessage, (src, version)⟩]
  | .waitUnlock known src _ version    => [⟨.waitMessage known, (src, version)⟩]
  | _                                  => []

def storeCode : Monitor.Code MessageStore StoreThread ((o : SysOp) × o.Res) where
  act    := storeAct
  record := storeRecord
