import HFile.Source.ConnTracker

-- src/server.c: the connections of a server and their threads. What a handler does with its socket
-- is left open.

-- How far `server_run_listener`, `server_start_connection_thread` and
-- `server_connection_thread_main` have come with a connection.
inductive ConnPhase
  | accepted               -- `accept` has returned
  | tracked (entry : Ptr)  -- `server_conn_tracker_begin` has returned an entry
  | running (entry : Ptr)  -- the thread has been created
  | closed (entry : Ptr)   -- the thread has closed the socket
  | failed (entry : Ptr)   -- the thread could not be created
  | refused                -- `server_start_connection_thread` has returned 1
  | done
  deriving DecidableEq

def ConnPhase.entry : ConnPhase → Option Ptr
  | tracked p | running p | closed p | failed p => some p
  | accepted | refused | done                   => none

structure ServerConn where
  conn  : Nat
  phase : ConnPhase

-- What a descriptor was opened for.
inductive Owner
  | connection (i : Nat)
  | other
  deriving DecidableEq

structure Server where
  tracker : ServerConnTracker
  conns   : List ServerConn       -- in the order in which they were accepted
  fds     : Nat → Option Owner    -- the descriptors that are open

namespace Server

def init : Server where
  tracker := .init
  conns   := []
  fds     := fun _ => none

def setPhase (s : Server) (i : Nat) (phase : ConnPhase) : Server :=
  { s with conns := s.conns.modify i ({ · with phase }) }

def socketClose (s : Server) (conn : Nat) : Server :=
  { s with fds := Function.update s.fds conn none }

def setTracker (s : Server) (tracker : ServerConnTracker) : Server :=
  { s with tracker }

-- ServerConn `i` is in a phase.
def At (s : Server) (i conn : Nat) (phase : ConnPhase) : Prop :=
  s.conns[i]? = some ⟨conn, phase⟩

end Server

inductive ServerOp
  | accept (conn : Nat)
  | mallocFails (i : Nat)                   -- no memory for the context of the thread
  | begin (i : Nat) (block : Option Ptr)
  | create (i : Nat) (created : Bool)       -- `pthread_create`
  | close (i : Nat)                         -- the thread's `socket_close`
  | «end» (i : Nat)                         -- the thread's `server_conn_tracker_end`
  | endFailed (i : Nat)                     -- the same after a failed `pthread_create`
  | closeRefused (i : Nat)                  -- the listener's `socket_close`
  | shutdownAll
  | waitIdle
  | openOther (fd : Nat)
  | closeOther (fd : Nat)

-- A new descriptor can have any number that is not in use.
inductive ServerStep (s : Server) : ServerOp → Server → Prop
  | accept {conn} :
    s.fds conn = none →
    ServerStep s (.accept conn) { s with
      conns := s.conns ++ [⟨conn, .accepted⟩]
      fds   := Function.update s.fds conn (some (.connection s.conns.length)) }
  | mallocFails {i conn} :
    s.At i conn .accepted →
    ServerStep s (.mallocFails i) (s.setPhase i .refused)
  | begin {i conn block p t} :
    s.At i conn .accepted →
    (∀ p, block = some p → p ∉ s.tracker.blocks) →
    serverConnTrackerBegin s.tracker conn block = (some p, t) →
    ServerStep s (.begin i block) ((s.setTracker t).setPhase i (.tracked p))
  | beginNull {i conn block t} :
    s.At i conn .accepted →
    (∀ p, block = some p → p ∉ s.tracker.blocks) →
    serverConnTrackerBegin s.tracker conn block = (none, t) →
    ServerStep s (.begin i block) ((s.setTracker t).setPhase i .refused)
  | create {i conn p} :
    s.At i conn (.tracked p) →
    ServerStep s (.create i true) (s.setPhase i (.running p))
  | createFails {i conn p} :
    s.At i conn (.tracked p) →
    ServerStep s (.create i false) (s.setPhase i (.failed p))
  | close {i conn p} :
    s.At i conn (.running p) →
    ServerStep s (.close i) ((s.socketClose conn).setPhase i (.closed p))
  | «end» {i conn p t} :
    s.At i conn (.closed p) →
    serverConnTrackerEnd s.tracker (some p) = some t →
    ServerStep s (.end i) ((s.setTracker t).setPhase i .done)
  | endFailed {i conn p t} :
    s.At i conn (.failed p) →
    serverConnTrackerEnd s.tracker (some p) = some t →
    ServerStep s (.endFailed i) ((s.setTracker t).setPhase i .refused)
  | closeRefused {i conn} :
    s.At i conn .refused →
    ServerStep s (.closeRefused i) ((s.socketClose conn).setPhase i .done)
  | shutdownAll {t} :
    serverConnTrackerShutdownAll s.tracker = some t →
    ServerStep s .shutdownAll (s.setTracker t)
  | waitIdle :
    serverConnTrackerWaitIdle s.tracker →
    ServerStep s .waitIdle s
  | openOther {fd} :
    s.fds fd = none →
    ServerStep s (.openOther fd) { s with fds := Function.update s.fds fd (some .other) }
  | closeOther {fd} :
    s.fds fd = some .other →
    ServerStep s (.closeOther fd) (s.socketClose fd)
