import HFile.Source.DaemonState

-- The processes that share a state file: `server` of src/server.c, and `control_status` and
-- `control_stop` of src/control.c. Ready pipes and outputs have no counterpart.

structure DaemonOpt where
  path    : CStr
  port    : UInt16
  logPath : CStr

-- What a process does next.
inductive ProcPhase
  -- `server_prepare_daemon_state` and `fork`
  | prepareRead (opt : DaemonOpt)
  | prepareCheck (opt : DaemonOpt) (pid : Nat)
  | prepareCleanup (opt : DaemonOpt)
  | fork (opt : DaemonOpt)
  -- `server_run_process`
  | bind (opt : DaemonOpt)
  | write (opt : DaemonOpt)
  | serving (opt : DaemonOpt)                    -- after a successful write of the state
  | closing (opt : DaemonOpt) (watched : Bool)   -- the watcher is joined, if it was started
  | closeSock (opt : DaemonOpt)
  | cleanup
  -- `control_status` and `control_stop`
  | controlRead (stop : Bool)
  | controlCheck (stop : Bool) (pid : Nat)
  | controlKill (pid : Nat)
  | controlWait (pid : Nat)
  | controlCleanup
  | exited

structure DaemonSys where
  file  : Option Bytes             -- the state file
  ports : UInt16 → Option Nat      -- the process that listens on a port
  procs : Nat → Option ProcPhase   -- process ids are not reused

namespace DaemonSys

def init (file : Option Bytes) : DaemonSys where
  file  := file
  ports := fun _ => none
  procs := fun _ => none

def At (s : DaemonSys) (p : Nat) (phase : ProcPhase) : Prop :=
  s.procs p = some phase

def goto (s : DaemonSys) (p : Nat) (phase : ProcPhase) : DaemonSys :=
  { s with procs := Function.update s.procs p (some phase) }

def setFile (s : DaemonSys) (file : Option Bytes) : DaemonSys :=
  { s with file }

-- The ports of a process are released when its socket is closed.
def release (s : DaemonSys) (p : Nat) : DaemonSys :=
  { s with ports := fun port => if s.ports port = some p then none else s.ports port }

-- What a process finds in the state file.
def stateRead (s : DaemonSys) : Option DaemonState :=
  s.file.bind daemonStateRead

-- The processes that are known not to have exited.
def Running (s : DaemonSys) (p : Nat) : Prop :=
  ∃ phase, s.At p phase ∧ phase ≠ .exited

end DaemonSys

-- `server_persist_daemon_state` of process `p`, which copies the texts to buffers.
def serverPersistDaemonState (opt : DaemonOpt) (p : Nat) (webUrl : CStr) : Option Bytes :=
  if opt.path.chars = [] ∨ opt.port = 0 ∨ p = 0 then none
  else daemonStateWrite {
    pid        := p
    receiveDir := (snprintf 4096 opt.path).1
    webUrl     := (snprintf 256 webUrl).1
    logPath    := (snprintf 4096 opt.logPath).1
    port       := opt.port
    daemonMode := true }

inductive DaemonOp
  | start (p : Nat) (opt : DaemonOpt)       -- `hf -d`
  | control (p : Nat) (stop : Bool)         -- `hf status` and `hf stop`
  | read (p : Nat)
  | readFails (p : Nat)
  | check (p : Nat) (running : Bool)
  | fork (p child : Nat)
  | exit (p : Nat)
  | initFails (p : Nat)
  | bind (p : Nat) (bound : Bool)
  | write (p : Nat) (text : Bytes)
  | writeFails (p : Nat)
  | refresh (p : Nat) (text : Bytes)        -- by `server_state_watcher_main`
  | shutdown (p : Nat)
  | join (p : Nat)
  | close (p : Nat)
  | remove (p : Nat)
  | removeFails (p : Nat)
  | kill (p : Nat) (found : Bool)
  | wait (p : Nat)
  | die (p : Nat)                           -- by a signal that is not handled

-- A process that has exited, or that is not one of these, may still be found to be running.
inductive DaemonStep (s : DaemonSys) : DaemonOp → DaemonSys → Prop
  | start {p opt} :
    s.procs p = none →
    DaemonStep s (.start p opt) (s.goto p (.prepareRead opt))
  | control {p stop} :
    s.procs p = none →
    DaemonStep s (.control p stop) (s.goto p (.controlRead stop))
  | prepareRead {p opt state} :
    s.At p (.prepareRead opt) → s.stateRead = some state →
    DaemonStep s (.read p) (s.goto p (.prepareCheck opt state.pid))
  | prepareReadNone {p opt} :
    s.At p (.prepareRead opt) → s.stateRead = none →
    DaemonStep s (.read p) (s.goto p (.fork opt))
  | prepareReadFails {p opt} :
    s.At p (.prepareRead opt) →
    DaemonStep s (.readFails p) (s.goto p (.fork opt))
  | controlRead {p stop state} :
    s.At p (.controlRead stop) → s.stateRead = some state →
    DaemonStep s (.read p) (s.goto p (.controlCheck stop state.pid))
  | controlReadNone {p stop} :
    s.At p (.controlRead stop) → s.stateRead = none →
    DaemonStep s (.read p) (s.goto p .controlCleanup)
  | controlReadFails {p stop} :
    s.At p (.controlRead stop) →
    DaemonStep s (.readFails p) (s.goto p .controlCleanup)
  | prepareCheckRunning {p opt q} :
    s.At p (.prepareCheck opt q) →
    DaemonStep s (.check p true) (s.goto p .exited)
  | prepareCheckStale {p opt q} :
    s.At p (.prepareCheck opt q) → ¬s.Running q →
    DaemonStep s (.check p false) (s.goto p (.prepareCleanup opt))
  | controlCheckStatus {p q} :
    s.At p (.controlCheck false q) →
    DaemonStep s (.check p true) (s.goto p .exited)
  | controlCheckStop {p q} :
    s.At p (.controlCheck true q) →
    DaemonStep s (.check p true) (s.goto p (.controlKill q))
  | controlCheckStale {p stop q} :
    s.At p (.controlCheck stop q) → ¬s.Running q →
    DaemonStep s (.check p false) (s.goto p .controlCleanup)
  | fork {p child opt} :
    s.At p (.fork opt) → s.procs child = none →
    DaemonStep s (.fork p child) ((s.goto p .exited).goto child (.bind opt))
  | forkFails {p opt} :
    s.At p (.fork opt) →
    DaemonStep s (.exit p) (s.goto p .exited)
  | setupFails {p opt} :
    s.At p (.bind opt) →
    DaemonStep s (.exit p) (s.goto p .exited)
  | initFails {p opt} :
    s.At p (.bind opt) →
    DaemonStep s (.initFails p) (s.goto p .cleanup)
  | bind {p opt} :
    s.At p (.bind opt) → s.ports opt.port = none →
    DaemonStep s (.bind p true)
      ({ s with ports := Function.update s.ports opt.port (some p) }.goto p (.write opt))
  | bindFails {p opt} :
    s.At p (.bind opt) →
    DaemonStep s (.bind p false) (s.goto p (.closing opt false))
  | write {p opt webUrl text} :
    s.At p (.write opt) → serverPersistDaemonState opt p webUrl = some text →
    DaemonStep s (.write p text) ((s.setFile (some text)).goto p (.serving opt))
  | writeFails {p opt} :
    s.At p (.write opt) →
    DaemonStep s (.writeFails p) (s.goto p (.closing opt false))
  | refresh {p opt webUrl text} :
    s.At p (.serving opt) → serverPersistDaemonState opt p webUrl = some text →
    DaemonStep s (.refresh p text) (s.setFile (some text))
  | refreshLate {p opt webUrl text} :
    s.At p (.closing opt true) → serverPersistDaemonState opt p webUrl = some text →
    DaemonStep s (.refresh p text) (s.setFile (some text))
  | shutdown {p opt} :
    s.At p (.serving opt) →
    DaemonStep s (.shutdown p) (s.goto p (.closing opt true))
  | join {p opt watched} :
    s.At p (.closing opt watched) →
    DaemonStep s (.join p) (s.goto p (.closeSock opt))
  | close {p opt} :
    s.At p (.closeSock opt) →
    DaemonStep s (.close p) ((s.release p).goto p .cleanup)
  | prepareCleanup {p opt} :
    s.At p (.prepareCleanup opt) →
    DaemonStep s (.remove p) ((s.setFile none).goto p (.fork opt))
  | cleanup {p} :
    s.At p .cleanup →
    DaemonStep s (.remove p) ((s.setFile none).goto p .exited)
  | controlCleanup {p} :
    s.At p .controlCleanup →
    DaemonStep s (.remove p) ((s.setFile none).goto p .exited)
  | prepareCleanupFails {p opt} :
    s.At p (.prepareCleanup opt) →
    DaemonStep s (.removeFails p) (s.goto p (.fork opt))
  | cleanupFails {p} :
    s.At p .cleanup →
    DaemonStep s (.removeFails p) (s.goto p .exited)
  | controlCleanupFails {p} :
    s.At p .controlCleanup →
    DaemonStep s (.removeFails p) (s.goto p .exited)
  | kill {p q} :
    s.At p (.controlKill q) →
    DaemonStep s (.kill p true) (s.goto p (.controlWait q))
  | killFails {p q} :
    s.At p (.controlKill q) →
    DaemonStep s (.exit p) (s.goto p .exited)
  | killStale {p q} :
    s.At p (.controlKill q) → ¬s.Running q →
    DaemonStep s (.kill p false) (s.goto p .controlCleanup)
  | wait {p q} :
    s.At p (.controlWait q) → ¬s.Running q →
    DaemonStep s (.wait p) (s.goto p .controlCleanup)
  | waitFails {p q} :
    s.At p (.controlWait q) →
    DaemonStep s (.exit p) (s.goto p .exited)
  | die {p phase} :
    s.At p phase →
    DaemonStep s (.die p) ((s.release p).goto p .exited)
