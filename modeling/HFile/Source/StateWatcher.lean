import HFile.Source.Daemon

-- The watcher of the state file: `server_state_watcher_main` of src/server.c. What each call of
-- `net_primary_ipv4` finds (`none` if it fails) and whether each attempt to write the state file
-- succeeds is given by the number of the call.
structure Surroundings where
  ips    : Nat → Option CStr
  writes : Nat → Bool

-- `control_build_url` for a host that has been looked up.
def controlBuildUrl (port : UInt16) (cap : Nat) (ip : Option CStr) : Option CStr :=
  if cap = 0 ∨ port = 0 then none else
  let host := ip.getD (.lit "127.0.0.1")
  let (url, fits) := snprintf cap (.lit "http://" ++ host ++ .lit ":" ++ .decimal port.toNat ++ .lit "/")
  if fits then some url else none

-- The address that a failure leaves is empty, as both callers have it.
def serverBuildCurrentWebUrl (port : UInt16) (ip : Option CStr) : CStr :=
  if port = 0 then .lit "" else (controlBuildUrl port 256 ip).getD (.lit "")

structure ServerStateWatcherCtx where
  receiveDir : CStr
  logPath    : CStr
  pid        : Nat
  port       : UInt16
  daemonMode : Bool
  lastWebUrl : CStr
  deriving DecidableEq

-- The watcher, the state that the file was last written from, and the calls that have been made.
structure Watcher where
  ctx    : ServerStateWatcherCtx
  file   : DaemonState
  ips    : Nat
  writes : Nat
  deriving DecidableEq

-- What `server_persist_daemon_state` refuses.
def serverPersistDaemonState.Refuses (path : CStr) (port : UInt16) (pid : Nat) : Prop :=
  path.chars = [] ∨ port = 0 ∨ pid = 0

instance (path : CStr) (port : UInt16) (pid : Nat) : Decidable (serverPersistDaemonState.Refuses path port pid) :=
  inferInstanceAs <| Decidable (_ ∨ _ ∨ _)

-- The state that `server_persist_daemon_state` gives to `daemon_state_write`.
def serverPersistDaemonState.state (path logPath : CStr) (pid : Nat) (port : UInt16) (daemonMode : Bool)
    (ip : Option CStr) : DaemonState where
  pid        := pid
  receiveDir := (snprintf 4096 path).1
  webUrl     := serverBuildCurrentWebUrl port ip
  logPath    := (snprintf 4096 logPath).1
  port       := port
  daemonMode := daemonMode

-- The first write of the state and the start of the watcher by `server_run_process`.
def serverStartStateWatcher (opt : DaemonOpt) (pid : Nat) (env : Surroundings) : Option Watcher :=
  if serverPersistDaemonState.Refuses opt.path opt.port pid then none else
  let state := serverPersistDaemonState.state opt.path opt.logPath pid opt.port true (env.ips 0)
  if (daemonStateWrite state).isSome && env.writes 0 then
    some {
      ctx := {
        receiveDir := (snprintf 4096 opt.path).1
        logPath    := (snprintf 4096 opt.logPath).1
        pid        := pid
        port       := opt.port
        daemonMode := true
        lastWebUrl := (snprintf 256 (snprintf 256 state.webUrl).1).1 }
      file   := state
      ips    := 1
      writes := 1 }
  else
    none

-- One round of the loop of `server_state_watcher_main`, which looks the address up once to compare
-- it and once more to write it.
def serverStateWatcherMain.round (env : Surroundings) (s : Watcher) : Watcher :=
  let webUrl := serverBuildCurrentWebUrl s.ctx.port (env.ips s.ips)
  if webUrl = s.ctx.lastWebUrl then
    { s with ips := s.ips + 1 }
  else if serverPersistDaemonState.Refuses s.ctx.receiveDir s.ctx.port s.ctx.pid then
    { s with ips := s.ips + 1 }
  else
    let state := serverPersistDaemonState.state s.ctx.receiveDir s.ctx.logPath s.ctx.pid s.ctx.port
      s.ctx.daemonMode (env.ips (s.ips + 1))
    if (daemonStateWrite state).isSome && env.writes s.writes then
      { ctx    := { s.ctx with lastWebUrl := (snprintf 256 webUrl).1 }
        file   := state
        ips    := s.ips + 2
        writes := s.writes + 1 }
    else
      { s with ips := s.ips + 2, writes := s.writes + 1 }

def serverStateWatcherMain (env : Surroundings) (rounds : Nat) (s : Watcher) : Watcher :=
  (serverStateWatcherMain.round env)^[rounds] s
