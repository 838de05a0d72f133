import HFile.Source.StateWatcher
import HFile.Theorems.Paths

-- The address in the state file is the one that the watcher remembers.
def Watcher.Recorded (s : Watcher) : Prop :=
  s.file.webUrl = s.ctx.lastWebUrl

-- The next round finds another address than the watcher remembers, and goes on to write the file.
def Watcher.Attempts (env : Surroundings) (s : Watcher) : Prop :=
  serverBuildCurrentWebUrl s.ctx.port (env.ips s.ips) ≠ s.ctx.lastWebUrl ∧
  ¬serverPersistDaemonState.Refuses s.ctx.receiveDir s.ctx.port s.ctx.pid

-- What the next round would write, and whether that succeeds.
def Watcher.next (env : Surroundings) (s : Watcher) : DaemonState :=
  serverPersistDaemonState.state s.ctx.receiveDir s.ctx.logPath s.ctx.pid s.ctx.port s.ctx.daemonMode
    (env.ips (s.ips + 1))

def Watcher.Writes (env : Surroundings) (s : Watcher) : Prop :=
  (daemonStateWrite (s.next env)).isSome = true ∧ env.writes s.writes = true

-- If the next round changes the file, then its two lookups lead to the same address.
def Watcher.Steady (env : Surroundings) (s : Watcher) : Prop :=
  s.Attempts env → s.Writes env →
  serverBuildCurrentWebUrl s.ctx.port (env.ips s.ips) = serverBuildCurrentWebUrl s.ctx.port (env.ips (s.ips + 1))

theorem strlen_serverBuildCurrentWebUrl_lt (port : UInt16) (ip : Option CStr) :
    (serverBuildCurrentWebUrl port ip).strlen < 256 := by
  rw [serverBuildCurrentWebUrl]
  split
  case isTrue => decide
  case isFalse =>
    cases h : controlBuildUrl port 256 ip
    case none => decide
    case some url =>
      rw [controlBuildUrl] at h
      split at h
      case isTrue => cases h
      case isFalse =>
        dsimp only at h
        split at h
        case isFalse => cases h
        case isTrue hfits =>
          cases h
          rw [Option.getD_some, snprintf_fits hfits]
          exact of_decide_eq_true hfits

theorem snprintf_serverBuildCurrentWebUrl (port : UInt16) (ip : Option CStr) :
    (snprintf 256 (serverBuildCurrentWebUrl port ip)).1 = serverBuildCurrentWebUrl port ip :=
  snprintf_fits (decide_eq_true (strlen_serverBuildCurrentWebUrl_lt port ip))

namespace serverStateWatcherMain

-- Everything that a round can do.
theorem round_cases (env : Surroundings) (s : Watcher) :
    (¬s.Attempts env ∧ round env s = { s with ips := s.ips + 1 }) ∨
    (s.Attempts env ∧ ¬s.Writes env ∧ round env s = { s with ips := s.ips + 2, writes := s.writes + 1 }) ∨
    (s.Attempts env ∧ s.Writes env ∧ round env s = {
      ctx    := { s.ctx with lastWebUrl := serverBuildCurrentWebUrl s.ctx.port (env.ips s.ips) }
      file   := s.next env
      ips    := s.ips + 2
      writes := s.writes + 1 }) := by
  rw [round]
  dsimp only
  split
  case isTrue h => exact .inl ⟨fun ha => ha.left h, rfl⟩
  case isFalse hne =>
    split
    case isTrue h => exact .inl ⟨fun ha => ha.right h, rfl⟩
    case isFalse hr =>
      split
      case isTrue hw =>
        rw [snprintf_serverBuildCurrentWebUrl]
        exact .inr (.inr ⟨⟨hne, hr⟩, by simpa [Watcher.Writes, Watcher.next] using hw, rfl⟩)
      case isFalse hw => exact .inr (.inl ⟨⟨hne, hr⟩, by simpa [Watcher.Writes, Watcher.next] using hw, rfl⟩)

theorem recorded_round_iff {env : Surroundings} {s : Watcher} (h : s.Recorded) :
    (round env s).Recorded ↔ s.Steady env := by
  obtain ⟨ha, hr⟩ | ⟨ha, hw, hr⟩ | ⟨ha, hw, hr⟩ := round_cases env s
  · rw [hr]
    exact ⟨fun _ hn _ => absurd hn ha, fun _ => h⟩
  · rw [hr]
    exact ⟨fun _ _ hn => absurd hn hw, fun _ => h⟩
  · rw [hr]
    exact ⟨fun hrec _ _ => hrec.symm, fun hst => (hst ha hw).symm⟩

theorem round_idle {env : Surroundings} {s : Watcher} (h : ¬s.Attempts env) :
    round env s = { s with ips := s.ips + 1 } := by
  obtain ⟨_, hr⟩ | ⟨ha, _⟩ | ⟨ha, _⟩ := round_cases env s
  · exact hr
  · exact absurd ha h
  · exact absurd ha h

-- A round only changes what the watcher remembers of the address.
theorem round_ctx (env : Surroundings) (s : Watcher) :
    ∃ url, (round env s).ctx = { s.ctx with lastWebUrl := url } := by
  obtain ⟨_, hr⟩ | ⟨_, _, hr⟩ | ⟨_, _, hr⟩ := round_cases env s
  · exact ⟨s.ctx.lastWebUrl, by rw [hr]⟩
  · exact ⟨s.ctx.lastWebUrl, by rw [hr]⟩
  · exact ⟨_, by rw [hr]⟩

-- Once the address stays the same, the file has it after a round that does not fail to write.
theorem current_of_stable {env : Surroundings} {s : Watcher} {ip : Option CStr} (h : s.Recorded)
    (hc : ¬serverPersistDaemonState.Refuses s.ctx.receiveDir s.ctx.port s.ctx.pid)
    (hip : ∀ k ≥ s.ips, env.ips k = ip) (hw : s.Attempts env → s.Writes env) :
    (round env s).file.webUrl = serverBuildCurrentWebUrl s.ctx.port ip := by
  have h₁ : env.ips s.ips = ip := hip _ (Nat.le_refl _)
  have h₂ : env.ips (s.ips + 1) = ip := hip _ (Nat.le_succ _)
  obtain ⟨ha, hr⟩ | ⟨ha, hn, hr⟩ | ⟨_, _, hr⟩ := round_cases env s
  · rw [hr]
    have heq : serverBuildCurrentWebUrl s.ctx.port (env.ips s.ips) = s.ctx.lastWebUrl :=
      not_ne_iff.mp fun hne => ha ⟨hne, hc⟩
    calc s.file.webUrl
      _ = s.ctx.lastWebUrl                                  := h
      _ = serverBuildCurrentWebUrl s.ctx.port (env.ips s.ips) := heq.symm
      _ = serverBuildCurrentWebUrl s.ctx.port ip              := by rw [h₁]
  · exact absurd (hw ha) hn
  · rw [hr]
    change serverBuildCurrentWebUrl s.ctx.port (env.ips (s.ips + 1)) = _
    rw [h₂]

-- The file of every round is the one that the watcher remembers, if and only if no round that
-- changes the file has two different addresses.
theorem recorded_iff (env : Surroundings) {s : Watcher} (h : s.Recorded) :
    (∀ n, (serverStateWatcherMain env n s).Recorded) ↔ ∀ n, (serverStateWatcherMain env n s).Steady env := by
  have hsucc : ∀ n, serverStateWatcherMain env (n + 1) s = round env (serverStateWatcherMain env n s) :=
    fun n => Function.iterate_succ_apply' ..
  constructor
  case mp =>
    intro hrec n
    exact (recorded_round_iff (hrec n)).mp (hsucc n ▸ hrec (n + 1))
  case mpr =>
    intro hst n
    induction n
    case zero      => exact h
    case succ n hi => exact hsucc n ▸ (recorded_round_iff hi).mpr (hst n)

theorem ctx_eq (env : Surroundings) (n : Nat) (s : Watcher) :
    ∃ url, (serverStateWatcherMain env n s).ctx = { s.ctx with lastWebUrl := url } := by
  induction n
  case zero => exact ⟨s.ctx.lastWebUrl, rfl⟩
  case succ n hi =>
    obtain ⟨url, hi⟩ := hi
    obtain ⟨url', hr⟩ := round_ctx env (serverStateWatcherMain env n s)
    refine ⟨url', ?_⟩
    rw [serverStateWatcherMain, Function.iterate_succ_apply', ← serverStateWatcherMain, hr, hi]

end serverStateWatcherMain

theorem recorded_of_start {opt : DaemonOpt} {pid : Nat} {env : Surroundings} {s : Watcher}
    (h : serverStartStateWatcher opt pid env = some s) :
    s.Recorded ∧ s.ctx.port = opt.port ∧
    ¬serverPersistDaemonState.Refuses s.ctx.receiveDir s.ctx.port s.ctx.pid := by
  rw [serverStartStateWatcher] at h
  split at h
  case isTrue => cases h
  case isFalse hr =>
    dsimp only at h
    split at h
    case isFalse => cases h
    case isTrue hw =>
      cases h
      refine ⟨?_, rfl, ?_⟩
      case refine_1 =>
        simp only [Watcher.Recorded, serverPersistDaemonState.state, snprintf_serverBuildCurrentWebUrl]
      case refine_2 =>
        have hdir : (snprintf 4096 opt.path).1.chars ≠ [] := by
          intro hnil
          rcases List.take_eq_nil_iff.mp hnil with h | h
          · cases h
          · exact hr (.inl h)
        rintro (h | h)
        · exact hdir h
        · exact hr (.inr h)

-- The watcher's memory matches the file in all of a run if and only if no round changes the file
-- while the address changes between its two lookups. In such a run the file is up to date as soon
-- as the address stays the same.
theorem serverStateWatcherMain_recorded_iff {opt : DaemonOpt} {pid : Nat} {env : Surroundings} {s : Watcher}
    (h : serverStartStateWatcher opt pid env = some s) :
    ((∀ n, (serverStateWatcherMain env n s).Recorded) ↔ ∀ n, (serverStateWatcherMain env n s).Steady env) ∧
    ((∀ n, (serverStateWatcherMain env n s).Steady env) → ∀ n ip,
      let t := serverStateWatcherMain env n s
      (∀ k ≥ t.ips, env.ips k = ip) → (t.Attempts env → t.Writes env) →
      (serverStateWatcherMain env (n + 1) s).file.webUrl = serverBuildCurrentWebUrl opt.port ip) := by
  obtain ⟨hrec, hport, hready⟩ := recorded_of_start h
  have hiff := serverStateWatcherMain.recorded_iff env hrec
  refine ⟨hiff, fun hst n ip => ?_⟩
  intro t hip hw
  obtain ⟨url, hctx⟩ := serverStateWatcherMain.ctx_eq env n s
  have hround : serverStateWatcherMain env (n + 1) s = serverStateWatcherMain.round env t :=
    Function.iterate_succ_apply' ..
  have hc : ¬serverPersistDaemonState.Refuses t.ctx.receiveDir t.ctx.port t.ctx.pid := by
    rw [hctx]
    exact hready
  have hcur := serverStateWatcherMain.current_of_stable (hiff.mpr hst n) hc hip hw
  rw [hround, hcur, hctx, hport]

def watcherOpt : DaemonOpt :=
  ⟨.lit "d", 80, .lit ""⟩

-- The address of a machine that does not move.
def calmSurroundings : Surroundings where
  ips    := fun _ => some (.lit "10.0.0.2")
  writes := fun _ => true

-- The watcher of process 7 which has found the first address, remembers it, and has written the
-- second one.
def watcherAt (remembered written : CStr) (ips writes : Nat) : Watcher where
  ctx    := ⟨.lit "d", .lit "", 7, 80, true, remembered⟩
  file   := ⟨7, .lit "d", written, .lit "", 80, true⟩
  ips    := ips
  writes := writes

theorem serverStateWatcherMain_recorded_iff_calm :
    let s := watcherAt (.lit "http://10.0.0.2:80/") (.lit "http://10.0.0.2:80/") 1 1
    serverStartStateWatcher watcherOpt 7 calmSurroundings = some s ∧
    (∀ n, (serverStateWatcherMain calmSurroundings n s).Recorded) ∧
    (serverStateWatcherMain calmSurroundings 1 s).file.webUrl =
      serverBuildCurrentWebUrl 80 (some (.lit "10.0.0.2")) := by
  intro s
  have hs : serverStartStateWatcher watcherOpt 7 calmSurroundings = some s := by decide
  have hwrite : (daemonStateWrite (s.next calmSurroundings)).isSome = true := by decide
  have hsteady : ∀ n, (serverStateWatcherMain calmSurroundings n s).Steady calmSurroundings := fun _ _ _ => rfl
  obtain ⟨hiff, hcur⟩ := serverStateWatcherMain_recorded_iff hs
  exact ⟨hs, hiff.mpr hsteady, hcur hsteady 0 _ (fun _ _ => rfl) fun _ => ⟨hwrite, rfl⟩⟩

-- The address changes between the two lookups of the first round, and changes back after them.
def flappingSurroundings : Surroundings where
  ips := fun k =>
    if k = 0 then some (.lit "10.0.0.1") else if k = 2 then some (.lit "10.0.0.3") else some (.lit "10.0.0.2")
  writes := fun _ => true

-- The file has the wrong address for good.
theorem serverStateWatcherMain_stale :
    let s := watcherAt (.lit "http://10.0.0.1:80/") (.lit "http://10.0.0.1:80/") 1 1
    serverStartStateWatcher watcherOpt 7 flappingSurroundings = some s ∧
    ¬(serverStateWatcherMain flappingSurroundings 1 s).Recorded ∧
    (∀ k ≥ (serverStateWatcherMain flappingSurroundings 1 s).ips,
      flappingSurroundings.ips k = some (.lit "10.0.0.2")) ∧
    ∀ n, (serverStateWatcherMain flappingSurroundings (n + 1) s).file.webUrl ≠
      serverBuildCurrentWebUrl 80 (some (.lit "10.0.0.2")) := by
  intro s
  have hips : ∀ k ≥ 3, flappingSurroundings.ips k = some (.lit "10.0.0.2") := by
    intro k hk
    rw [flappingSurroundings]
    dsimp only
    rw [if_neg (by omega), if_neg (by omega)]
  have hurl : serverBuildCurrentWebUrl 80 (some (.lit "10.0.0.2")) = .lit "http://10.0.0.2:80/" := by decide
  have hrun : ∀ n, serverStateWatcherMain flappingSurroundings (n + 1) s =
      watcherAt (.lit "http://10.0.0.2:80/") (.lit "http://10.0.0.3:80/") (3 + n) 2 := by
    intro n
    induction n
    case zero => decide
    case succ n hi =>
      have hidle : ¬(watcherAt (.lit "http://10.0.0.2:80/") (.lit "http://10.0.0.3:80/") (3 + n) 2).Attempts
          flappingSurroundings := by
        rintro ⟨hne, _⟩
        rw [watcherAt, hips (3 + n) (by omega)] at hne
        exact hne hurl
      rw [serverStateWatcherMain, Function.iterate_succ_apply', ← serverStateWatcherMain, hi,
        serverStateWatcherMain.round_idle hidle]
      rfl
  refine ⟨by decide, ?_, ?_, fun n => ?_⟩
  · rw [hrun 0, Watcher.Recorded]
    decide
  · rw [hrun 0]
    exact hips
  · rw [hrun n, hurl]
    show ¬CStr.lit "http://10.0.0.3:80/" = .lit "http://10.0.0.2:80/"
    decide
