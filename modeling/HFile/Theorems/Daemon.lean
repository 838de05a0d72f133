import HFile.Source.Daemon

-- A run of processes that share a state file: the steps with the states before them, the latest
-- first, and the state that is reached.
inductive DaemonRun : List (DaemonSys × DaemonOp) → DaemonSys → Prop
  | nil {file} : DaemonRun [] (.init file)
  | cons {run s op s'} : DaemonRun run s → DaemonStep s op s' → DaemonRun ((s, op) :: run) s'

namespace DaemonSys

-- The process is a daemon between a successful write of its state and its shutdown.
def Serving (s : DaemonSys) (p : Nat) : Prop :=
  ∃ opt, s.At p (.serving opt)

-- The state file names the process.
def Names (s : DaemonSys) (p : Nat) : Prop :=
  s.stateRead.map (·.pid) = some p

structure Owned (s : DaemonSys) : Prop where
  unique : ∀ {p q}, s.Serving p → s.Serving q → p = q
  names  : ∀ {p}, s.Serving p → s.Names p

-- A step that takes the state file away from a daemon, that starts a second daemon, or that writes
-- what is not read back as the daemon's process id.
inductive Disturbs (s : DaemonSys) : DaemonOp → Prop
  | remove {p q} : s.Serving q → Disturbs s (.remove p)
  | write {p q text} : s.Serving q → Disturbs s (.write p text)
  | misread {p text} : (daemonStateRead text).map (·.pid) ≠ some p → Disturbs s (.write p text)
  | refresh {p q text} :
    s.Serving q → (daemonStateRead text).map (·.pid) ≠ some q → Disturbs s (.refresh p text)

variable {s s' : DaemonSys} {p q : Nat} {phase : ProcPhase} {text : Bytes}

theorem serving_goto_iff : (s.goto p phase).Serving q ↔
    if q = p then ∃ opt, phase = .serving opt else s.Serving q := by
  by_cases hq : q = p
  case pos => simp [Serving, At, goto, hq]
  case neg => simp [Serving, At, goto, hq]

theorem not_serving_of_at (h : s.At p phase) (hp : ∀ opt, phase ≠ .serving opt) : ¬s.Serving p := by
  rintro ⟨opt, ho⟩
  exact hp opt (Option.some.inj (h.symm.trans ho))

theorem names_setFile : (s.setFile (some text)).Names q ↔
    (daemonStateRead text).map (·.pid) = some q :=
  Iff.rfl

theorem Owned.of_subset (ho : s.Owned) (hf : s'.file = s.file) (hs : ∀ q, s'.Serving q → s.Serving q) :
    s'.Owned where
  unique hp hq := ho.unique (hs _ hp) (hs _ hq)
  names hp     := by
    have hn := ho.names (hs _ hp)
    rwa [Names, stateRead, ← hf] at hn

theorem owned_of_none (h : ∀ q, ¬s.Serving q) : s.Owned where
  unique hp := absurd hp (h _)
  names hp  := absurd hp (h _)

-- A process that does anything but start to serve leaves the others alone.
theorem owned_goto (ho : s.Owned) (hp : ∀ opt, phase ≠ .serving opt) : (s.goto p phase).Owned := by
  have hfile : (s.goto p phase).file = s.file := rfl
  apply ho.of_subset hfile
  intro q hq
  rw [serving_goto_iff] at hq
  split at hq
  case isTrue =>
    have ⟨opt, h⟩ := hq
    exact absurd h (hp opt)
  case isFalse => exact hq

theorem owned_remove_iff (hp : ∀ opt, phase ≠ .serving opt) (hat : ¬s.Serving p) :
    ((s.setFile none).goto p phase).Owned ↔ ¬s.Disturbs (.remove p) := by
  have hserving : ∀ q, ((s.setFile none).goto p phase).Serving q ↔ s.Serving q := by
    intro q
    rw [serving_goto_iff]
    split
    case isTrue h =>
      subst h
      exact ⟨fun ⟨opt, h⟩ => absurd h (hp opt), fun h => absurd h hat⟩
    case isFalse => rfl
  constructor
  · rintro ho ⟨hq⟩
    cases ho.names ((hserving _).mpr hq)
  · intro hd
    exact owned_of_none fun q hq => hd (.remove ((hserving q).mp hq))

theorem owned_write_iff {opt : DaemonOpt} (hat : ¬s.Serving p) :
    ((s.setFile (some text)).goto p (.serving opt)).Owned ↔ ¬s.Disturbs (.write p text) := by
  have hserving : ∀ q, ((s.setFile (some text)).goto p (.serving opt)).Serving q ↔
      q = p ∨ s.Serving q := by
    intro q
    rw [serving_goto_iff]
    split
    case isTrue h  => simp [h]
    case isFalse h => simp [h, Serving, At, setFile]
  constructor
  · rintro ho (_ | hq | hn)
    · cases ho.unique ((hserving _).mpr (.inr hq)) ((hserving _).mpr (.inl rfl))
      exact hat hq
    · exact hn (ho.names ((hserving _).mpr (.inl rfl)))
  · intro hd
    have honly : ∀ q, ((s.setFile (some text)).goto p (.serving opt)).Serving q → q = p := by
      intro q hq
      by_contra hne
      exact hd (.write (((hserving q).mp hq).resolve_left hne))
    refine ⟨fun h₁ h₂ => (honly _ h₁).trans (honly _ h₂).symm, fun {q} hq => ?_⟩
    rw [honly q hq]
    by_contra hn
    exact hd (.misread hn)

theorem owned_refresh_iff (ho : s.Owned) :
    (s.setFile (some text)).Owned ↔ ¬s.Disturbs (.refresh p text) := by
  constructor
  · rintro ho' (_ | _ | _ | ⟨hq, hn⟩)
    exact hn (ho'.names hq)
  · intro hd
    refine ⟨ho.unique, fun {q} hq => ?_⟩
    by_contra hn
    exact hd (.refresh hq hn)

end DaemonSys

theorem DaemonStep.owned_iff {s s' : DaemonSys} {op : DaemonOp} (h : DaemonStep s op s')
    (ho : s.Owned) : s'.Owned ↔ ¬s.Disturbs op := by
  have hquiet : ∀ {s' : DaemonSys} {op : DaemonOp}, s'.Owned → ¬s.Disturbs op →
      (s'.Owned ↔ ¬s.Disturbs op) :=
    fun h h' => ⟨fun _ => h', fun _ => h⟩
  have hrelease : ∀ p, (s.release p).Owned := fun p => ho.of_subset rfl fun _ h => h
  cases h
  case fork p child opt _ _ =>
    have hp : (s.goto p .exited).Owned := DaemonSys.owned_goto ho (by simp)
    exact hquiet (DaemonSys.owned_goto hp (by simp)) nofun
  case bind p opt _ _ =>
    have hp : DaemonSys.Owned { s with ports := Function.update s.ports opt.port (some p) } :=
      ho.of_subset rfl fun _ h => h
    exact hquiet (DaemonSys.owned_goto hp (by simp)) nofun
  case write hat _          => exact DaemonSys.owned_write_iff (DaemonSys.not_serving_of_at hat (by simp))
  case refresh              => exact DaemonSys.owned_refresh_iff ho
  case refreshLate          => exact DaemonSys.owned_refresh_iff ho
  case close p _ _          => exact hquiet (DaemonSys.owned_goto (hrelease p) (by simp)) nofun
  case die p _ _            => exact hquiet (DaemonSys.owned_goto (hrelease p) (by simp)) nofun
  case prepareCleanup hat   =>
    exact DaemonSys.owned_remove_iff (by simp) (DaemonSys.not_serving_of_at hat (by simp))
  case cleanup hat          =>
    exact DaemonSys.owned_remove_iff (by simp) (DaemonSys.not_serving_of_at hat (by simp))
  case controlCleanup hat   =>
    exact DaemonSys.owned_remove_iff (by simp) (DaemonSys.not_serving_of_at hat (by simp))
  all_goals exact hquiet (DaemonSys.owned_goto ho (by simp)) nofun

-- The options of the daemons in the runs below.
def daemonOpt : DaemonOpt :=
  ⟨.lit "d", 80, .lit ""⟩

def daemonText : Bytes :=
  daemonStateText ⟨2, .lit "d", .lit "", .lit "", 80, true⟩

theorem daemonText_eq : serverPersistDaemonState daemonOpt 2 (.lit "") = some daemonText := by
  decide
