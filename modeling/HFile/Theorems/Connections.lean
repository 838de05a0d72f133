import HFile.Source.Connections
import HFile.Theorems.ConnTracker

-- A run of the server: what happens and the states that are passed, both with the latest first.
inductive ServerRun : List ServerOp → List Server → Prop
  | nil : ServerRun [] [.init]
  | cons {ops s ss op s'} :
    ServerRun ops (s :: ss) → ServerStep s op s' → ServerRun (op :: ops) (s' :: s :: ss)

-- The connection still owns its socket.
def ConnPhase.holds : ConnPhase → Bool
  | closed _ | done => false
  | _               => true

namespace Server

variable {s : Server} {i j conn conn' : Nat} {phase phase' : ConnPhase} {p : Ptr}

-- The entries of all connections that have one.
def entries (s : Server) : List Ptr :=
  s.conns.filterMap (·.phase.entry)

theorem mem_entries : p ∈ s.entries ↔ ∃ i conn phase, s.At i conn phase ∧ phase.entry = some p := by
  rw [entries, List.mem_filterMap]
  constructor
  · rintro ⟨⟨conn, phase⟩, hmem, hp⟩
    have ⟨i, hi⟩ := List.mem_iff_getElem?.mp hmem
    exact ⟨i, conn, phase, hi, hp⟩
  · rintro ⟨i, conn, phase, hi, hp⟩
    exact ⟨⟨conn, phase⟩, List.mem_of_getElem? hi, hp⟩

theorem At.unique (h : s.At i conn phase) (h' : s.At i conn' phase') : conn = conn' ∧ phase = phase' := by
  have he := h.symm.trans h'
  simpa using he

theorem at_setPhase_self (h : s.At i conn phase) : (s.setPhase i phase').At i conn phase' := by
  rw [At] at h
  simp [At, setPhase, h]

theorem at_setPhase_of_ne (hj : j ≠ i) :
    (s.setPhase i phase').At j conn phase ↔ s.At j conn phase := by
  simp [At, setPhase, Ne.symm hj]

-- Where the entry of a connection is among the others.
theorem entries_split (h : s.At i conn phase) : ∃ rest, s.entries.Perm (phase.entry.toList ++ rest) ∧
    ∀ phase', (s.setPhase i phase').entries.Perm (phase'.entry.toList ++ rest) := by
  have ⟨hi, he⟩ := List.getElem?_eq_some_iff.mp h
  have hsplit : s.conns = s.conns.take i ++ ⟨conn, phase⟩ :: s.conns.drop (i + 1) := by
    rw [← he, List.cons_getElem_drop_succ, List.take_append_drop]
  have hperm : ∀ {a b : List Ptr} {o : Option Ptr}, (a ++ (o.toList ++ b)).Perm (o.toList ++ (a ++ b)) :=
    fun {a b o} => by
      rw [← List.append_assoc, ← List.append_assoc]
      exact List.Perm.append_right b List.perm_append_comm
  have hcons : ∀ (x : ServerConn) xs, (x :: xs).filterMap (·.phase.entry) =
      x.phase.entry.toList ++ xs.filterMap (·.phase.entry) := by
    intro x xs
    cases hx : x.phase.entry <;> simp [hx]
  refine ⟨(s.conns.take i).filterMap (·.phase.entry) ++ (s.conns.drop (i + 1)).filterMap (·.phase.entry),
    ?_, fun phase' => ?_⟩
  · rw [entries]
    nth_rewrite 1 [hsplit]
    rw [List.filterMap_append, hcons]
    exact hperm
  · have hmod : (s.setPhase i phase').conns =
        s.conns.take i ++ ⟨conn, phase'⟩ :: s.conns.drop (i + 1) := by
      rw [setPhase, List.modify_eq_take_cons_drop hi, he]
    rw [entries, hmod, List.filterMap_append, hcons]
    exact hperm

-- What a connection is after the change of a phase.
theorem at_setPhase (h : s.At i conn phase) {c : Nat} {ph : ConnPhase}
    (hj : (s.setPhase i phase').At j c ph) :
    (j = i ∧ c = conn ∧ ph = phase') ∨ (j ≠ i ∧ s.At j c ph) := by
  by_cases hji : j = i
  case pos =>
    subst hji
    have ⟨hc, hp⟩ := hj.unique (at_setPhase_self h)
    exact .inl ⟨rfl, hc, hp⟩
  case neg => exact .inr ⟨hji, (at_setPhase_of_ne hji).mp hj⟩

-- A connection that is accepted.
def accept (s : Server) (conn : Nat) : Server :=
  { s with
    conns := s.conns ++ [⟨conn, .accepted⟩]
    fds   := Function.update s.fds conn (some (.connection s.conns.length)) }

theorem at_accept {c : Nat} {ph : ConnPhase} (h : (s.accept conn).At j c ph) :
    (j = s.conns.length ∧ c = conn ∧ ph = .accepted) ∨ (j < s.conns.length ∧ s.At j c ph) := by
  simp only [At, accept] at h
  by_cases hj : j < s.conns.length
  case pos => exact .inr ⟨hj, by rwa [List.getElem?_append_left hj] at h⟩
  case neg =>
    have ⟨hl, _⟩ := List.getElem?_eq_some_iff.mp h
    have he : j = s.conns.length := by
      simp at hl
      omega
    subst he
    simp at h
    exact .inl ⟨rfl, h.left.symm, h.right.symm⟩

-- The tracker's list holds the entries of the connections.
structure EntriesOk (s : Server) (l : List Ptr) : Prop where
  tracks  : s.tracker.Tracks l
  entries : l.Perm s.entries
  unique  : ∀ {i j conn conn' phase phase' p}, s.At i conn phase → s.At j conn' phase' →
    phase.entry = some p → phase'.entry = some p → i = j
  conn    : ∀ {i conn phase p}, s.At i conn phase → phase.entry = some p →
    (s.tracker.data p).map Prod.fst = some conn

-- Every connection owns its socket until it closes it.
structure FdsOk (s : Server) : Prop where
  owned : ∀ {i conn phase}, s.At i conn phase →
    ∀ fd, s.fds fd = some (.connection i) ↔ phase.holds ∧ fd = conn
  range : ∀ {fd i}, s.fds fd = some (.connection i) → i < s.conns.length

namespace EntriesOk

variable {l : List Ptr} {t : ServerConnTracker}

theorem keep (he : s.EntriesOk l) (h : s.At i conn phase) (hp : phase'.entry = phase.entry) :
    (s.setPhase i phase').EntriesOk l := by
  have ⟨rest, hs, hs'⟩ := entries_split h
  have hat : ∀ {j c ph}, (s.setPhase i phase').At j c ph → ∃ ph', s.At j c ph' ∧ ph'.entry = ph.entry := by
    intro j c ph hj
    obtain ⟨rfl, rfl, rfl⟩ | ⟨_, hj⟩ := at_setPhase h hj
    · exact ⟨phase, h, hp.symm⟩
    · exact ⟨ph, hj, rfl⟩
  refine ⟨he.tracks, ?_, ?_, ?_⟩
  · exact he.entries.trans (hs.trans (hp ▸ (hs' phase').symm))
  · intro j k c c' ph ph' p hj hk hpj hpk
    have ⟨_, hj, hej⟩ := hat hj
    have ⟨_, hk, hek⟩ := hat hk
    exact he.unique hj hk (hej.trans hpj) (hek.trans hpk)
  · intro j c ph p hj hpj
    have ⟨_, hj, hej⟩ := hat hj
    exact he.conn hj (hej.trans hpj)

theorem accept (he : s.EntriesOk l) (conn : Nat) : (s.accept conn).EntriesOk l := by
  have hat : ∀ {j c ph q}, (s.accept conn).At j c ph → ph.entry = some q → s.At j c ph := by
    intro j c ph q hj hq
    obtain ⟨rfl, rfl, rfl⟩ | ⟨_, hj'⟩ := at_accept hj
    · cases hq
    · exact hj'
  refine ⟨he.tracks, ?_, ?_, ?_⟩
  · simpa [Server.entries, Server.accept, ConnPhase.entry] using he.entries
  · exact fun hj hk hpj hpk => he.unique (hat hj hpj) (hat hk hpk) hpj hpk
  · exact fun hj hpj => he.conn (hat hj hpj) hpj

theorem begin (he : s.EntriesOk l) (h : s.At i conn phase) (hn : phase.entry = none)
    (hb : p ∉ s.tracker.blocks) (ht : t.Tracks (p :: l)) (hp : phase'.entry = some p)
    (hd : ∀ q, t.data q = if q = p then some (conn, false) else s.tracker.data q) :
    ((s.setTracker t).setPhase i phase').EntriesOk (p :: l) := by
  have ⟨rest, hs, hs'⟩ := entries_split (s := s.setTracker t) h
  have hnew : ∀ {j c ph}, s.At j c ph → ph.entry ≠ some p := by
    intro j c ph hj hpj
    have hmem : p ∈ l := he.entries.mem_iff.mpr (mem_entries.mpr ⟨j, c, ph, hj, hpj⟩)
    exact hb ((he.tracks.blocks p).mpr hmem)
  refine ⟨ht, ?_, ?_, ?_⟩
  · have hl : l.Perm rest := by simpa [hn] using he.entries.trans hs
    have hr := (hs' phase').symm
    rw [hp] at hr
    exact (hl.cons p).trans hr
  · intro j k c c' ph ph' q hj hk hpj hpk
    obtain ⟨rfl, rfl, rfl⟩ | ⟨hji, hj'⟩ := at_setPhase (s := s.setTracker t) h hj <;>
      obtain ⟨rfl, rfl, rfl⟩ | ⟨hki, hk'⟩ := at_setPhase (s := s.setTracker t) h hk
    · rfl
    · cases hp.symm.trans hpj
      exact absurd hpk (hnew hk')
    · cases hp.symm.trans hpk
      exact absurd hpj (hnew hj')
    · exact he.unique hj' hk' hpj hpk
  · intro j c ph q hj hpj
    have hgoal : (t.data q).map Prod.fst = some c := by
      rw [hd q]
      obtain ⟨rfl, rfl, rfl⟩ | ⟨hji, hj⟩ := at_setPhase (s := s.setTracker t) h hj
      · cases hp.symm.trans hpj
        simp
      · have hq : q ≠ p := by
          rintro rfl
          exact hnew hj hpj
        rw [if_neg hq]
        exact he.conn hj hpj
    exact hgoal

theorem «end» (he : s.EntriesOk l) (h : s.At i conn phase) (hp : phase.entry = some p)
    (hn : phase'.entry = none) (ht : t.Tracks (l.erase p))
    (hd : ∀ q, q ≠ p → t.data q = s.tracker.data q) :
    ((s.setTracker t).setPhase i phase').EntriesOk (l.erase p) := by
  have ⟨rest, hs, hs'⟩ := entries_split (s := s.setTracker t) h
  have hat : ∀ {j c ph q}, ((s.setTracker t).setPhase i phase').At j c ph → ph.entry = some q →
      j ≠ i ∧ s.At j c ph := by
    intro j c ph q hj hq
    obtain ⟨rfl, rfl, rfl⟩ | hj := at_setPhase (s := s.setTracker t) h hj
    · cases hn.symm.trans hq
    · exact hj
  refine ⟨ht, ?_, ?_, ?_⟩
  · have hl : l.Perm (p :: rest) := by simpa [hp] using he.entries.trans hs
    have hr : ((s.setTracker t).setPhase i phase').entries.Perm rest := by simpa [hn] using hs' phase'
    have herase := hl.erase p
    rw [List.erase_cons_head] at herase
    exact herase.trans hr.symm
  · intro j k c c' ph ph' q hj hk hpj hpk
    exact he.unique (hat hj hpj).right (hat hk hpk).right hpj hpk
  · intro j c ph q hj hpj
    have ⟨hji, hj⟩ := hat hj hpj
    have hq : q ≠ p := by
      rintro rfl
      exact hji (he.unique hj h hpj hp)
    have hgoal : (t.data q).map Prod.fst = some c := hd q hq ▸ he.conn hj hpj
    exact hgoal

theorem shutdownAll (he : s.EntriesOk l) (ht : t.Tracks l)
    (hd : ∀ q, (t.data q).map Prod.fst = (s.tracker.data q).map Prod.fst) :
    (s.setTracker t).EntriesOk l :=
  ⟨ht, he.entries, he.unique, fun h hp => (hd _).trans (he.conn h hp)⟩

end EntriesOk

namespace FdsOk

theorem keep (hf : s.FdsOk) (h : s.At i conn phase) (hp : phase'.holds = phase.holds) :
    (s.setPhase i phase').FdsOk := by
  refine ⟨?_, ?_⟩
  · intro j c ph hj fd
    obtain ⟨rfl, rfl, rfl⟩ | ⟨_, hj⟩ := at_setPhase h hj
    · rw [hp]
      exact hf.owned h fd
    · exact hf.owned hj fd
  · intro fd j hj
    simpa [setPhase] using hf.range hj

theorem close (hf : s.FdsOk) (h : s.At i conn phase) (hh : phase.holds) (hn : phase'.holds = false) :
    ((s.socketClose conn).setPhase i phase').FdsOk := by
  have hfds : ∀ fd, (s.socketClose conn).fds fd = if fd = conn then none else s.fds fd := by
    intro fd
    by_cases hc : fd = conn <;> simp [socketClose, hc]
  refine ⟨?_, ?_⟩
  · intro j c ph hj fd
    change (s.socketClose conn).fds fd = _ ↔ _
    rw [hfds]
    obtain ⟨rfl, rfl, rfl⟩ | ⟨hji, hj⟩ := at_setPhase (s := s.socketClose conn) h hj
    · have ho := hf.owned h fd
      by_cases hc : fd = c <;> simp_all
    · have ho := hf.owned (s := s) hj fd
      by_cases hc : fd = conn
      case neg => simpa [hc] using ho
      case pos =>
        have hown : s.fds conn = some (.connection i) := (hf.owned h conn).mpr ⟨hh, rfl⟩
        subst hc
        rw [hown] at ho
        simp only [Option.some.injEq, Owner.connection.injEq, Ne.symm hji, false_iff] at ho
        simpa using ho
  · intro fd j hj
    have hj' : (s.socketClose conn).fds fd = some (.connection j) := hj
    rw [hfds] at hj'
    split at hj'
    case isTrue  => cases hj'
    case isFalse => simpa [setPhase, socketClose] using hf.range hj'

theorem fds (hf : s.FdsOk) {fd : Nat} {o : Option Owner} (hfd : ∀ i, s.fds fd ≠ some (.connection i))
    (ho : ∀ i, o ≠ some (.connection i)) : FdsOk { s with fds := Function.update s.fds fd o } := by
  have hiff : ∀ fd' i, Function.update s.fds fd o fd' = some (.connection i) ↔
      s.fds fd' = some (.connection i) := by
    intro fd' i
    by_cases hc : fd' = fd
    case pos =>
      subst hc
      simp [ho, hfd]
    case neg => simp [hc]
  exact ⟨fun h fd' => (hiff fd' _).trans (hf.owned h fd'), fun h => hf.range ((hiff _ _).mp h)⟩

theorem accept (hf : s.FdsOk) {conn : Nat} (hc : s.fds conn = none) : (s.accept conn).FdsOk := by
  have hfds : ∀ fd, (s.accept conn).fds fd =
      if fd = conn then some (.connection s.conns.length) else s.fds fd := by
    intro fd
    by_cases h : fd = conn <;> simp [Server.accept, h]
  refine ⟨?_, ?_⟩
  · intro j c ph hj fd
    rw [hfds]
    obtain ⟨rfl, rfl, rfl⟩ | ⟨hlt, hj'⟩ := at_accept hj
    · have hnew : s.fds fd ≠ some (.connection s.conns.length) := fun h => absurd (hf.range h) (by omega)
      by_cases h : fd = c <;> simp [h, ConnPhase.holds]
      exact hnew
    · have ho := hf.owned hj' fd
      by_cases h : fd = conn
      case pos =>
        subst h
        rw [hc] at ho
        simp only [reduceCtorEq, false_iff] at ho
        simp [ho, Nat.ne_of_gt hlt]
      case neg => simpa [h] using ho
  · intro fd j hj
    rw [hfds] at hj
    split at hj
    case isTrue =>
      cases hj
      simp [Server.accept]
    case isFalse =>
      have hr := hf.range hj
      simp only [Server.accept, List.length_append, List.length_singleton]
      omega

end FdsOk

end Server

namespace ServerStep

variable {s s' : Server} {op : ServerOp} {l : List Ptr}

theorem fdsOk (h : ServerStep s op s') (hf : s.FdsOk) : s'.FdsOk := by
  have ht : ∀ t, (s.setTracker t).FdsOk := fun _ => ⟨hf.owned, hf.range⟩
  cases h
  case accept hc         => exact hf.accept hc
  case mallocFails h     => exact hf.keep h rfl
  case begin t h _ _     => exact (ht t).keep h rfl
  case beginNull t h _ _ => exact (ht t).keep h rfl
  case create h          => exact hf.keep h rfl
  case createFails h     => exact hf.keep h rfl
  case close h           => exact hf.close h rfl rfl
  case «end» t h _       => exact (ht t).keep h rfl
  case endFailed t h _   => exact (ht t).keep h rfl
  case closeRefused h    => exact hf.close h rfl rfl
  case shutdownAll t _   => exact ht t
  case waitIdle          => exact hf
  case openOther hn      => exact hf.fds (by simp [hn]) (by simp)
  case closeOther hn     => exact hf.fds (by simp [hn]) (by simp)

theorem mem_of_entry {i conn : Nat} {phase : ConnPhase} {p : Ptr} (he : s.EntriesOk l)
    (h : s.At i conn phase) (hp : phase.entry = some p) : p ∈ l :=
  he.entries.mem_iff.mpr (Server.mem_entries.mpr ⟨i, conn, phase, h, hp⟩)

-- Every step of the server is a step of the tracker, where a call of `end` with a null pointer stands
-- for steps that leave the tracker alone.
def Simulated (s : Server) (l : List Ptr) (op : ServerOp) (s' : Server) : Prop :=
  ∃ l' top, s'.EntriesOk l' ∧ TrackerStep ⟨s.tracker, l⟩ top ⟨s'.tracker, l'⟩ ∧
    (op = .shutdownAll ↔ top = .shutdownAll) ∧ (op = .waitIdle → top = .waitIdle)

theorem simulated_of_eq (he : s'.EntriesOk l) (ht : s'.tracker = s.tracker) (hs : op ≠ .shutdownAll)
    (hw : op ≠ .waitIdle) : Simulated s l op s' :=
  ⟨l, .end none, he, ht ▸ .endNull rfl, by simp [hs], by simp [hw]⟩

theorem simulates (h : ServerStep s op s') (he : s.EntriesOk l) : Simulated s l op s' := by
  cases h
  case accept conn hc => exact simulated_of_eq (he.accept conn) rfl (by simp) (by simp)
  case mallocFails h  => exact simulated_of_eq (he.keep h rfl) rfl (by simp) (by simp)
  case begin i conn block p t h hb ht =>
    have hstep : TrackerStep ⟨s.tracker, l⟩ (.begin conn block) ⟨t, (some p).toList ++ l⟩ :=
      .begin hb ht
    refine ⟨p :: l, _, ?_, hstep, by simp, by simp⟩
    cases block
    case none => cases ht
    case some q =>
      have hq := hb q rfl
      rw [serverConnTrackerBegin] at ht
      split at ht
      case isTrue => cases ht
      case isFalse =>
        cases ht
        refine he.begin h rfl hq (hstep.tracks he.tracks) rfl fun r => ?_
        by_cases hr : r = p
        case pos =>
          subst hr
          simp [ServerConnTracker.data, ServerConnTracker.get]
        case neg => simp [ServerConnTracker.data, ServerConnTracker.get, hr]
  case beginNull i conn block t h hb ht =>
    have hkeep : t = s.tracker := by
      cases block
      case none => exact (congrArg Prod.snd ht).symm
      case some q =>
        rw [serverConnTrackerBegin] at ht
        split at ht
        case isTrue  => exact (congrArg Prod.snd ht).symm
        case isFalse => cases ht
    subst hkeep
    exact simulated_of_eq (he.keep h rfl) rfl (by simp) (by simp)
  case create h      => exact simulated_of_eq (he.keep h rfl) rfl (by simp) (by simp)
  case createFails h => exact simulated_of_eq (he.keep h rfl) rfl (by simp) (by simp)
  case close conn p h =>
    have hs : (s.socketClose conn).EntriesOk l := ⟨he.tracks, he.entries, he.unique, he.conn⟩
    exact simulated_of_eq (hs.keep h rfl) rfl (by simp) (by simp)
  case «end» i conn p t h ht =>
    have hp := mem_of_entry he h rfl
    have hstep : TrackerStep ⟨s.tracker, l⟩ (.end (some p)) ⟨t, l.erase p⟩ := .end hp ht
    obtain ⟨_, ht', htr, _, _, hd⟩ := he.tracks.end hp
    cases ht.symm.trans ht'
    exact ⟨_, _, he.end h rfl rfl htr hd, hstep, by simp, by simp⟩
  case endFailed i conn p t h ht =>
    have hp := mem_of_entry he h rfl
    have hstep : TrackerStep ⟨s.tracker, l⟩ (.end (some p)) ⟨t, l.erase p⟩ := .end hp ht
    obtain ⟨_, ht', htr, _, _, hd⟩ := he.tracks.end hp
    cases ht.symm.trans ht'
    exact ⟨_, _, he.end h rfl rfl htr hd, hstep, by simp, by simp⟩
  case closeRefused conn h =>
    have hs : (s.socketClose conn).EntriesOk l := ⟨he.tracks, he.entries, he.unique, he.conn⟩
    exact simulated_of_eq (hs.keep h rfl) rfl (by simp) (by simp)
  case shutdownAll t ht =>
    obtain ⟨_, ht', htr, _, _, hd⟩ := he.tracks.shutdownAll
    cases ht.symm.trans ht'
    exact ⟨l, .shutdownAll, he.shutdownAll htr hd, .shutdownAll ht, by simp, by simp⟩
  case waitIdle hw => exact ⟨l, .waitIdle, he, .waitIdle hw, by simp, by simp⟩
  case openOther   => exact simulated_of_eq ⟨he.tracks, he.entries, he.unique, he.conn⟩ rfl (by simp) (by simp)
  case closeOther  => exact simulated_of_eq ⟨he.tracks, he.entries, he.unique, he.conn⟩ rfl (by simp) (by simp)

end ServerStep

namespace ServerRun

variable {ops : List ServerOp} {ss : List Server} {s : Server}

theorem fdsOk (h : ServerRun ops ss) : ∀ s ∈ ss, s.FdsOk := by
  induction h
  case nil =>
    simp only [List.mem_singleton, forall_eq]
    exact ⟨by simp [Server.At, Server.init], by simp [Server.init]⟩
  case cons hs hi =>
    rw [List.forall_mem_cons]
    exact ⟨hs.fdsOk (hi _ (.head _)), hi⟩

theorem entriesOk (h : ServerRun ops ss) : ∀ s ∈ ss, ∃ l, s.EntriesOk l := by
  induction h
  case nil =>
    simp only [List.mem_singleton, forall_eq]
    exact ⟨[], ServerConnTracker.tracks_init, .nil, by simp [Server.At, Server.init],
      by simp [Server.At, Server.init]⟩
  case cons hs hi =>
    rw [List.forall_mem_cons]
    have ⟨_, he⟩ := hi _ (.head _)
    have ⟨l', _, he', _⟩ := hs.simulates he
    exact ⟨⟨l', he'⟩, hi⟩

-- The tracker is never found to have miscounted.
theorem counted (h : ServerRun ops (s :: ss)) (hb : ∀ x ∈ s :: ss, x.entries.length < 2 ^ 32) :
    ∃ l, s.EntriesOk l ∧ TrackerState.Counted ⟨s.tracker, l⟩ ∧
      (s.tracker.shuttingDown ↔ .shutdownAll ∈ ops) := by
  generalize hss : s :: ss = states at h
  induction h generalizing s ss
  case nil =>
    cases hss
    exact ⟨[], ⟨ServerConnTracker.tracks_init, .nil, by simp [Server.At, Server.init],
      by simp [Server.At, Server.init]⟩, rfl, by simp [Server.init, ServerConnTracker.init]⟩
  case cons ops s₀ ss₀ op s' hr hs hi =>
    cases hss
    rw [List.forall_mem_cons] at hb
    obtain ⟨l, he, hc, hd⟩ := hi hb.right rfl
    obtain ⟨l', top, he', ht, htop, _⟩ := hs.simulates he
    refine ⟨l', he', ht.counted he.tracks hc ?_, ?_⟩
    · simpa [he'.entries.length_eq] using hb.left
    · rw [ht.shuttingDown he.tracks, hd, List.mem_cons, ← htop, @eq_comm _ op, or_comm]

-- Once the server's tracker is shutting down and idle, no connection has an entry any more.
theorem entries_of_idle (h : ServerRun ops (s :: ss)) (hb : ∀ x ∈ s :: ss, x.entries.length < 2 ^ 32)
    {before after : List ServerOp} (ho : ops = after ++ .waitIdle :: before)
    (hs : .shutdownAll ∈ before) : s.entries = [] := by
  generalize hss : s :: ss = states at h
  induction h generalizing s ss after
  case nil => simp at ho
  case cons ops s₀ ss₀ op s' hr hstep hi =>
    cases hss
    rw [List.forall_mem_cons] at hb
    have ⟨l, he, hc, hd⟩ := hr.counted hb.right
    have ⟨l', top, he', ht, _, hw⟩ := hstep.simulates he
    have hnil : l' = [] := by
      cases after
      case nil =>
        cases ho
        cases hw rfl
        exact ht.live_of_waitIdle hc
      case cons op' after =>
        cases ho
        have hl : l = [] := by
          have hempty := hi hb.right rfl rfl
          exact List.perm_nil.mp (hempty ▸ he.entries)
        exact ht.live_nil (hd.mpr (by simp [hs])) hl
    subst hnil
    exact List.nil_perm.mp he'.entries

end ServerRun

-- A tracker whose counter has wrapped around.
theorem TrackerRun.of_begins (n : Nat) : ∃ ops t, TrackerRun (fun _ => True) ops ⟨t, (List.range n).reverse⟩ ∧
    t.activeCount = UInt32.ofNat n ∧ t.shuttingDown = false := by
  induction n
  case zero => exact ⟨[], .init, .nil, rfl, rfl⟩
  case succ n hi =>
    have ⟨ops, t, hr, hc, hd⟩ := hi
    have hn : n ∉ t.blocks := by
      rw [hr.tracks.blocks]
      simp
    have hb := serverConnTrackerBegin.eq_2 t 0 n
    rw [if_neg (by simp [hd])] at hb
    have hstep : TrackerStep ⟨t, (List.range n).reverse⟩ (.begin 0 (some n)) _ :=
      .begin (fun p hp => by cases hp; exact hn) hb
    rw [List.range_succ, List.reverse_append]
    exact ⟨_, _, hr.snoc hstep trivial, by simp [hc, UInt32.ofNat_add], hd⟩

-- What holds of the tracker in all runs.
structure TrackerState.Sound (s : TrackerState) (ops : List TrackerOp) : Prop where
  listed   : s.tracker.Listed s.live
  nodup    : s.live.Nodup
  count    : s.tracker.activeCount.toNat = s.live.length
  ends     : ∀ p ∈ s.live, ∃ t, serverConnTrackerEnd s.tracker (some p) = some t ∧
    t.Listed (s.live.erase p) ∧ t.activeCount.toNat + 1 = s.tracker.activeCount.toNat
  shutdown : ∃ t, serverConnTrackerShutdownAll s.tracker = some t
  closing  : .shutdownAll ∈ ops → ∀ p ∈ s.live, ∃ x, s.tracker.get p = some x ∧ x.closing ∧
    s.tracker.shutdowns p = 1
  refused  : .shutdownAll ∈ ops → ∀ conn block, (serverConnTrackerBegin s.tracker conn block).1 = none
  idle     : serverConnTrackerWaitIdle s.tracker → s.live = []

theorem TrackerRun.sound {ops : List TrackerOp} {s : TrackerState}
    (h : TrackerRun (·.live.length < 2 ^ 32) ops s) : s.Sound ops := by
  have ht := h.tracks
  have hc : s.tracker.activeCount.toNat = s.live.length := h.counted
  refine ⟨ht.listed, ht.nodup, hc, ?_, ?_, ?_, ?_, ?_⟩
  · intro p hp
    have ⟨t, he, htr, _⟩ := ht.end hp
    have hstep : TrackerStep s (.end (some p)) ⟨t, s.live.erase p⟩ := .end hp he
    have hlen : (s.live.erase p).length + 1 = s.live.length := by
      rw [List.length_erase_of_mem hp]
      exact Nat.sub_add_cancel (List.length_pos_of_mem hp)
    have hlt : s.live.length < 2 ^ 32 := hc ▸ s.tracker.activeCount.toNat_lt
    have hcount : t.activeCount.toNat = (s.live.erase p).length :=
      hstep.counted ht h.counted (by dsimp only; omega)
    exact ⟨t, he, htr.listed, by rw [hcount, hlen, hc]⟩
  · have ⟨t, he, _⟩ := ht.shutdownAll
    exact ⟨t, he⟩
  · intro hs p hp
    have ⟨x, hx⟩ := ht.get_of_mem hp
    have hclosing : x.closing := (ht.closing p x hx).mpr (h.shuttingDown_iff.mpr hs)
    exact ⟨x, hx, hclosing, by rw [ht.shutdowns p x hx, if_pos hclosing]⟩
  · intro hs conn block
    cases block
    case none   => rfl
    case some p => rw [serverConnTrackerBegin, if_pos (h.shuttingDown_iff.mpr hs)]
  · intro hw
    have hz : s.tracker.activeCount = 0 := of_decide_eq_true hw
    rw [hz] at hc
    exact List.eq_nil_of_length_eq_zero hc.symm

-- In all runs in which the counter cannot wrap around, the tracker is sound, and once a server has
-- shut down its tracker and found it idle, no connection is handled any more.
theorem connTracker_sound :
    (∀ ops s, TrackerRun (·.live.length < 2 ^ 32) ops s → s.Sound ops) ∧
    (∀ ops s ss before after, ServerRun ops (s :: ss) → (∀ x ∈ s :: ss, x.entries.length < 2 ^ 32) →
      ops = after ++ .waitIdle :: before → .shutdownAll ∈ before →
      ∀ i conn phase, s.At i conn phase → phase.entry = none) := by
  refine ⟨fun ops s h => h.sound, ?_⟩
  intro ops s ss before after h hb ho hs i conn phase hat
  have hnil := h.entries_of_idle hb ho hs
  cases hp : phase.entry
  case none => rfl
  case some p =>
    have hmem : p ∈ s.entries := Server.mem_entries.mpr ⟨i, conn, phase, hat, hp⟩
    rw [hnil] at hmem
    cases hmem

theorem connTracker_sound_after_begin :
    ∃ s, TrackerRun (·.live.length < 2 ^ 32) [.begin 5 (some 1)] s ∧ s.Sound [.begin 5 (some 1)] := by
  have hstep : TrackerStep ⟨.init, []⟩ (.begin 5 (some 1)) _ := .begin (by simp [ServerConnTracker.init]) rfl
  have hrun : TrackerRun (·.live.length < 2 ^ 32) [.begin 5 (some 1)] _ := .snoc .nil hstep (by decide)
  exact ⟨_, hrun, connTracker_sound.left _ _ hrun⟩

theorem activeCount_wraps :
    ∃ ops s, TrackerRun (fun _ => True) ops s ∧ s.tracker.activeCount.toNat ≠ s.live.length := by
  have ⟨ops, t, hr, hc, _⟩ := TrackerRun.of_begins (2 ^ 32)
  refine ⟨ops, _, hr, ?_⟩
  simp [hc]

namespace Server

-- Every entry in the tracker's list has a socket that is open and belongs to the entry's connection.
def SocketsOpen (s : Server) : Prop :=
  ∀ l, s.tracker.Listed l → ∀ p ∈ l, ∃ x i phase, s.tracker.get p = some x ∧ s.At i x.conn phase ∧
    phase.entry = some p ∧ s.fds x.conn = some (.connection i)

-- No thread is between its calls of `socket_close` and `server_conn_tracker_end`.
theorem socketsOpen_iff {s : Server} {l : List Ptr} (he : s.EntriesOk l) (hf : s.FdsOk) :
    s.SocketsOpen ↔ ∀ i conn p, ¬s.At i conn (.closed p) := by
  constructor
  · intro h i conn p hat
    have hmem := ServerStep.mem_of_entry he hat rfl
    obtain ⟨x, j, phase, hx, hj, hp, hfd⟩ := h l he.tracks.listed p hmem
    have hij := he.unique hat hj rfl hp
    subst hij
    obtain ⟨_, hph⟩ := hat.unique hj
    have howned := (hf.owned hj x.conn).mp hfd
    rw [← hph] at howned
    cases howned.left
  · intro h l' hl' p hp
    cases hl'.unique he.tracks.listed
    obtain ⟨i, conn, phase, hat, hentry⟩ := mem_entries.mp (he.entries.mem_iff.mp hp)
    have hd := he.conn hat hentry
    simp only [ServerConnTracker.data, Option.map_map, Option.map_eq_some_iff] at hd
    obtain ⟨x, hx, hc⟩ := hd
    have hc : x.conn = conn := hc
    have hholds : phase.holds := by
      cases phase
      case closed q => exact absurd hat (h i conn q)
      case done     => cases hentry
      all_goals rfl
    exact ⟨x, i, phase, hx, hc ▸ hat, hentry, (hf.owned hat _).mpr ⟨hholds, hc⟩⟩

end Server

-- No thread has closed its socket without having ended its entry.
def Server.NoneClosed (s : Server) : Prop :=
  ∀ i conn p, ¬s.At i conn (.closed p)

theorem Server.NoneClosed.setPhase {s : Server} {i conn : Nat} {phase phase' : ConnPhase}
    (hs : s.NoneClosed) (h : s.At i conn phase) (hp : ∀ p, .closed p ≠ phase') :
    (s.setPhase i phase').NoneClosed := by
  intro j c p hj
  obtain ⟨_, _, hph⟩ | ⟨_, hj'⟩ := at_setPhase h hj
  · exact hp p hph
  · exact hs j c p hj'

theorem ServerStep.noneClosed_iff {s s' : Server} {op : ServerOp} (h : ServerStep s op s')
    (hs : s.NoneClosed) : s'.NoneClosed ↔ ∀ i, .close i ≠ op := by
  have htrue : ∀ {s' : Server} {op : ServerOp}, s'.NoneClosed → (∀ i, .close i ≠ op) →
      (s'.NoneClosed ↔ ∀ i, .close i ≠ op) :=
    fun h h' => ⟨fun _ => h', fun _ => h⟩
  have ht : ∀ t, (s.setTracker t).NoneClosed := fun _ => hs
  have hc : ∀ conn, (s.socketClose conn).NoneClosed := fun _ => hs
  cases h
  case accept conn _ =>
    apply htrue _ (by simp)
    intro j c p hj
    obtain ⟨_, _, hph⟩ | ⟨_, hj'⟩ := Server.at_accept hj
    · cases hph
    · exact hs j c p hj'
  case mallocFails h         => exact htrue (hs.setPhase h (by simp)) (by simp)
  case begin t h _ _         => exact htrue ((ht t).setPhase h (by simp)) (by simp)
  case beginNull t h _ _     => exact htrue ((ht t).setPhase h (by simp)) (by simp)
  case create h              => exact htrue (hs.setPhase h (by simp)) (by simp)
  case createFails h         => exact htrue (hs.setPhase h (by simp)) (by simp)
  case close i conn p h =>
    have hclosed : ((s.socketClose conn).setPhase i (.closed p)).At i conn (.closed p) :=
      Server.at_setPhase_self (s := s.socketClose conn) h
    exact ⟨fun hn => absurd hclosed (hn i conn p), fun hop => absurd rfl (hop i)⟩
  case «end» t h _           => exact htrue ((ht t).setPhase h (by simp)) (by simp)
  case endFailed t h _       => exact htrue ((ht t).setPhase h (by simp)) (by simp)
  case closeRefused conn h   => exact htrue ((hc conn).setPhase h (by simp)) (by simp)
  case shutdownAll t _       => exact htrue (ht t) (by simp)
  case waitIdle              => exact htrue hs (by simp)
  case openOther             => exact htrue hs (by simp)
  case closeOther fd _       => exact htrue (hc fd) (by simp)

-- The tracker's sockets are open in all states of a run exactly if no thread gets as far as to close
-- its socket, which it does before it ends its entry.
theorem socketsOpen_run_iff {ops : List ServerOp} {ss : List Server} (h : ServerRun ops ss) :
    (∀ s ∈ ss, s.SocketsOpen) ↔ ∀ i, .close i ∉ ops := by
  have hopen : ∀ s ∈ ss, s.SocketsOpen ↔ s.NoneClosed := by
    intro s hs
    have ⟨_, he⟩ := h.entriesOk s hs
    exact Server.socketsOpen_iff he (h.fdsOk s hs)
  rw [forall₂_congr hopen]
  clear hopen
  induction h
  case nil => simp [Server.NoneClosed, Server.At, Server.init]
  case cons ops s ss op s' _ hstep hi =>
    apply (List.forall_mem_cons.trans (and_congr_right' hi)).trans
    simp only [List.mem_cons, not_or, forall_and]
    constructor
    · intro ⟨hs', hops⟩
      have hs := hi.mpr hops s (.head _)
      exact ⟨(hstep.noneClosed_iff hs).mp hs', hops⟩
    · intro ⟨hop, hops⟩
      have hs := hi.mpr hops s (.head _)
      exact ⟨(hstep.noneClosed_iff hs).mpr hop, hops⟩

theorem socketsOpen_in_failed_start :
    ∃ ss, ServerRun [.create 0 false, .begin 0 (some 1), .accept 5] ss ∧ ∀ s ∈ ss, s.SocketsOpen := by
  have h₁ : ServerRun [.accept 5] _ := .cons .nil (.accept rfl)
  have h₂ : ServerRun [.begin 0 (some 1), .accept 5] _ :=
    h₁.cons (.begin rfl (by simp [Server.init, ServerConnTracker.init]) rfl)
  have h₃ : ServerRun [.create 0 false, .begin 0 (some 1), .accept 5] _ := h₂.cons (.createFails rfl)
  exact ⟨_, h₃, (socketsOpen_run_iff h₃).mpr (by simp)⟩

-- The second connection gets the descriptor of the first one, whose entry is still in the list.
theorem tracked_socket_is_reused :
    ∃ s ss, ServerRun [.accept 5, .close 0, .create 0 true, .begin 0 (some 1), .accept 5] (s :: ss) ∧
      s.tracker.Listed [1] ∧ (s.tracker.get 1).map (·.conn) = some 5 ∧
      s.fds 5 = some (.connection 1) ∧ ¬s.SocketsOpen := by
  have h₁ : ServerRun [.accept 5] _ := .cons .nil (.accept rfl)
  have h₂ : ServerRun [.begin 0 (some 1), .accept 5] _ :=
    h₁.cons (.begin rfl (by simp [Server.init, ServerConnTracker.init]) rfl)
  have h₃ : ServerRun [.create 0 true, .begin 0 (some 1), .accept 5] _ := h₂.cons (.create rfl)
  have h₄ : ServerRun [.close 0, .create 0 true, .begin 0 (some 1), .accept 5] _ := h₃.cons (.close rfl)
  have h₅ : ServerRun [.accept 5, .close 0, .create 0 true, .begin 0 (some 1), .accept 5] _ :=
    h₄.cons (.accept rfl)
  refine ⟨_, _, h₅, .cons rfl .nil, rfl, rfl, fun h => ?_⟩
  obtain ⟨_, he⟩ := h₅.entriesOk _ (.head _)
  exact (Server.socketsOpen_iff he (h₅.fdsOk _ (.head _))).mp h 0 5 1 rfl
