import Mathlib

-- Threads that share data behind a mutex with one condition variable. A thread that waits gives up the
-- mutex until it is called, until its time is up, or without a reason.
namespace Monitor

-- How a wait ends.
inductive Wake
  | woken | timedOut | failed
  deriving DecidableEq

-- What a thread does next, where `κ` has the states of a thread.
inductive Action (σ κ : Type)
  | idle
  | lock (k : κ)
  | unlock (k : κ)
  | access (f : σ → κ × σ)   -- reads and writes of the shared data
  | choose (k : Bool → κ)    -- what is decided elsewhere, such as the success of a `malloc`
  | broadcast (k : κ)
  | wait (k : Wake → κ)

-- The code of the threads, and what is recorded when a thread gives up the mutex.
structure Code (σ κ ε : Type) where
  act    : κ → Action σ κ
  record : κ → List ε

inductive Sleep
  | awake
  | asleep
  | called   -- to be woken as soon as the mutex is free
  deriving DecidableEq

-- A turn of a thread, and what happens to it: the outcome of a choice, and how its wait ends, if it does.
structure Turn (ι : Type) where
  thread : ι
  choice : Bool
  wake   : Option Wake

end Monitor

structure Monitor (ι σ κ ε : Type) where
  data    : σ
  owner   : Option ι
  threads : ι → κ
  sleep   : ι → Monitor.Sleep
  log     : List (ι × ε)

namespace Monitor

variable {ι σ κ ε : Type} [DecidableEq ι]

def start (data : σ) (threads : ι → κ) : Monitor ι σ κ ε where
  data    := data
  owner   := none
  threads := threads
  sleep   := fun _ => .awake
  log     := []

def callAll (sleep : ι → Sleep) : ι → Sleep :=
  fun j => if sleep j = .asleep then .called else sleep j

def goto (M : Monitor ι σ κ ε) (i : ι) (k : κ) : Monitor ι σ κ ε :=
  { M with threads := Function.update M.threads i k }

-- The thread `i` gives up the mutex.
def release (c : Code σ κ ε) (M : Monitor ι σ κ ε) (i : ι) (k : κ) (s : Sleep) : Monitor ι σ κ ε :=
  { data    := M.data
    owner   := none
    threads := Function.update M.threads i k
    sleep   := Function.update M.sleep i s
    log     := M.log ++ (c.record (M.threads i)).map (i, ·) }

-- The thread `i` gets the mutex, if it is free.
def acquire (M : Monitor ι σ κ ε) (i : ι) (k : κ) : Monitor ι σ κ ε :=
  match M.owner with
  | some _ => M
  | none   => { M.goto i k with owner := some i, sleep := Function.update M.sleep i .awake }

def step (c : Code σ κ ε) (M : Monitor ι σ κ ε) (t : Turn ι) : Monitor ι σ κ ε :=
  match c.act (M.threads t.thread) with
  | .idle        => M
  | .lock k      => M.acquire t.thread k
  | .unlock k    => M.release c t.thread k .awake
  | .access f    => { M.goto t.thread (f M.data).1 with data := (f M.data).2 }
  | .choose k    => M.goto t.thread (k t.choice)
  | .broadcast k => { M.goto t.thread k with sleep := callAll M.sleep }
  | .wait k      =>
    match M.sleep t.thread, t.wake with
    | .awake, _       => M.release c t.thread (M.threads t.thread) .asleep
    | .asleep, none   => M
    | .asleep, some r => M.acquire t.thread (k r)
    | .called, r      => M.acquire t.thread (k (r.getD .woken))

def run (c : Code σ κ ε) (M : Monitor ι σ κ ε) (sched : List (Turn ι)) : Monitor ι σ κ ε :=
  sched.foldl (step c) M

theorem run_append (c : Code σ κ ε) (M : Monitor ι σ κ ε) (s₁ s₂ : List (Turn ι)) :
    M.run c (s₁ ++ s₂) = (M.run c s₁).run c s₂ :=
  List.foldl_append

-- What has been recorded stays.
theorem log_run_isPrefix (c : Code σ κ ε) (M : Monitor ι σ κ ε) (sched : List (Turn ι)) :
    M.log <+: (M.run c sched).log := by
  have hacquire : ∀ (M : Monitor ι σ κ ε) i k, (M.acquire i k).log = M.log := by
    intro M i k
    rw [acquire]
    split <;> rfl
  have hstep : ∀ (M : Monitor ι σ κ ε) t, M.log <+: (M.step c t).log := by
    intro M t
    rw [step]
    split
    case h_2 => exact (hacquire _ _ _).symm ▸ List.prefix_rfl
    case h_3 => exact List.prefix_append _ _
    case h_7 =>
      split
      case h_1 => exact List.prefix_append _ _
      case h_2 => exact List.prefix_rfl
      all_goals exact (hacquire _ _ _).symm ▸ List.prefix_rfl
    all_goals exact List.prefix_rfl
  induction sched generalizing M
  case nil            => exact List.prefix_rfl
  case cons t sched h => exact (hstep M t).trans (h _)

-- What an action may be in a thread that has the mutex (`h`) or not, where `held` says which states have it.
def Action.Obeys (held : κ → Prop) (h : Prop) : Action σ κ → Prop
  | idle        => ¬h
  | lock k      => ¬h ∧ held k
  | unlock k    => h ∧ ¬held k
  | access f    => h ∧ ∀ d, held (f d).1
  | choose k    => ∀ b, held (k b) ↔ h
  | broadcast k => h ∧ held k
  | wait k      => h ∧ ∀ r, held (k r)

-- Data is only touched, and calls are only made, by a thread that has the mutex.
def Code.Disciplined (c : Code σ κ ε) (held : κ → Prop) : Prop :=
  ∀ k, (c.act k).Obeys held (held k)

-- What a thread does while it has the mutex: it moves on, changes the data, and makes calls.
inductive Code.Private (c : Code σ κ ε) : κ × σ × Bool → κ × σ × Bool → Prop
  | access {q d b f} : c.act q = .access f → c.Private (q, d, b) ((f d).1, (f d).2, b)
  | choose {q d b k} (x : Bool) : c.act q = .choose k → c.Private (q, d, b) (k x, d, b)
  | broadcast {q d b k} : c.act q = .broadcast k → c.Private (q, d, b) (k, d, true)

namespace Code.Private

variable {c : Code σ κ ε} {q : κ} {d : σ} {b : Bool} {y : κ × σ × Bool}

theorem of_access {f : σ → κ × σ} (h : c.Private (q, d, b) y) (ha : c.act q = .access f) :
    y = ((f d).1, (f d).2, b) := by
  cases h
  case access ha'    => cases ha.symm.trans ha'; rfl
  case choose ha'    => cases ha.symm.trans ha'
  case broadcast ha' => cases ha.symm.trans ha'

theorem of_choose {k : Bool → κ} (h : c.Private (q, d, b) y) (ha : c.act q = .choose k) : ∃ x, y = (k x, d, b) := by
  cases h
  case access ha'    => cases ha.symm.trans ha'
  case choose x ha'  => cases ha.symm.trans ha'; exact ⟨x, rfl⟩
  case broadcast ha' => cases ha.symm.trans ha'

theorem of_broadcast {k : κ} (h : c.Private (q, d, b) y) (ha : c.act q = .broadcast k) : y = (k, d, true) := by
  cases h
  case access ha'    => cases ha.symm.trans ha'
  case choose ha'    => cases ha.symm.trans ha'
  case broadcast ha' => cases ha.symm.trans ha'; rfl

-- A thread that is about to give up the mutex does nothing else.
theorem of_unlock {k : κ} (h : c.Private (q, d, b) y) : c.act q ≠ .unlock k := by
  cases h <;> simp_all

theorem of_wait {k : Wake → κ} (h : c.Private (q, d, b) y) : c.act q ≠ .wait k := by
  cases h <;> simp_all

end Code.Private

abbrev Code.Section (c : Code σ κ ε) : κ × σ × Bool → κ × σ × Bool → Prop :=
  Relation.ReflTransGen c.Private

-- The thread `i` gets the mutex, and then is at `k`.
inductive Enters (c : Code σ κ ε) (A : Monitor ι σ κ ε) (i : ι) : κ → Prop
  | lock {k} : c.act (A.threads i) = .lock k → Enters c A i k
  | wake {k} (r : Wake) : c.act (A.threads i) = .wait k → A.sleep i ≠ .awake → Enters c A i (k r)

-- How a thread gives up the mutex.
inductive Code.Leaves (c : Code σ κ ε) : κ → κ → Sleep → Prop
  | unlock {q k} : c.act q = .unlock k → c.Leaves q k .awake
  | wait {q k} : c.act q = .wait k → c.Leaves q q .asleep

-- The sleepers after a section, in which calls have been made or not.
def called (b : Bool) (sleep : ι → Sleep) : ι → Sleep :=
  if b then callAll sleep else sleep

-- The steps of a monitor in which nobody sees a section that is not over.
inductive Atomic (c : Code σ κ ε) (A : Monitor ι σ κ ε) (i : ι) : Monitor ι σ κ ε → Prop
  | choose {k} (x : Bool) : c.act (A.threads i) = .choose k → Atomic c A i (A.goto i (k x))
  | section {q q' k d b s} :
    A.Enters c i q → c.Section (q, A.data, false) (q', d, b) → c.Leaves q' k s →
    Atomic c A i
      { data    := d
        owner   := none
        threads := Function.update A.threads i k
        sleep   := Function.update (called b A.sleep) i s
        log     := A.log ++ (c.record q').map (i, ·) }

-- `M` is `A`, but for the section of the thread that has the mutex.
structure Within (c : Code σ κ ε) (A M : Monitor ι σ κ ε) (i : ι) (b : Bool) : Prop where
  awake  : M.sleep i = .awake
  inside : ∃ q, A.Enters c i q ∧ c.Section (q, A.data, false) (M.threads i, M.data, b)
  others : ∀ j, j ≠ i → M.threads j = A.threads j ∧ M.sleep j = called b A.sleep j
  log    : M.log = A.log

def Rolled (c : Code σ κ ε) (A M : Monitor ι σ κ ε) : Prop :=
  match M.owner with
  | none   => A = M
  | some i => A.owner = none ∧ ∃ b, Within c A M i b

-- Who has the mutex, and who sleeps.
structure Excluded (c : Code σ κ ε) (held : κ → Prop) (M : Monitor ι σ κ ε) : Prop where
  owner  : ∀ i, M.owner = some i ↔ held (M.threads i) ∧ M.sleep i = .awake
  sleeps : ∀ i, M.sleep i ≠ .awake → ∃ k, c.act (M.threads i) = .wait k

omit [DecidableEq ι] in
@[simp]
theorem callAll_eq_awake (sleep : ι → Sleep) (j : ι) : callAll sleep j = .awake ↔ sleep j = .awake := by
  rw [callAll]
  split
  case isTrue h => simp [h]
  case isFalse  => rfl

namespace Excluded

variable {c : Code σ κ ε} {held : κ → Prop} {M : Monitor ι σ κ ε} {i : ι} {k : κ}

omit [DecidableEq ι] in
theorem awake (h : Excluded c held M) (ha : ∀ k, c.act (M.threads i) ≠ .wait k) : M.sleep i = .awake := by
  by_contra hs
  have ⟨k, hk⟩ := h.sleeps i hs
  exact ha k hk

theorem acquire (h : Excluded c held M) (hk : held k) : Excluded c held (M.acquire i k) := by
  rw [Monitor.acquire]
  split
  case h_1 => exact h
  case h_2 hfree =>
    constructor
    case owner =>
      intro j
      by_cases hj : j = i
      case pos => simp [hj, goto, hk]
      case neg =>
        have hne := h.owner j
        rw [hfree] at hne
        simpa [goto, hj, Ne.symm hj] using hne
    case sleeps =>
      intro j hs
      by_cases hj : j = i
      case pos => simp [hj] at hs
      case neg => simpa [goto, hj] using h.sleeps j (by simpa [hj] using hs)

-- The thread that has the mutex gives it up.
theorem release (h : Excluded c held M) {s : Sleep} (ho : M.owner = some i)
    (hk : ¬(held k ∧ s = .awake)) (hs : s ≠ .awake → ∃ k', c.act k = .wait k') :
    Excluded c held (M.release c i k s) where
  owner j := by
    by_cases hj : j = i
    case pos => simpa [Monitor.release, hj] using hk
    case neg =>
      have hne := h.owner j
      rw [ho] at hne
      simpa [Monitor.release, hj, Ne.symm hj] using hne
  sleeps j hj' := by
    by_cases hj : j = i
    case pos =>
      subst hj
      simpa [Monitor.release] using hs (by simpa [Monitor.release] using hj')
    case neg => simpa [Monitor.release, hj] using h.sleeps j (by simpa [Monitor.release, hj] using hj')

-- A thread moves on, and has the mutex after that if it has it before.
theorem goto (h : Excluded c held M) (ha : ∀ k, c.act (M.threads i) ≠ .wait k) (hk : held k ↔ held (M.threads i)) :
    Excluded c held (M.goto i k) where
  owner j := by
    by_cases hj : j = i
    case pos =>
      subst hj
      simpa [Monitor.goto, hk] using h.owner j
    case neg => simpa [Monitor.goto, hj] using h.owner j
  sleeps j hs := by
    by_cases hj : j = i
    case pos => exact absurd (h.awake ha) (hj ▸ hs)
    case neg => simpa [Monitor.goto, hj] using h.sleeps j hs

theorem step (hd : c.Disciplined held) (h : Excluded c held M) (t : Turn ι) : Excluded c held (M.step c t) := by
  have hobeys := hd (M.threads t.thread)
  rw [Monitor.step]
  cases ha : c.act (M.threads t.thread) <;> rw [ha] at hobeys
  case idle => exact h
  case lock k => exact h.acquire hobeys.right
  case unlock k =>
    have ho := (h.owner t.thread).mpr ⟨hobeys.left, h.awake (by simp [ha])⟩
    exact h.release ho (fun hk => hobeys.right hk.left) (absurd rfl)
  case access f =>
    have hgoto := h.goto (i := t.thread) (k := (f M.data).1) (by simp [ha]) (iff_of_true (hobeys.right _) hobeys.left)
    exact ⟨hgoto.owner, hgoto.sleeps⟩
  case choose k => exact h.goto (by simp [ha]) (hobeys _)
  case broadcast k =>
    have hgoto := h.goto (i := t.thread) (k := k) (by simp [ha]) (iff_of_true hobeys.right hobeys.left)
    constructor
    case owner =>
      intro j
      rw [callAll_eq_awake]
      exact hgoto.owner j
    case sleeps =>
      intro j hs
      exact hgoto.sleeps j ((callAll_eq_awake M.sleep j).not.mp hs)
  case wait k =>
    dsimp only
    split
    case h_1 hs =>
      have ho := (h.owner t.thread).mpr ⟨hobeys.left, hs⟩
      exact h.release ho (fun hk => nomatch hk.right) fun _ => ⟨k, ha⟩
    case h_2 => exact h
    case h_3 => exact h.acquire (hobeys.right _)
    case h_4 => exact h.acquire (hobeys.right _)

end Excluded

section

variable {c : Code σ κ ε} {held : κ → Prop} {A M : Monitor ι σ κ ε} {i : ι}

omit [DecidableEq ι] in
theorem callAll_called (b : Bool) {sleep sleep' : ι → Sleep} {j : ι} (h : sleep j = called b sleep' j) :
    callAll sleep j = called true sleep' j := by
  cases b
  case false => simp only [called, if_true, callAll, h, if_false, Bool.false_eq_true]
  case true =>
    simp only [called, if_true, callAll] at h ⊢
    rw [h]
    split_ifs <;> simp_all

-- The thread that has the mutex goes on with its section.
theorem Within.continue {b b' : Bool} {k : κ} {d : σ} {sleep : ι → Sleep} (h : Within c A M i b)
    (hp : c.Private (M.threads i, M.data, b) (k, d, b')) (hi : sleep i = .awake)
    (hs : ∀ j, j ≠ i → sleep j = called b' A.sleep j) : Within c A { M.goto i k with data := d, sleep } i b' where
  awake      := hi
  inside     := by
    have ⟨q, hq, hsec⟩ := h.inside
    refine ⟨q, hq, ?_⟩
    simpa [goto] using hsec.tail hp
  others j hj := ⟨by simpa [goto, hj] using (h.others j hj).left, hs j hj⟩
  log        := h.log

-- It gives up the mutex, and all of its section becomes visible.
theorem Within.leave {b : Bool} {k : κ} {s : Sleep} (h : Within c A M i b) (hl : c.Leaves (M.threads i) k s) :
    Atomic c A i (M.release c i k s) := by
  have ⟨q, hq, hsec⟩ := h.inside
  have hthreads : Function.update A.threads i k = Function.update M.threads i k := by
    funext j
    by_cases hj : j = i
    case pos => simp [hj]
    case neg => simp [hj, (h.others j hj).left]
  have hsleep : Function.update (called b A.sleep) i s = Function.update M.sleep i s := by
    funext j
    by_cases hj : j = i
    case pos => simp [hj]
    case neg => simp [hj, (h.others j hj).right]
  have hstep := Atomic.section hq hsec hl
  rw [hthreads, hsleep, ← h.log] at hstep
  exact hstep

-- Another thread moves on outside of all sections.
theorem Within.goto_other {b : Bool} {j : ι} {k : κ} (h : Within c A M i b) (hj : j ≠ i) :
    Within c (A.goto j k) (M.goto j k) i b where
  awake      := h.awake
  inside     := by
    have ⟨q, hq, hsec⟩ := h.inside
    have hi : (A.goto j k).threads i = A.threads i := by simp [goto, Ne.symm hj]
    refine ⟨q, ?_, by simpa [goto, Ne.symm hj] using hsec⟩
    cases hq
    case lock hk      => exact .lock (hi ▸ hk)
    case wake r hk hs => exact .wake r (hi ▸ hk) hs
  others j' hj' := by
    have ⟨hthread, hsleep⟩ := h.others j' hj'
    refine ⟨?_, hsleep⟩
    by_cases hjj : j' = j
    case pos => simp [goto, hjj]
    case neg => simpa [goto, hjj] using hthread
  log := h.log

omit [DecidableEq ι] in
theorem rolled_of_free (ho : M.owner = none) : Rolled c M M := by
  rw [Rolled, ho]

omit [DecidableEq ι] in
theorem Rolled.of_within {b : Bool} (ha : A.owner = none) (ho : M.owner = some i) (h : Within c A M i b) :
    Rolled c A M := by
  rw [Rolled, ho]
  exact ⟨ha, b, h⟩

-- A thread that can get the mutex does so if it is free.
theorem Rolled.acquire {q : κ} (h : Rolled c A M) (he : M.owner = none → M.Enters c i q) :
    Rolled c A (M.acquire i q) := by
  rw [Monitor.acquire]
  split
  case h_1 => exact h
  case h_2 ho =>
    rw [Rolled, ho] at h
    subst h
    have hwithin : Within c A { A.goto i q with owner := some i, sleep := Function.update A.sleep i .awake } i false := by
      constructor
      case awake  => simp
      case inside => exact ⟨q, he ho, by simpa [goto] using .refl⟩
      case others =>
        intro j hj
        simp [goto, hj, called]
      case log => rfl
    exact .of_within ho rfl hwithin

-- Each step of the monitor is a step of the one with atomic sections, or not visible there.
theorem Rolled.step (hd : c.Disciplined held) (hM : Excluded c held M) (h : Rolled c A M) (t : Turn ι) :
    ∃ A', (A' = A ∨ Atomic c A t.thread A') ∧ Rolled c A' (M.step c t) := by
  have hobeys := hd (M.threads t.thread)
  -- The thread of the turn has the mutex.
  have hown : ∀ (_ : held (M.threads t.thread)) (_ : M.sleep t.thread = .awake),
      M.owner = some t.thread ∧ A.owner = none ∧ ∃ b, Within c A M t.thread b := by
    intro hh hs
    have ho := (hM.owner t.thread).mpr ⟨hh, hs⟩
    rw [Rolled, ho] at h
    exact ⟨ho, h⟩
  rw [Monitor.step]
  cases ha : c.act (M.threads t.thread) <;> rw [ha] at hobeys
  case idle   => exact ⟨A, .inl rfl, h⟩
  case lock k => exact ⟨A, .inl rfl, h.acquire fun _ => .lock ha⟩
  case unlock k =>
    have ⟨_, _, b, hw⟩ := hown hobeys.left (hM.awake (by simp [ha]))
    exact ⟨_, .inr (hw.leave (.unlock ha)), rolled_of_free rfl⟩
  case access f =>
    have ⟨ho, hfree, b, hw⟩ := hown hobeys.left (hM.awake (by simp [ha]))
    exact ⟨A, .inl rfl, .of_within hfree ho (hw.continue (.access ha) hw.awake fun j hj => (hw.others j hj).right)⟩
  case choose k =>
    by_cases hh : held (M.threads t.thread)
    case pos =>
      have ⟨ho, hfree, b, hw⟩ := hown hh (hM.awake (by simp [ha]))
      exact ⟨A, .inl rfl, .of_within hfree ho
        (hw.continue (.choose t.choice ha) hw.awake fun j hj => (hw.others j hj).right)⟩
    case neg =>
      cases ho : M.owner
      case none =>
        rw [Rolled, ho] at h
        subst h
        exact ⟨_, .inr (.choose t.choice ha), rolled_of_free ho⟩
      case some i =>
        have hi : t.thread ≠ i := by
          intro hi
          exact hh ((hM.owner t.thread).mp (hi ▸ ho)).left
        rw [Rolled, ho] at h
        have ⟨hfree, b, hw⟩ := h
        rw [(hw.others _ hi).left] at ha
        exact ⟨_, .inr (.choose t.choice ha), .of_within hfree ho (hw.goto_other hi)⟩
  case broadcast k =>
    have ⟨ho, hfree, b, hw⟩ := hown hobeys.left (hM.awake (by simp [ha]))
    have hawake : callAll M.sleep t.thread = .awake := by rw [callAll_eq_awake]; exact hw.awake
    exact ⟨A, .inl rfl, .of_within hfree ho
      (hw.continue (.broadcast ha) hawake fun j hj => callAll_called b (hw.others j hj).right)⟩
  case wait k =>
    dsimp only
    split
    case h_1 hs =>
      have ⟨_, _, b, hw⟩ := hown hobeys.left hs
      exact ⟨_, .inr (hw.leave (.wait ha)), rolled_of_free rfl⟩
    case h_2        => exact ⟨A, .inl rfl, h⟩
    case h_3 r hs _ => exact ⟨A, .inl rfl, h.acquire fun _ => .wake r ha (by simp [hs])⟩
    case h_4 r hs   => exact ⟨A, .inl rfl, h.acquire fun _ => .wake _ ha (by simp [hs])⟩

-- What the steps with atomic sections keep holds in every run, up to the section of the thread that has
-- the mutex.
theorem run_invariant (hd : c.Disciplined held) {I : Monitor ι σ κ ε → Prop}
    (hstep : ∀ {A i A'}, I A → Atomic c A i A' → I A') {M : Monitor ι σ κ ε} (hM : Excluded c held M)
    (ho : M.owner = none) (hI : I M) (sched : List (Turn ι)) :
    ∃ A, I A ∧ Rolled c A (M.run c sched) := by
  have hrun : ∀ sched, Excluded c held (M.run c sched) ∧ ∃ A, I A ∧ Rolled c A (M.run c sched) := by
    intro sched
    induction sched using List.reverseRecOn
    case nil => exact ⟨hM, M, hI, rolled_of_free ho⟩
    case append_singleton sched t hi =>
      have ⟨hE, A, hA, hR⟩ := hi
      rw [run_append]
      have ⟨A', hA', hR'⟩ := hR.step hd hE t
      refine ⟨hE.step hd t, A', ?_, hR'⟩
      cases hA'
      case inl heq => exact heq ▸ hA
      case inr hat => exact hstep hA hat
  exact (hrun sched).right

-- What a section keeps of the place, the data and the calls.
theorem Code.Section.keeps {P : κ × σ × Bool → Prop} (hp : ∀ {x y}, P x → c.Private x y → P y) {x y : κ × σ × Bool}
    (h : c.Section x y) (hx : P x) : P y := by
  induction h
  case refl           => exact hx
  case tail _ hstep h => exact hp h hstep

end
end Monitor
