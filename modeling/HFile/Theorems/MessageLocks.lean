import HFile.Source.MessageLocks
import HFile.System.Files

open Monitor (Enters Atomic Rolled)
open Program (Trace Replays)

abbrev StoreEvent := (o : SysOp) × o.Res

-- The call that a thread is in.
def StorePlace.call : StorePlace → List StoreCall
  | between => []
  | setLock m | setMessage m | setVersion m | setBroadcast m | setUnlock m => [.set m]
  | getMessage | getMalloc _ | getVersion _ _ | getUnlock _ _ _ => [.getSnapshot]
  | waitVersion v | waitShutdown v | waitClock v | waitSleep v | waitFail v | waitMessage v | waitMalloc v _
  | waitVersionOut v _ _ | waitUnlock v _ _ _ => [.waitForUpdate v]
  | shutdownSet | shutdownBroadcast | shutdownUnlock => [.shutdown]

def StorePlace.held : StorePlace → Prop
  | between | setLock _ => False
  | _                   => True

namespace StoreThread

def held (t : StoreThread) : Prop :=
  t.place.held

-- All calls of a thread: those that have returned, the one it is in, and those that are left.
def calls (t : StoreThread) : List StoreCall :=
  t.returned.map (·.1) ++ t.place.call ++ t.todo

end StoreThread

theorem storeCode_disciplined : storeCode.Disciplined StoreThread.held := by
  intro ⟨todo, place, returned⟩
  cases place
  case between =>
    cases todo
    case nil => exact id
    case cons call todo =>
      cases call
      case set =>
        intro b
        cases b <;> exact Iff.rfl
      all_goals exact ⟨id, trivial⟩
  case setLock => exact ⟨id, trivial⟩
  case getMessage =>
    refine ⟨trivial, fun d => ?_⟩
    dsimp only
    split <;> exact trivial
  case waitVersion known =>
    refine ⟨trivial, fun d => ?_⟩
    simp only [StoreThread.held, StoreThread.goto]
    split <;> exact trivial
  case waitShutdown known =>
    refine ⟨trivial, fun d => ?_⟩
    simp only [StoreThread.held, StoreThread.goto]
    split <;> exact trivial
  case waitClock known =>
    intro b
    cases b <;> exact Iff.rfl
  case waitSleep known =>
    refine ⟨trivial, fun r => ?_⟩
    cases r <;> exact trivial
  case waitMessage known =>
    refine ⟨trivial, fun d => ?_⟩
    dsimp only
    split_ifs
    case pos => split <;> exact trivial
    case neg => exact trivial
  case getMalloc => exact fun _ => Iff.rfl
  case waitMalloc => exact fun _ => Iff.rfl
  case setUnlock => exact ⟨trivial, id⟩
  case getUnlock => exact ⟨trivial, id⟩
  case waitFail => exact ⟨trivial, id⟩
  case waitUnlock => exact ⟨trivial, id⟩
  case shutdownUnlock => exact ⟨trivial, id⟩
  case setBroadcast => exact ⟨trivial, trivial⟩
  case shutdownBroadcast => exact ⟨trivial, trivial⟩
  all_goals exact ⟨trivial, fun _ => trivial⟩

namespace MessageStore

-- The store without locks.
def board (d : MessageStore) : Board :=
  ⟨d.message, d.version⟩

def stored (d : MessageStore) (message : CStr) : MessageStore :=
  { d with message := some (messageStoreCopy message), version := d.version + 1 }

-- What a wait for an update finds.
def news (d : MessageStore) (known : Nat) : Option CStr :=
  if d.version > known then d.message else none

-- What is known at the places of a section that has begun with the data `d₀`: the data, whether calls
-- have been made, and the variables.
def Inside (d₀ d : MessageStore) (b : Bool) : StorePlace → Prop
  | .between | .setLock _       => False
  | .setMessage _               => d = d₀ ∧ b = false
  | .setVersion m               => d = { d₀ with message := some (messageStoreCopy m) } ∧ b = false
  | .setBroadcast m             => d = d₀.stored m ∧ b = false
  | .setUnlock m                => d = d₀.stored m ∧ b = true
  | .getMessage                 => d = d₀
  | .getMalloc src              => d = d₀ ∧ d₀.message = some src
  | .getVersion src _           => d = d₀ ∧ d₀.message = src
  | .getUnlock src _ v          => d = d₀ ∧ d₀.message = src ∧ v = d₀.version
  | .waitVersion _              => d = d₀
  | .waitShutdown known         => d = d₀ ∧ d₀.version ≤ known
  | .waitClock known            => d = d₀ ∧ d₀.version ≤ known ∧ d₀.shuttingDown = false
  | .waitSleep known            => d = d₀ ∧ d₀.version ≤ known ∧ d₀.shuttingDown = false
  | .waitFail _                 => d = d₀
  | .waitMessage _              => d = d₀
  | .waitMalloc known src       => d = d₀ ∧ d₀.news known = some src
  | .waitVersionOut known src _ => d = d₀ ∧ d₀.news known = src
  | .waitUnlock known src _ v   => d = d₀ ∧ d₀.news known = src ∧ v = d₀.version
  | .shutdownSet                => d = d₀
  | .shutdownBroadcast          => d = { d₀ with shuttingDown := true }
  | .shutdownUnlock             => d = { d₀ with shuttingDown := true } ∧ b = true

end MessageStore

-- The thread `t` has entered a section when the data was `d₀`.
structure InSection (d₀ : MessageStore) (t : StoreThread) (x : StoreThread × MessageStore × Bool) : Prop where
  calls    : x.1.calls = t.calls
  returned : x.1.returned = t.returned
  inside   : d₀.Inside x.2.1 x.2.2 x.1.place

namespace InSection

variable {d₀ : MessageStore} {t : StoreThread} {x y : StoreThread × MessageStore × Bool}

theorem goto {q : StoreThread} {d d' : MessageStore} {b b' : Bool} {place : StorePlace} (h : InSection d₀ t (q, d, b))
    (hc : place.call = q.place.call) (hi : d₀.Inside d' b' place) : InSection d₀ t (q.goto place, d', b') where
  calls    := by rw [← h.calls, StoreThread.calls, StoreThread.goto, hc, StoreThread.calls]
  returned := h.returned
  inside   := hi

-- What is known stays known with each step.
theorem step (h : InSection d₀ t x) (hp : storeCode.Private x y) : InSection d₀ t y := by
  obtain ⟨⟨todo, place, returned⟩, d, b⟩ := x
  have hi := h.inside
  cases place
  case between => exact hi.elim
  case setLock => exact hi.elim
  case setMessage m =>
    obtain ⟨rfl, rfl⟩ := hi
    cases hp.of_access rfl
    exact h.goto rfl ⟨rfl, rfl⟩
  case setVersion m =>
    obtain ⟨rfl, rfl⟩ := hi
    cases hp.of_access rfl
    exact h.goto rfl ⟨rfl, rfl⟩
  case setBroadcast m =>
    obtain ⟨rfl, rfl⟩ := hi
    cases hp.of_broadcast rfl
    exact h.goto rfl ⟨rfl, rfl⟩
  case setUnlock => exact absurd rfl hp.of_unlock
  case getMessage =>
    cases hp.of_access rfl
    obtain rfl := hi
    dsimp only
    split
    case h_1 hm => exact h.goto rfl ⟨rfl, hm⟩
    case h_2 hm => exact h.goto rfl ⟨rfl, hm⟩
  case getMalloc src =>
    have ⟨ok, hy⟩ := hp.of_choose rfl
    subst hy
    exact h.goto rfl hi
  case getVersion src copied =>
    obtain ⟨rfl, hm⟩ := hi
    cases hp.of_access rfl
    exact h.goto rfl ⟨rfl, hm, rfl⟩
  case getUnlock => exact absurd rfl hp.of_unlock
  case waitVersion known =>
    cases hp.of_access rfl
    obtain rfl := hi
    dsimp only
    split
    case isTrue hv => exact h.goto rfl ⟨rfl, hv⟩
    case isFalse   => exact h.goto rfl rfl
  case waitShutdown known =>
    obtain ⟨rfl, hv⟩ := hi
    cases hp.of_access rfl
    dsimp only
    split
    case isTrue     => exact h.goto rfl rfl
    case isFalse hs => exact h.goto rfl ⟨rfl, hv, Bool.eq_false_of_not_eq_true hs⟩
  case waitClock known =>
    have ⟨ok, hy⟩ := hp.of_choose rfl
    subst hy
    cases ok
    case false => exact h.goto rfl hi.left
    case true  => exact h.goto rfl hi
  case waitSleep => exact absurd rfl hp.of_wait
  case waitFail  => exact absurd rfl hp.of_unlock
  case waitMessage known =>
    cases hp.of_access rfl
    obtain rfl := hi
    dsimp only
    split
    case isTrue hv =>
      split
      case h_1 hm => exact h.goto rfl ⟨rfl, by rw [MessageStore.news, if_pos hv, hm]⟩
      case h_2 hm => exact h.goto rfl ⟨rfl, by rw [MessageStore.news, if_pos hv, hm]⟩
    case isFalse hv => exact h.goto rfl ⟨rfl, by rw [MessageStore.news, if_neg hv]⟩
  case waitMalloc known src =>
    have ⟨ok, hy⟩ := hp.of_choose rfl
    subst hy
    exact h.goto rfl hi
  case waitVersionOut known src copied =>
    obtain ⟨rfl, hm⟩ := hi
    cases hp.of_access rfl
    exact h.goto rfl ⟨rfl, hm, rfl⟩
  case waitUnlock => exact absurd rfl hp.of_unlock
  case shutdownSet =>
    cases hp.of_access rfl
    obtain rfl := hi
    exact h.goto rfl rfl
  case shutdownBroadcast =>
    cases hp.of_broadcast rfl
    exact h.goto rfl ⟨hi, rfl⟩
  case shutdownUnlock => exact absurd rfl hp.of_unlock

end InSection

-- The functions as calls of the store without locks.
def StoreCall.io : StoreCall → Io StoreReturn
  | set message         => return .set (← messageStoreSet message)
  | getSnapshot         => return .snapshot (← messageStoreGetSnapshot)
  | waitForUpdate known => return .update (← messageStoreWaitForUpdate known)
  | shutdown            => return .shutdown

-- The events are those of the function without locks, for some outcomes of its `malloc`s, and so is what
-- it returns. A wait also fails if the system cannot tell the time or cannot wait.
inductive Explains : StoreCall × StoreReturn → List StoreEvent → Prop
  | io {call r es e e'} : Trace (call.io.run e) es (r, e') → Explains (call, r) es
  | noClock {known} : Explains (.waitForUpdate known, .update none) []

namespace Explains

theorem set (message : CStr) : Explains (.set message, .set true) [⟨.setMessage (messageStoreCopy message), ()⟩] :=
  .io (e := Env.calm 0 []) (.call (.ret _))

theorem set_failed (message : CStr) : Explains (.set message, .set false) [] :=
  .io (e := { Env.calm 0 [] with allocs := [false] }) (.ret _)

theorem getSnapshot (src : Option CStr) (copied : Bool) (version : Nat) :
    Explains (.getSnapshot, .snapshot (storeOutputs src copied version)) [⟨.getMessage, (src, version)⟩] := by
  cases src
  case none => exact .io (e := Env.calm 0 []) (.call (.ret _))
  case some src =>
    cases copied
    case false => exact .io (e := { Env.calm 0 [] with allocs := [false] }) (.call (.ret _))
    case true  => exact .io (e := Env.calm 0 []) (.call (.ret _))

theorem waitForUpdate (known : Nat) (src : Option CStr) (copied : Bool) (version : Nat) :
    Explains (.waitForUpdate known, .update (storeOutputs src copied version)) [⟨.waitMessage known, (src, version)⟩] := by
  cases src
  case none => exact .io (e := Env.calm 0 []) (.call (.ret _))
  case some src =>
    cases copied
    case false => exact .io (e := { Env.calm 0 [] with allocs := [false] }) (.call (.ret _))
    case true  => exact .io (e := Env.calm 0 []) (.call (.ret _))

theorem shutdown : Explains (.shutdown, .shutdown) [] :=
  .io (e := Env.calm 0 []) (.ret _)

end Explains

section

variable {ι : Type} [DecidableEq ι]

abbrev StoreMonitor (ι : Type) := Monitor ι MessageStore StoreThread StoreEvent

-- The events of one thread.
def eventsOf (i : ι) (log : List (ι × StoreEvent)) : List StoreEvent :=
  (log.filter (·.1 = i)).map (·.2)

-- What a thread has returned is explained by its events, in their order.
def Explained (returned : List (StoreCall × StoreReturn)) (events : List StoreEvent) : Prop :=
  ∃ ess, List.Forall₂ Explains returned ess ∧ ess.flatten = events

theorem Explained.append {returned : List (StoreCall × StoreReturn)} {events es : List StoreEvent} {x}
    (h : Explained returned events) (hx : Explains x es) : Explained (returned ++ [x]) (events ++ es) := by
  have ⟨ess, hall, hes⟩ := h
  refine ⟨ess ++ [es], List.rel_append hall (.cons hx .nil), ?_⟩
  rw [List.flatten_append, hes, List.flatten_singleton]

theorem eventsOf_append (i j : ι) (log : List (ι × StoreEvent)) (es : List StoreEvent) :
    eventsOf j (log ++ es.map (i, ·)) = eventsOf j log ++ if j = i then es else [] := by
  rw [eventsOf, List.filter_append, List.map_append, eventsOf]
  congr 1
  by_cases h : i = j
  case pos => simp [h, List.filter_map, Function.comp_def]
  case neg => simp [h, Ne.symm h, List.filter_map, Function.comp_def]

-- Where a thread can be outside of all sections.
def StorePlace.Resting : StorePlace → Prop
  | between | setLock _ | waitSleep _ => True
  | _                                 => False

-- What holds of a store whose sections are atomic. The threads are to make the calls `calls`.
structure StoreInv (files : Files) (calls : ι → List StoreCall) (A : StoreMonitor ι) : Prop where
  replays   : Replays World.handle ⟨files, ⟨none, 0⟩⟩ (A.log.map (·.2)) ⟨files, A.data.board⟩
  calls     : ∀ i, (A.threads i).calls = calls i
  resting   : ∀ i, (A.threads i).place.Resting
  explained : ∀ i, Explained (A.threads i).returned (eventsOf i A.log)
  sleepers  : ∀ i, A.sleep i = .asleep →
    ∃ known, (A.threads i).place = .waitSleep known ∧ A.data.version ≤ known ∧ A.data.shuttingDown = false
  shutdown  : ∀ i r, (.shutdown, r) ∈ (A.threads i).returned → A.data.shuttingDown = true

omit [DecidableEq ι] in
-- A thread that enters a section has seen nothing yet.
theorem InSection.enter {A : StoreMonitor ι} {i : ι} {q : StoreThread} (hr : (A.threads i).place.Resting)
    (h : A.Enters storeCode i q) : InSection A.data (A.threads i) (q, A.data, false) := by
  generalize ht : A.threads i = t at h hr
  obtain ⟨todo, place, returned⟩ := t
  cases h
  case lock hk =>
    rw [ht] at hk
    cases place <;> try contradiction
    case setLock m =>
      cases hk
      exact ⟨rfl, rfl, rfl, rfl⟩
    case between =>
      cases todo
      case nil => contradiction
      case cons call todo =>
        cases call <;> cases hk
        all_goals exact ⟨by simp [StoreThread.calls, StoreThread.goto, StorePlace.call], rfl, rfl⟩
  case wake r hk _ =>
    rw [ht] at hk
    cases place <;> try contradiction
    case between =>
      cases todo
      case nil => contradiction
      case cons call todo => cases call <;> contradiction
    case waitSleep known =>
      cases hk
      cases r <;> exact ⟨rfl, rfl, rfl⟩

namespace StoreInv

variable {files : Files} {calls : ι → List StoreCall} {A : StoreMonitor ι} {i : ι}

-- What is to be shown of a section: it has the effect of its events, and those who sleep on have nothing
-- to wake up for.
theorem leave (h : StoreInv files calls A) {k : StoreThread} {d : MessageStore} {b : Bool} {s : Monitor.Sleep}
    {es : List StoreEvent} (hreplays : Replays World.handle ⟨files, A.data.board⟩ es ⟨files, d.board⟩)
    (hcalls : k.calls = (A.threads i).calls) (hrest : k.place.Resting)
    (hexplained : Explained k.returned (eventsOf i A.log ++ es))
    (hs : s = .asleep → ∃ known, k.place = .waitSleep known ∧ d.version ≤ known ∧ d.shuttingDown = false)
    (hb : b = false → d = A.data) (hdown : A.data.shuttingDown = true → d.shuttingDown = true)
    (hret : ∀ r, (.shutdown, r) ∈ k.returned → d.shuttingDown = true) :
    StoreInv files calls
      { data    := d
        owner   := none
        threads := Function.update A.threads i k
        sleep   := Function.update (Monitor.called b A.sleep) i s
        log     := A.log ++ es.map (i, ·) } where
  replays := by
    rw [List.map_append, List.map_map]
    simpa [Function.comp_def] using h.replays.append hreplays
  calls j := by
    by_cases hj : j = i
    case pos => simp [hj, hcalls, h.calls]
    case neg => simp [hj, h.calls]
  resting j := by
    by_cases hj : j = i
    case pos => simpa [hj] using hrest
    case neg => simpa [hj] using h.resting j
  explained j := by
    rw [eventsOf_append]
    by_cases hj : j = i
    case pos => simpa [hj] using hexplained
    case neg => simpa [hj] using h.explained j
  sleepers j hj' := by
    by_cases hj : j = i
    case pos =>
      subst hj
      simpa using hs (by simpa using hj')
    case neg =>
      simp only [Function.update_of_ne hj] at hj' ⊢
      cases b
      case false =>
        rw [hb rfl]
        exact h.sleepers j hj'
      case true =>
        simp only [Monitor.called, if_true, Monitor.callAll] at hj'
        split at hj'
        case isTrue      => cases hj'
        case isFalse hne => exact absurd hj' hne
  shutdown j r hj' := by
    by_cases hj : j = i
    case pos =>
      subst hj
      exact hret r (by simpa using hj')
    case neg => exact hdown (h.shutdown j r (by simpa [hj] using hj'))

-- A thread moves on outside of all sections.
theorem goto (h : StoreInv files calls A) {k : StoreThread} (hs : A.sleep i ≠ .asleep) (hcalls : k.calls = calls i)
    (hrest : k.place.Resting) (hexplained : Explained k.returned (eventsOf i A.log))
    (hret : ∀ r, (.shutdown, r) ∈ k.returned → A.data.shuttingDown = true) :
    StoreInv files calls (A.goto i k) where
  replays := h.replays
  calls j := by
    by_cases hj : j = i
    case pos => simp [Monitor.goto, hj, hcalls]
    case neg => simp [Monitor.goto, hj, h.calls]
  resting j := by
    by_cases hj : j = i
    case pos => simpa [Monitor.goto, hj] using hrest
    case neg => simpa [Monitor.goto, hj] using h.resting j
  explained j := by
    by_cases hj : j = i
    case pos => simpa [Monitor.goto, hj] using hexplained
    case neg => simpa [Monitor.goto, hj] using h.explained j
  sleepers j hj' := by
    have hj : j ≠ i := fun hj => hs (hj ▸ hj')
    simpa [Monitor.goto, hj] using h.sleepers j hj'
  shutdown j r hj' := by
    by_cases hj : j = i
    case pos =>
      subst hj
      exact hret r (by simpa [Monitor.goto] using hj')
    case neg => exact h.shutdown j r (by simpa [Monitor.goto, hj] using hj')

-- A thread that has returned from a call.
theorem finish_mem {t : StoreThread} {call : StoreCall} {r r' : StoreReturn}
    (h : (.shutdown, r') ∈ (t.finish call r).returned) (hc : call ≠ .shutdown) : (.shutdown, r') ∈ t.returned := by
  simp only [StoreThread.finish, List.mem_append, List.mem_singleton, Prod.mk.injEq] at h
  exact h.resolve_right fun he => hc he.left.symm

theorem calls_finish {t : StoreThread} {call : StoreCall} (r : StoreReturn) (hc : t.place.call = [call]) :
    (t.finish call r).calls = t.calls := by
  rw [StoreThread.calls, StoreThread.calls, hc]
  simp [StoreThread.finish, StorePlace.call]

theorem section_step (h : StoreInv files calls A) {q q' k : StoreThread} {d : MessageStore} {b : Bool}
    {s : Monitor.Sleep} (hq : A.Enters storeCode i q) (hsec : storeCode.Section (q, A.data, false) (q', d, b))
    (hl : storeCode.Leaves q' k s) :
    StoreInv files calls
      { data    := d
        owner   := none
        threads := Function.update A.threads i k
        sleep   := Function.update (Monitor.called b A.sleep) i s
        log     := A.log ++ (storeCode.record q').map (i, ·) } := by
  have hin : InSection A.data (A.threads i) (q', d, b) :=
    hsec.keeps (fun hx hp => hx.step hp) (InSection.enter (h.resting i) hq)
  have hexplained : Explained q'.returned (eventsOf i A.log) := hin.returned ▸ h.explained i
  have hdown : ∀ r, (.shutdown, r) ∈ q'.returned → A.data.shuttingDown = true :=
    fun r hr => h.shutdown i r (hin.returned ▸ hr)
  have hcalls := hin.calls
  have hi := hin.inside
  obtain ⟨todo, place, returned⟩ := q'
  cases hl
  case unlock hk =>
    cases place <;> try contradiction
    case setUnlock m =>
      cases hk
      obtain ⟨rfl, rfl⟩ := hi
      exact h.leave (.cons (.nil _)) ((calls_finish _ rfl).trans hcalls) trivial (hexplained.append (.set m)) nofun
        nofun id fun r hr => hdown r (finish_mem hr nofun)
    case getUnlock src copied version =>
      cases hk
      obtain ⟨rfl, rfl, rfl⟩ := hi
      exact h.leave (.cons (.nil _)) ((calls_finish _ rfl).trans hcalls) trivial
        (hexplained.append (.getSnapshot _ copied _)) nofun (fun _ => rfl) id fun r hr => hdown r (finish_mem hr nofun)
    case waitFail known =>
      cases hk
      obtain rfl := hi
      exact h.leave (.nil _) ((calls_finish _ rfl).trans hcalls) trivial (hexplained.append .noClock) nofun
        (fun _ => rfl) id fun r hr => hdown r (finish_mem hr nofun)
    case waitUnlock known src copied version =>
      cases hk
      obtain ⟨rfl, hm, rfl⟩ := hi
      have hanswer : (World.handle (.waitMessage known) ⟨files, A.data.board⟩).1 = (src, A.data.version) := by
        rw [← hm]
        by_cases hv : A.data.version > known
        case pos => simp [World.handle, MessageStore.board, MessageStore.news, hv]
        case neg => simp [World.handle, MessageStore.board, MessageStore.news, hv]
      have hreplays : Replays World.handle ⟨files, A.data.board⟩ [⟨.waitMessage known, (src, A.data.version)⟩]
          ⟨files, A.data.board⟩ := by
        rw [← hanswer]
        exact .cons (.nil _)
      exact h.leave hreplays ((calls_finish _ rfl).trans hcalls) trivial
        (hexplained.append (.waitForUpdate known src copied _)) nofun (fun _ => rfl) id
        fun r hr => hdown r (finish_mem hr nofun)
    case shutdownUnlock =>
      cases hk
      obtain ⟨rfl, rfl⟩ := hi
      exact h.leave (.nil _) ((calls_finish _ rfl).trans hcalls) trivial (hexplained.append .shutdown) nofun nofun
        (fun _ => rfl) fun _ _ => rfl
  case wait hk =>
    cases place <;> try contradiction
    case waitSleep known =>
      obtain ⟨rfl, hv, hs⟩ := hi
      have hnone : Explained returned (eventsOf i A.log ++ []) := by rwa [List.append_nil]
      exact h.leave (.nil _) hcalls trivial hnone (fun _ => ⟨known, rfl, hv, hs⟩) (fun _ => rfl) id hdown

-- What each section keeps.
theorem step (h : StoreInv files calls A) {A' : StoreMonitor ι} (ha : Atomic storeCode A i A') :
    StoreInv files calls A' := by
  cases ha
  case «section» hq hsec hl => exact h.section_step hq hsec hl
  case choose ok hk =>
    have hrest := h.resting i
    have hexplained := h.explained i
    have hcalls := h.calls i
    have hdown := h.shutdown i
    generalize ht : A.threads i = t at hk hrest hexplained hcalls hdown
    obtain ⟨todo, place, returned⟩ := t
    cases place <;> try contradiction
    case between =>
      cases todo
      case nil => contradiction
      case cons call todo =>
        cases call <;> try contradiction
        case set m =>
          cases hk
          have hsleeps : A.sleep i ≠ .asleep := by
            intro hs
            obtain ⟨known, hp, _⟩ := h.sleepers i hs
            rw [ht] at hp
            cases hp
          cases ok
          case false =>
            have hfailed : Explained (returned ++ [(.set m, .set false)]) (eventsOf i A.log) := by
              simpa using hexplained.append (.set_failed m)
            exact h.goto hsleeps (by simpa [StoreThread.calls, StoreThread.finish, StorePlace.call] using hcalls) trivial
              hfailed fun r hr => hdown r (finish_mem (t := ⟨todo, .between, returned⟩) hr nofun)
          case true => exact h.goto hsleeps (by simpa [StoreThread.calls, StoreThread.goto, StorePlace.call] using hcalls) trivial hexplained hdown

end StoreInv

-- Threads that are to make calls, after the turns of a schedule.
def storeRun (calls : ι → List StoreCall) (sched : List (Monitor.Turn ι)) : StoreMonitor ι :=
  (Monitor.start .init fun i => .start (calls i)).run storeCode sched

-- The functions look as if each of them took effect at once: there is one order of all their events, in
-- which a thread's events are in the order of its calls, the answers are those of the store without locks,
-- and the events explain what the calls have returned.
structure Linearized (files : Files) (calls : ι → List StoreCall) (M : StoreMonitor ι) : Prop where
  replays  : ∃ board, Replays World.handle ⟨files, ⟨none, 0⟩⟩ (M.log.map (·.2)) ⟨files, board⟩ ∧
    (M.owner = none → M.data.board = board)
  returned : ∀ i, Explained (M.threads i).returned (eventsOf i M.log)
  calls    : ∀ i, (M.threads i).returned.map (·.1) <+: calls i

theorem storeRun_inv (files : Files) (calls : ι → List StoreCall) (sched : List (Monitor.Turn ι)) :
    ∃ A, StoreInv files calls A ∧ Rolled storeCode A (storeRun calls sched) := by
  apply Monitor.run_invariant storeCode_disciplined
  case hstep => exact fun h ha => h.step ha
  case hM =>
    constructor
    case owner  => exact fun i => ⟨nofun, fun h => h.left.elim⟩
    case sleeps => exact fun i hs => absurd rfl hs
  case ho => rfl
  case hI =>
    constructor
    case replays   => exact .nil _
    case calls     => exact fun i => List.nil_append _
    case resting   => exact fun i => trivial
    case explained => exact fun i => ⟨[], .nil, rfl⟩
    case sleepers  => exact fun i hs => nomatch hs
    case shutdown  => exact fun i r hr => nomatch hr

-- The store with its mutex and its condition variable behaves as the one without locks.
theorem store_linearized (files : Files) (calls : ι → List StoreCall) (s₁ s₂ : List (Monitor.Turn ι)) :
    Linearized files calls (storeRun calls s₁) ∧ (storeRun calls s₁).log <+: (storeRun calls (s₁ ++ s₂)).log := by
  have hprefix : (storeRun calls s₁).log <+: (storeRun calls (s₁ ++ s₂)).log := by
    rw [storeRun, storeRun, Monitor.run_append]
    exact Monitor.log_run_isPrefix storeCode _ s₂
  refine ⟨?_, hprefix⟩
  obtain ⟨A, hA, hR⟩ := storeRun_inv files calls s₁
  rw [Rolled] at hR
  -- The thread in a section has returned nothing since it has entered.
  have hsame : (storeRun calls s₁).log = A.log ∧ (∀ i, ((storeRun calls s₁).threads i).returned =
      (A.threads i).returned ∧ ((storeRun calls s₁).threads i).calls = (A.threads i).calls) ∧
      ((storeRun calls s₁).owner = none → (storeRun calls s₁).data = A.data) := by
    split at hR
    case h_1 => exact hR ▸ ⟨rfl, fun _ => ⟨rfl, rfl⟩, fun _ => rfl⟩
    case h_2 i ho =>
      obtain ⟨_, b, hw⟩ := hR
      refine ⟨hw.log, fun j => ?_, fun hfree => by simp [ho] at hfree⟩
      by_cases hj : j = i
      case pos =>
        subst hj
        obtain ⟨q, hq, hsec⟩ := hw.inside
        have hin := hsec.keeps (fun hx hp => InSection.step hx hp) (InSection.enter (hA.resting j) hq)
        exact ⟨hin.returned, hin.calls⟩
      case neg => rw [(hw.others j hj).left]; exact ⟨rfl, rfl⟩
  obtain ⟨hlog, hthreads, hdata⟩ := hsame
  constructor
  case replays  => exact ⟨A.data.board, hlog ▸ hA.replays, fun ho => by rw [hdata ho]⟩
  case returned => exact fun i => by rw [hlog, (hthreads i).left]; exact hA.explained i
  case calls =>
    intro i
    rw [← hA.calls i, ← (hthreads i).right, StoreThread.calls, List.append_assoc]
    exact List.prefix_append _ _

-- No call is lost: whoever sleeps while the mutex is free has nothing to wake up for, and once a shutdown
-- has returned, nobody sleeps.
theorem store_wakes {calls : ι → List StoreCall} {sched : List (Monitor.Turn ι)}
    (hfree : (storeRun calls sched).owner = none) :
    (∀ i, (storeRun calls sched).sleep i = .asleep → ∃ known,
      ((storeRun calls sched).threads i).place = .waitSleep known ∧ (storeRun calls sched).data.version ≤ known ∧
        (storeRun calls sched).data.shuttingDown = false) ∧
    ((∃ i r, (.shutdown, r) ∈ ((storeRun calls sched).threads i).returned) →
      ∀ i, (storeRun calls sched).sleep i ≠ .asleep) := by
  obtain ⟨A, hA, hR⟩ := storeRun_inv .empty calls sched
  rw [Rolled, hfree] at hR
  subst hR
  refine ⟨hA.sleepers, ?_⟩
  rintro ⟨i, r, hr⟩ j hj
  obtain ⟨_, _, _, hs⟩ := hA.sleepers j hj
  rw [hA.shutdown i r hr] at hs
  cases hs

-- A thread that sleeps until another one shuts the store down.
theorem store_wakes_on_shutdown :
    let calls : Fin 2 → List StoreCall := ![[.waitForUpdate 0], [.shutdown]]
    let sched := List.replicate 5 ⟨0, true, none⟩ ++ List.replicate 4 ⟨1, true, none⟩
    (∀ i, (storeRun calls sched).sleep i = .asleep → ∃ known,
      ((storeRun calls sched).threads i).place = .waitSleep known ∧ (storeRun calls sched).data.version ≤ known ∧
        (storeRun calls sched).data.shuttingDown = false) ∧
    ((∃ i r, (.shutdown, r) ∈ ((storeRun calls sched).threads i).returned) →
      ∀ i, (storeRun calls sched).sleep i ≠ .asleep) :=
  store_wakes rfl

end
