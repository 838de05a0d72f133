import HFile.Theorems.Chunks
import HFile.Theorems.Http

open Arrival (bytes)
open Program (Handler)

-- The same process with something else to receive, and with other outcomes of its writes.
def Env.reseat (e : Env) (as : List Arrival) (ts : List Transfer) (ds : List (Option Errno)) : Env :=
  { e with inp := as, wr := ts, direct := ds }

-- The processes differ in nothing else.
def Env.Loose (e₁ e₂ : Env) : Prop :=
  ∃ as ts ds, e₂ = e₁.reseat as ts ds

-- Nothing goes wrong when the process receives and writes.
structure Env.Ready (e : Env) : Prop where
  interrupted : Arrival.OnlyInterrupted e.inp
  benign      : ∀ t ∈ e.wr, t.Benign
  direct      : e.direct = []

-- The processes differ in how what they receive is cut.
structure Env.Alike (e₁ e₂ : Env) : Prop where
  loose : e₁.Loose e₂
  bytes : bytes e₁.inp = bytes e₂.inp
  left  : e₁.Ready
  right : e₂.Ready

-- Without failures, what `recv_all` returns is the next part of the stream.
theorem recvAll.loop_eq (n : Nat) {as : List Arrival} (ha : Arrival.OnlyInterrupted as) :
    ∃ as', recvAll.loop n as = (some ((bytes as).take n), as') ∧ bytes as' = (bytes as).drop n ∧
      Arrival.OnlyInterrupted as' := by
  have hrecv := Arrival.onlyInterrupted_recv n ha
  fun_induction recvAll.loop n as
  case case1 as => exact ⟨as, by rw [List.take_zero], rfl, ha⟩
  case case2 n as hn as' h hi =>
    rw [h] at hrecv
    cases Arrival.recv_error h
    exact hi hrecv (Arrival.onlyInterrupted_recv _ hrecv)
  case case3 n as hn f as' h hf =>
    cases Arrival.recv_error h
    exact absurd (ha f List.mem_cons_self) hf
  case case4 n as hn as' h =>
    obtain ⟨rfl, rfl⟩ := Arrival.recv_ok_nil (Nat.pos_of_ne_zero hn) h
    exact ⟨[], by rw [Arrival.bytes_nil, List.take_nil], by rw [Arrival.bytes_nil, List.drop_nil], ha⟩
  case case5 n as hn got as' h hg r as'' heq hi =>
    rw [h] at hrecv
    have hle := Arrival.recv_ok_length_le h
    obtain ⟨as₃, he, hb, ha'⟩ := hi hrecv (Arrival.onlyInterrupted_recv _ hrecv)
    cases heq.symm.trans he
    rw [Arrival.recv_ok_bytes h, List.take_append, List.take_of_length_le hle, List.drop_append,
      List.drop_eq_nil_of_le hle]
    exact ⟨as'', rfl, hb, ha'⟩

namespace Io

section

variable {W : Type} {h : Handler Sys W}

theorem exec_bind (m : Io α) (f : α → Io β) (e : Env) (w : W) :
    exec h (m >>= f) e w = exec h (f (exec h m e w).1.1) (exec h m e w).1.2 (exec h m e w).2 := by
  simp [exec]

theorem exec_lift {p : Env → Program Sys β} {g : Env → β → α × Env} (e : Env) (w : W) :
    exec h (fun e => p e >>= fun b => Pure.pure (g e b) : Io α) e w =
      (g e ((p e).run h w).1, ((p e).run h w).2) := by
  simp [exec, StateT.run]

-- A process that does not look at what there is to receive.
structure Blind (h : Handler Sys W) (m : Io α) : Prop where
  exec_eq : ∀ e w as ts ds, exec h m (e.reseat as ts ds) w =
    (((exec h m e w).1.1, (exec h m e w).1.2.reseat as ts ds), (exec h m e w).2)

-- Two runs from processes that are related by `R` have the same result and the same effect, and
-- leave processes that are related by `R'`.
def Relates (h : Handler Sys W) (R : Env → Env → Prop) (R' : α → Env → Env → Prop) (m : Io α) : Prop :=
  ∀ e₁ e₂ w, R e₁ e₂ → ∃ a e₁' e₂' w',
    exec h m e₁ w = ((a, e₁'), w') ∧ exec h m e₂ w = ((a, e₂'), w') ∧ R' a e₁' e₂'

-- Runs that do not depend on how what they receive is cut. Those of the second kind may stop
-- receiving at different places.
abbrev Uncut (h : Handler Sys W) (m : Io α) : Prop :=
  Relates h Env.Alike (fun _ => Env.Alike) m

abbrev Last (h : Handler Sys W) (m : Io α) : Prop :=
  Relates h Env.Alike (fun _ => Env.Loose) m

theorem Relates.bind {R : Env → Env → Prop} {R' : α → Env → Env → Prop} {R'' : β → Env → Env → Prop} {m : Io α}
    {f : α → Io β} (hm : Relates h R R' m) (hf : ∀ a, Relates h (R' a) R'' (f a)) : Relates h R R'' (m >>= f) := by
  intro e₁ e₂ w hr
  obtain ⟨a, e₁', e₂', w', h₁, h₂, hr'⟩ := hm e₁ e₂ w hr
  rw [exec_bind, exec_bind, h₁, h₂]
  exact hf a e₁' e₂' w' hr'

theorem Relates.mono {R : Env → Env → Prop} {R' R'' : α → Env → Env → Prop} {m : Io α} (hm : Relates h R R' m)
    (hr : ∀ a e₁ e₂, R' a e₁ e₂ → R'' a e₁ e₂) : Relates h R R'' m := by
  intro e₁ e₂ w h
  obtain ⟨a, e₁', e₂', w', h₁, h₂, hr'⟩ := hm e₁ e₂ w h
  exact ⟨a, e₁', e₂', w', h₁, h₂, hr _ _ _ hr'⟩

theorem Relates.of_and {c : Prop} {R : Env → Env → Prop} {R' : α → Env → Env → Prop} {m : Io α}
    (hm : c → Relates h R R' m) : Relates h (fun e₁ e₂ => c ∧ R e₁ e₂) R' m :=
  fun e₁ e₂ w hr => hm hr.left e₁ e₂ w hr.right

theorem Uncut.last {m : Io α} (hm : Uncut h m) : Last h m :=
  hm.mono fun _ _ _ hr => hr.loose

namespace Blind

-- A process that is blind leaves alone what there is to receive.
theorem reseat_eq {m : Io α} (hm : Blind h m) (e : Env) (w : W) :
    (exec h m e w).1.2 = (exec h m e w).1.2.reseat e.inp e.wr e.direct :=
  congrArg (·.1.2) (hm.exec_eq e w e.inp e.wr e.direct)

theorem loose {m : Io α} (hm : Blind h m) : Relates h Env.Loose (fun _ => Env.Loose) m := by
  rintro e₁ e₂ w ⟨as, ts, ds, rfl⟩
  exact ⟨_, _, _, _, rfl, hm.exec_eq e₁ w as ts ds, as, ts, ds, rfl⟩

theorem uncut {m : Io α} (hm : Blind h m) : Uncut h m := by
  intro e₁ e₂ w hr
  obtain ⟨as, ts, ds, rfl⟩ := hr.loose
  have hinp : (exec h m e₁ w).1.2.inp = e₁.inp := (congrArg Env.inp (hm.reseat_eq e₁ w) :)
  have hwr : (exec h m e₁ w).1.2.wr = e₁.wr := (congrArg Env.wr (hm.reseat_eq e₁ w) :)
  have hdirect : (exec h m e₁ w).1.2.direct = e₁.direct := (congrArg Env.direct (hm.reseat_eq e₁ w) :)
  refine ⟨_, _, _, _, rfl, hm.exec_eq e₁ w as ts ds, ⟨as, ts, ds, rfl⟩, ?_, ?_, ?_⟩
  case refine_1 => exact (congrArg bytes hinp).trans hr.bytes
  case refine_2 =>
    exact ⟨hinp ▸ hr.left.interrupted, hwr ▸ hr.left.benign, hdirect.trans hr.left.direct⟩
  case refine_3 => exact ⟨hr.right.interrupted, hr.right.benign, hr.right.direct⟩

theorem bind {m : Io α} {f : α → Io β} (hm : Blind h m) (hf : ∀ a, Blind h (f a)) : Blind h (m >>= f) := by
  constructor
  intro e w as ts ds
  rw [exec_bind, exec_bind, hm.exec_eq]
  exact (hf _).exec_eq _ _ as ts ds

theorem closed (h : Handler Sys W) : Closed (Blind h) where
  pure _   := ⟨fun _ _ _ _ _ => rfl⟩
  bind     := Blind.bind
  malloc   := ⟨fun _ _ _ _ _ => rfl⟩
  send _   := ⟨fun _ _ _ _ _ => rfl⟩

theorem sys (o : SysOp) : Blind h (Io.sys o) :=
  ⟨fun _ _ _ _ _ => rfl⟩

theorem fault : Blind h Io.fault :=
  ⟨fun _ _ _ _ _ => rfl⟩

theorem getpid : Blind h Io.getpid :=
  ⟨fun _ _ _ _ _ => rfl⟩

theorem rounds : Blind h Io.rounds :=
  ⟨fun _ _ _ _ _ => rfl⟩

-- A process that runs a program that is not about what there is to receive.
theorem lift {p : Env → Program Sys β} {g : Env → β → α × Env} (hp : ∀ e as ts ds, p (e.reseat as ts ds) = p e)
    (hg : ∀ e as ts ds b, g (e.reseat as ts ds) b = ((g e b).1, (g e b).2.reseat as ts ds)) :
    Blind h (fun e => p e >>= fun b => Pure.pure (g e b) : Io α) := by
  constructor
  intro e w as ts ds
  rw [exec_lift, exec_lift, hp, hg]

end Blind

theorem uncut_recvAll (n : Nat) : Uncut h (recvAll n) := by
  intro e₁ e₂ w hr
  obtain ⟨as, ts, ds, rfl⟩ := hr.loose
  obtain ⟨as₁, h₁, hb₁, ha₁⟩ := recvAll.loop_eq n hr.left.interrupted
  obtain ⟨as₂, h₂, hb₂, ha₂⟩ := recvAll.loop_eq n hr.right.interrupted
  have hexec : ∀ e : Env, exec h (recvAll n) e w =
      (((recvAll.loop n e.inp).1, { e with inp := (recvAll.loop n e.inp).2 }), w) := fun _ => rfl
  rw [hexec, hexec, h₁, h₂, ← hr.bytes]
  refine ⟨_, _, _, _, rfl, rfl, ⟨as₂, ts, ds, rfl⟩, ?_, ?_, ?_⟩
  case refine_1 => exact (hb₁.trans (congrArg (List.drop n) hr.bytes)).trans hb₂.symm
  case refine_2 => exact ⟨ha₁, hr.left.benign, hr.left.direct⟩
  case refine_3 => exact ⟨ha₂, hr.right.benign, hr.right.direct⟩

theorem Uncut.closed (h : Handler Sys W) : ClosedRecv (Uncut h) where
  pure a := ((Blind.closed h).pure a).uncut
  bind hm hf := Relates.bind hm hf
  malloc := (Blind.closed h).malloc.uncut
  send bs := ((Blind.closed h).send bs).uncut
  recv := uncut_recvAll

end

-- A step of a process that receives a file.
theorem relates_receive {p : Env → Program Sys (NetRecvFileResult × List Arrival × List Transfer)} {i n : Nat}
    (hp : ∀ (e : Env) w, e.Ready → ∃ as ts, (p e).run World.handle w =
      ((w.received i (bytes e.inp) n, as, ts), w.appended i ((bytes e.inp).take n))) :
    Relates World.handle Env.Alike (fun r e₁ e₂ => e₁.Loose e₂ ∧ r ≠ .unsupported)
      (fun e => p e >>= fun x => Pure.pure (x.1, { e with inp := x.2.1, wr := x.2.2 }) : Io NetRecvFileResult) := by
  intro e₁ e₂ w hr
  obtain ⟨as, ts, ds, rfl⟩ := hr.loose
  obtain ⟨as₁, ts₁, h₁⟩ := hp e₁ w hr.left
  obtain ⟨as₂, ts₂, h₂⟩ := hp _ w hr.right
  rw [exec_lift, exec_lift, h₁, h₂, hr.bytes]
  refine ⟨_, _, _, _, rfl, rfl, ⟨as₂, ts₂, ds, rfl⟩, ?_⟩
  dsimp only
  rw [World.received]
  split
  · split <;> simp
  · simp

theorem last_netRecvFileBuffered_loop (i n : Nat) {cap : Nat} (hcap : 0 < cap) :
    Last World.handle (fun e => netRecvFileBuffered.loop i cap e.inp e.wr n >>= fun x =>
      Pure.pure (x.1, { e with inp := x.2.1, wr := x.2.2 }) : Io NetRecvFileResult) :=
  (relates_receive fun _ _ hr => netRecvFileBuffered.run hr.interrupted hr.benign hcap n).mono
    fun _ _ _ hr => hr.left

theorem last_netRecvFileBuffered (i : Nat) (size : UInt64) : Last World.handle (netRecvFileBuffered i size) := by
  have hpure : ∀ r, Last World.handle (Pure.pure r : Io NetRecvFileResult) :=
    fun r => ((Blind.closed _).pure r).uncut.last
  rw [netRecvFileBuffered]
  split
  case isTrue => exact hpure _
  case isFalse =>
    dsimp only
    split
    case isTrue =>
      apply (Blind.closed _).malloc.uncut.bind
      intro b
      split
      case isTrue  => exact hpure _
      case isFalse => exact last_netRecvFileBuffered_loop _ _ (by decide)
    case isFalse => exact last_netRecvFileBuffered_loop _ _ (by decide)

-- No file is received directly, and what there is to receive is left as it is.
theorem relates_netRecvFileAll_direct (i : Nat) {n : Nat} (hn : n ≠ 0) :
    Relates World.handle Env.Alike (fun r e₁ e₂ => r = none ∧ e₁.Alike e₂) (fun e =>
      netRecvFileAll.direct i e.direct e.inp n 0 0 >>= fun x =>
        Pure.pure (x.1, { e with direct := x.2.1, inp := x.2.2 }) : Io (Option NetRecvFileResult)) := by
  have hrun : ∀ e : Env, e.Ready → netRecvFileAll.direct i e.direct e.inp n 0 0 = Pure.pure (none, [], e.inp) := by
    intro e he
    rw [he.direct, netRecvFileAll.direct, if_neg hn]
    rfl
  intro e₁ e₂ w hr
  obtain ⟨as, ts, ds, rfl⟩ := hr.loose
  rw [exec_lift, exec_lift, hrun e₁ hr.left, hrun _ hr.right]
  refine ⟨none, _, _, w, rfl, rfl, rfl, ⟨as, ts, [], rfl⟩, hr.bytes, ?_, ?_⟩
  · exact ⟨hr.left.interrupted, hr.left.benign, rfl⟩
  · exact ⟨hr.right.interrupted, hr.right.benign, rfl⟩

-- The way through the pipe is never given up for the other one.
theorem relates_netRecvFileAll (i : Nat) (size : UInt64) :
    Relates World.handle Env.Alike (fun r e₁ e₂ => e₁.Loose e₂ ∧ (r = .unsupported → e₁.Alike e₂))
      (netRecvFileAll i size) := by
  have hpure : ∀ r, Relates World.handle Env.Alike
      (fun r e₁ e₂ => e₁.Loose e₂ ∧ (r = .unsupported → e₁.Alike e₂)) (Pure.pure r : Io NetRecvFileResult) :=
    fun r => (((Blind.closed _).pure r).uncut).mono fun _ _ _ hr => ⟨hr.loose, fun _ => hr⟩
  rw [netRecvFileAll]
  split
  case isTrue => exact hpure _
  case isFalse hn =>
    apply (relates_netRecvFileAll_direct i fun h => hn (UInt64.toNat_inj.mp h)).bind
    intro r
    apply Relates.of_and
    rintro rfl
    apply Blind.fault.uncut.bind
    intro f
    cases f
    case some => exact hpure _
    case none =>
      have hrun : ∀ (e : Env) (w : World), e.Ready → ∃ as ts, (netRecvFileAll.pipe i e.inp e.wr size.toNat 0).run World.handle w =
          ((w.received i (bytes e.inp) size.toNat, as, ts), w.appended i ((bytes e.inp).take size.toNat)) := by
        intro e w he
        obtain ⟨as, ts, hrun, _⟩ := netRecvFileAll.pipe_run (w := w) (i := i) he.interrupted he.benign size.toNat 0
        exact ⟨as, ts, hrun⟩
      apply (relates_receive hrun).mono
      exact fun _ _ _ hr => ⟨hr.left, fun hu => absurd hu hr.right⟩

theorem last_netRecvFileBestEffort (i : Nat) (size : UInt64) : Last World.handle (netRecvFileBestEffort i size) := by
  apply (relates_netRecvFileAll i size).bind
  intro r
  split
  case isTrue =>
    intro e₁ e₂ w hr
    exact ⟨_, _, _, _, rfl, rfl, hr.left⟩
  case isFalse hr =>
    intro e₁ e₂ w he
    exact last_netRecvFileBuffered i size e₁ e₂ w (he.right (not_not.mp hr))

theorem last_transferRecvSocketHttpFileBuffered (i : Nat) (size : UInt64) :
    Last World.handle (transferRecvSocketHttpFileBuffered i size) := by
  have hpure : ∀ r, Relates World.handle Env.Loose (fun _ => Env.Loose) (Pure.pure r : Io ProtocolResult) :=
    fun r => ((Blind.closed _).pure r).loose
  rw [transferRecvSocketHttpFileBuffered]
  dsimp only
  split
  case isTrue =>
    apply (Blind.closed _).malloc.uncut.bind
    intro b
    split
    case isTrue  => exact ((Blind.closed _).pure _).uncut.last
    case isFalse =>
      apply (last_netRecvFileBuffered_loop i size.toNat (by decide)).bind
      intro r
      split <;> exact hpure _
  case isFalse =>
    apply (last_netRecvFileBuffered_loop i size.toNat (by decide)).bind
    intro r
    split <;> exact hpure _

end Io
