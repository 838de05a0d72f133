import HFile.Library.Discipline
import HFile.Theorems.Closed

open Program (Handler)

-- The descriptors that a call uses.
def SysOp.uses : SysOp → List Entry
  | .fstat fd _     => [fd]
  | .pread fd _ _   => [fd]
  | .write ino _    => [.file ino]
  | .pwrite ino _ _ => [.file ino]
  | .close fd _     => [fd]
  | _               => []

-- The descriptors that are open after a call. A `close` that fails has released its descriptor, too.
def SysOp.opened (ds : Multiset Entry) : (o : SysOp) × o.Res → Multiset Entry
  | ⟨.openExcl _ _, .ok ino⟩  => .file ino ::ₘ ds
  | ⟨.openRead _ _ _, .ok fd⟩ => fd ::ₘ ds
  | ⟨.close fd _, _⟩          => ds.erase fd
  | _                         => ds

-- A descriptor is used only while it is open.
def descriptors : Discipline Sys (Multiset Entry) where
  allows ds o := ∀ fd ∈ o.uses, fd ∈ ds
  after       := SysOp.opened

-- If the descriptors `ds` are open, `m` can be run, and its result and the descriptors that are open
-- then satisfy `Q`.
structure Io.Holds (ds : Multiset Entry) (m : Io α) (Q : α → Multiset Entry → Prop) : Prop where
  keeps : ∀ e, descriptors.Keeps (fun x ds' => Q x.1 ds') (m.run e) ds

-- `m` leaves the same descriptors open.
abbrev Io.Leaves (ds : Multiset Entry) (m : Io α) : Prop :=
  m.Holds ds (fun _ ds' => ds' = ds)

namespace Io

variable {ds : Multiset Entry} {Q : α → Multiset Entry → Prop}

theorem Holds.bind {m : Io α} {f : α → Io β} {R : β → Multiset Entry → Prop} (hm : m.Holds ds Q)
    (hf : ∀ a ds', Q a ds' → (f a).Holds ds' R) : (m >>= f).Holds ds R := by
  constructor
  intro e
  rw [StateT.run_bind, Discipline.keeps_bind]
  exact (hm.keeps e).mono fun x ds' hx => (hf x.1 ds' hx).keeps x.2

theorem Holds.mono {m : Io α} {R : α → Multiset Entry → Prop} (hm : m.Holds ds Q)
    (hqr : ∀ a ds', Q a ds' → R a ds') : m.Holds ds R :=
  ⟨fun e => (hm.keeps e).mono fun x ds' => hqr x.1 ds'⟩

theorem Leaves.then {m : Io α} {f : α → Io β} {R : β → Multiset Entry → Prop} (hm : m.Leaves ds)
    (hf : ∀ a, (f a).Holds ds R) : (m >>= f).Holds ds R :=
  hm.bind fun a _ hds => hds ▸ hf a

theorem holds_pure {a : α} (ha : Q a ds) : (pure a : Io α).Holds ds Q :=
  ⟨fun _ => ha⟩

theorem leaves_pure (a : α) : (pure a : Io α).Leaves ds :=
  holds_pure rfl

theorem holds_sys {o : SysOp} (ho : ∀ fd ∈ o.uses, fd ∈ ds) :
    (sys o).Holds ds (fun r ds' => ds' = SysOp.opened ds ⟨o, r⟩) :=
  ⟨fun _ => ⟨ho, fun _ _ hs => hs⟩⟩

theorem leaves_sys {o : SysOp} (ho : ∀ fd ∈ o.uses, fd ∈ ds) (hr : ∀ r, SysOp.opened ds ⟨o, r⟩ = ds) :
    (sys o).Leaves ds :=
  ⟨fun _ => ⟨ho, fun r _ hs => hs.trans (hr r)⟩⟩

theorem leaves_fault : fault.Leaves ds :=
  ⟨fun _ => rfl⟩

theorem leaves_closed : ClosedRecv (Leaves ds) where
  pure   := leaves_pure
  bind   := Leaves.then
  malloc := ⟨fun _ => rfl⟩
  send _ := ⟨fun _ => rfl⟩
  recv _ := ⟨fun _ => rfl⟩

end Io

open Io (Holds Leaves holds_pure leaves_pure holds_sys leaves_sys leaves_fault leaves_closed)

variable {ds : Multiset Entry}

section

variable {fd : Entry} {ino : Nat}

theorem holds_fsClose (hd : fd ∈ ds) : (fsClose fd).Holds ds (fun _ ds' => ds' = ds.erase fd) :=
  leaves_fault.then fun _ => holds_sys (by simpa [SysOp.uses] using hd)

-- A descriptor that is open on top of others is closed.
theorem closes_discard : (Functor.discard (fsClose fd)).Holds (fd ::ₘ ds) (fun _ ds' => ds' = ds) := by
  have hd : (Functor.discard (fsClose fd) : Io Unit) = (fsClose fd >>= fun _ => pure ()) := by
    simp only [Functor.discard, map_const, Function.comp, ← bind_pure_comp, Function.const]
  rw [hd]
  apply (holds_fsClose (Multiset.mem_cons_self fd ds)).bind
  intro _ ds' hds
  exact holds_pure (hds.trans (Multiset.erase_cons_head fd ds))

-- A new temporary file is open afterwards, if it could be created.
theorem holds_fsOpenTempFile (path : CStr) : (fsOpenTempFile path).Holds ds (fun r ds' =>
    ds' = match r with
      | .ok ino  => .file ino ::ₘ ds
      | .error _ => ds) := by
  apply leaves_fault.then
  intro f
  apply (holds_sys (fun _ h => absurd h List.not_mem_nil)).mono
  intro r ds' hs
  cases r <;> exact hs

theorem leaves_fsCommitTempFile (path path' : CStr) : (fsCommitTempFile path path').Leaves ds :=
  leaves_fault.then fun _ => leaves_sys (fun _ h => absurd h List.not_mem_nil) fun _ => rfl

theorem leaves_fsRemoveIgnoreError (path : CStr) : (fsRemoveIgnoreError path).Leaves ds :=
  leaves_sys (fun _ h => absurd h List.not_mem_nil) fun _ => rfl

theorem leaves_fsStatPath (path : CStr) : (fsStatPath path).Leaves ds :=
  leaves_fault.then fun _ => leaves_sys (fun _ h => absurd h List.not_mem_nil) fun _ => rfl

-- The loops that move the contents of files use the one descriptor that they are given.

theorem keeps_netSendFileAll_loop (hd : fd ∈ ds) (ts : List Transfer) (offset remaining : Nat) :
    descriptors.Keeps (fun _ ds' => ds' = ds) (netSendFileAll.loop fd ts offset remaining) ds := by
  fun_induction netSendFileAll.loop fd ts offset remaining
  case case3 hi => exact hi
  case case5 hi =>
    apply Discipline.keeps_perform_bind.mpr ⟨by simpa [descriptors, SysOp.uses] using hd, _⟩
    intro got
    change descriptors.Keeps _ _ ds
    split
    case isTrue => rfl
    case isFalse hg => exact Discipline.keeps_bind.mpr ((hi got hg).mono fun _ _ hs => hs)
  all_goals rfl

theorem keeps_netSendFileBuffered_loop (hd : fd ∈ ds) (ts snd : List Transfer) (offset remaining : Nat) :
    descriptors.Keeps (fun _ ds' => ds' = ds) (netSendFileBuffered.loop fd ts snd offset remaining) ds := by
  fun_induction netSendFileBuffered.loop fd ts snd offset remaining
  case case3 hi =>
    apply Discipline.keeps_perform_bind.mpr ⟨by simpa [descriptors, SysOp.uses] using hd, _⟩
    intro got
    change descriptors.Keeps _ _ ds
    split
    case isTrue => rfl
    case isFalse hg =>
      dsimp only
      split
      case isTrue => rfl
      case isFalse => exact Discipline.keeps_bind.mpr ((hi got hg _).mono fun _ _ hs => hs)
  all_goals rfl

theorem keeps_fsWriteAll_loop (hd : .file ino ∈ ds) (ts : List Transfer) (bs : Bytes) :
    descriptors.Keeps (fun _ ds' => ds' = ds) (fsWriteAll.loop ino ts bs) ds := by
  fun_induction fsWriteAll.loop ino ts bs
  case case2 hi => exact hi
  case case5 hi =>
    apply Discipline.keeps_perform_bind.mpr ⟨by simpa [descriptors, SysOp.uses] using hd, _⟩
    intro m
    change descriptors.Keeps _ _ ds
    split
    case isTrue => rfl
    case isFalse hm => exact Discipline.keeps_bind.mpr ((hi m hm).mono fun _ _ hs => hs)
  all_goals rfl

theorem keeps_netRecvFileAll_pipe (hd : .file ino ∈ ds) (as : List Arrival) (ts : List Transfer)
    (remaining moved : Nat) :
    descriptors.Keeps (fun _ ds' => ds' = ds) (netRecvFileAll.pipe ino as ts remaining moved) ds := by
  fun_induction netRecvFileAll.pipe ino as ts remaining moved
  case case3 hi => exact hi
  case case6 hi =>
    apply Discipline.keeps_bind.mpr ((keeps_fsWriteAll_loop hd _ _).mono _)
    intro x ds' hs
    subst hs
    dsimp only
    split
    case isTrue => rfl
    case isFalse => exact hi _
  all_goals rfl

theorem keeps_netRecvFileAll_direct (hd : .file ino ∈ ds) (outcomes : List (Option Errno))
    (as : List Arrival) (remaining moved offset : Nat) : descriptors.Keeps (fun _ ds' => ds' = ds)
      (netRecvFileAll.direct ino outcomes as remaining moved offset) ds := by
  fun_induction netRecvFileAll.direct ino outcomes as remaining moved offset
  case case4 hi => exact hi
  case case7 hi => exact hi
  case case10 hi =>
    apply Discipline.keeps_perform_bind.mpr ⟨by simpa [descriptors, SysOp.uses] using hd, _⟩
    exact fun _ => hi
  all_goals rfl

theorem keeps_netRecvFileBuffered_loop (hd : .file ino ∈ ds) (cap : Nat) (as : List Arrival)
    (ts : List Transfer) (remaining : Nat) : descriptors.Keeps (fun _ ds' => ds' = ds)
      (netRecvFileBuffered.loop ino cap as ts remaining) ds := by
  fun_induction netRecvFileBuffered.loop ino cap as ts remaining
  case case2 hi => exact hi
  case case5 hi =>
    apply Discipline.keeps_bind.mpr ((keeps_fsWriteAll_loop hd _ _).mono _)
    intro x ds' hs
    subst hs
    dsimp only
    split
    case isTrue => rfl
    case isFalse => exact hi _
  all_goals rfl

end

section

variable {fd : Entry} {ino : Nat}

theorem leaves_netSendFileBestEffort (hd : fd ∈ ds) (size : UInt64) :
    (netSendFileBestEffort fd size).Leaves ds := by
  have hall : (netSendFileAll fd size).Leaves ds := by
    constructor
    intro e
    exact Discipline.keeps_bind.mpr ((keeps_netSendFileAll_loop hd ..).mono fun _ _ hs => hs)
  apply hall.then
  intro r
  split
  case isTrue => exact leaves_pure _
  case isFalse =>
    rw [netSendFileBuffered]
    split
    case isTrue => exact leaves_pure _
    case isFalse =>
      apply leaves_closed.malloc.then
      intro b
      split
      case isTrue => exact leaves_pure _
      case isFalse =>
        constructor
        intro e
        exact Discipline.keeps_bind.mpr ((keeps_netSendFileBuffered_loop hd ..).mono fun _ _ hs => hs)

theorem leaves_netRecvFileBuffered_loop (hd : .file ino ∈ ds) (cap size : Nat) :
    Io.Leaves ds (fun e => do
      let (r, as, ts) ← netRecvFileBuffered.loop ino cap e.inp e.wr size
      pure (r, { e with inp := as, wr := ts })) := by
  constructor
  intro e
  exact Discipline.keeps_bind.mpr ((keeps_netRecvFileBuffered_loop hd ..).mono fun _ _ hs => hs)

theorem leaves_netRecvFileBestEffort (hd : .file ino ∈ ds) (size : UInt64) :
    (netRecvFileBestEffort ino size).Leaves ds := by
  have hall : (netRecvFileAll ino size).Leaves ds := by
    rw [netRecvFileAll]
    split
    case isTrue => exact leaves_pure _
    case isFalse =>
      refine Leaves.then ⟨fun e => Discipline.keeps_bind.mpr ?_⟩ fun r => ?_
      case refine_1 => exact (keeps_netRecvFileAll_direct hd ..).mono fun _ _ hs => hs
      case refine_2 =>
        split
        case h_1 => exact leaves_pure _
        case h_2 =>
          apply leaves_fault.then
          intro f
          split
          case h_1 => exact leaves_pure _
          case h_2 =>
            constructor
            intro e
            exact Discipline.keeps_bind.mpr ((keeps_netRecvFileAll_pipe hd ..).mono fun _ _ hs => hs)
  have hbuffered : (netRecvFileBuffered ino size).Leaves ds := by
    rw [netRecvFileBuffered]
    split
    case isTrue => exact leaves_pure _
    case isFalse =>
      dsimp only
      split
      case isTrue =>
        apply leaves_closed.malloc.then
        intro b
        split
        case isTrue  => exact leaves_pure _
        case isFalse => exact leaves_netRecvFileBuffered_loop hd _ _
      case isFalse => exact leaves_netRecvFileBuffered_loop hd _ _
  apply hall.then
  intro r
  split
  case isTrue  => exact leaves_pure _
  case isFalse => exact hbuffered

theorem leaves_transferRecvSocketHttpFileBuffered_loop (hd : .file ino ∈ ds) (cap : Nat) (size : UInt64) :
    Io.Leaves ds (do
      let res : NetRecvFileResult ← fun e => do
        let (r, as, ts) ← netRecvFileBuffered.loop ino cap e.inp e.wr size.toNat
        pure (r, { e with inp := as, wr := ts })
      match res with
      | .ok  => return ProtocolResult.ok
      | .eof => return ProtocolResult.errEof
      | _    => return ProtocolResult.errIo) := by
  apply (leaves_netRecvFileBuffered_loop hd cap _).then
  intro r
  split <;> exact leaves_pure _

theorem leaves_transferRecvSocketHttpFileBuffered (hd : .file ino ∈ ds) (size : UInt64) :
    (transferRecvSocketHttpFileBuffered ino size).Leaves ds := by
  rw [transferRecvSocketHttpFileBuffered]
  dsimp only
  split
  case isTrue =>
    apply leaves_closed.malloc.then
    intro b
    split
    case isTrue  => exact leaves_pure _
    case isFalse => exact leaves_transferRecvSocketHttpFileBuffered_loop hd _ size
  case isFalse => exact leaves_transferRecvSocketHttpFileBuffered_loop hd _ size

end

-- An upload closes the temporary file that it opens.

theorem holds_attempts (fullPath : CStr) (ks : List Nat) :
    (transferPrepareOutput.attempts fullPath ks).Holds ds (fun r ds' =>
      ds' = match r with
        | .ok x    => .file x.2 ::ₘ ds
        | .error _ => ds) := by
  induction ks
  case nil => exact holds_pure rfl
  case cons k ks hi =>
    rw [transferPrepareOutput.attempts]
    have hpid : Io.getpid.Leaves ds := ⟨fun _ => rfl⟩
    apply hpid.then
    intro pid
    dsimp only
    split
    case isTrue => exact holds_pure rfl
    case isFalse =>
      apply (holds_fsOpenTempFile _).bind
      intro r ds' hs
      subst hs
      cases r
      case ok => exact holds_pure rfl
      case error e =>
        dsimp only
        split
        case isTrue  => exact hi
        case isFalse => exact holds_pure rfl

theorem holds_transferPrepareOutput (baseDir file : CStr) :
    (transferPrepareOutput baseDir file).Holds ds (fun r ds' =>
      ds' = match r with
        | .ok out  => .file out.ino ::ₘ ds
        | .error _ => ds) := by
  rw [transferPrepareOutput]
  split
  case h_1 => exact holds_pure rfl
  case h_2 =>
    apply (holds_attempts _ _).bind
    intro r ds' hs
    subst hs
    cases r <;> exact holds_pure rfl

-- The clean-up of a failed upload closes the temporary file if this has not been done yet.
theorem holds_transferCleanup (out : TransferOutput) (isOpen : Bool) :
    (transferCleanup out isOpen).Holds (if isOpen then .file out.ino ::ₘ ds else ds) (fun _ ds' => ds' = ds) := by
  rw [transferCleanup]
  cases isOpen
  case true =>
    apply closes_discard.bind
    intro _ ds' hs
    exact hs ▸ leaves_fsRemoveIgnoreError _
  case false => exact leaves_fsRemoveIgnoreError _

theorem holds_transferFinalizeOutput (out : TransferOutput) (cap : Nat) :
    (transferFinalizeOutput out cap).Holds (.file out.ino ::ₘ ds) (fun x ds' =>
      ds' = (if x.2 then .file out.ino ::ₘ ds else ds) ∧ (x.1 = .ok → x.2 = false)) := by
  rw [transferFinalizeOutput]
  split
  case isTrue => exact holds_pure ⟨rfl, fun h => by cases h⟩
  case isFalse =>
    apply (holds_fsClose (Multiset.mem_cons_self _ ds)).bind
    intro b ds' hs
    rw [Multiset.erase_cons_head] at hs
    subst hs
    split
    case isTrue => exact holds_pure ⟨rfl, fun _ => rfl⟩
    case isFalse =>
      apply (leaves_fsCommitTempFile _ _).then
      intro b
      split <;> exact holds_pure ⟨rfl, fun _ => rfl⟩

theorem leaves_transferRecv {body : Nat → Io ProtocolResult}
    (hb : ∀ ino, (body ino).Leaves (.file ino ::ₘ ds)) (baseDir file : CStr) (cap : Nat) :
    (transferRecv body baseDir file cap).Leaves ds := by
  apply (holds_transferPrepareOutput baseDir file).bind
  intro r ds' hs
  subst hs
  cases r
  case error => exact leaves_pure _
  case ok out =>
    have hfail : ∀ (r : ProtocolResult) (isOpen : Bool), Io.Holds (if isOpen then .file out.ino ::ₘ ds else ds)
        (transferCleanup out isOpen >>= fun _ => pure (.error r : Except ProtocolResult CStr))
        (fun _ ds' => ds' = ds) := by
      intro r isOpen
      apply (holds_transferCleanup out isOpen).bind
      intro _ ds' hs
      exact hs ▸ leaves_pure _
    apply (hb out.ino).then
    intro result
    split
    case isTrue => exact hfail result true
    case isFalse =>
      apply (holds_transferFinalizeOutput out cap).bind
      intro x ds' ⟨hs, hok⟩
      subst hs
      dsimp only
      by_cases hr : x.1 = .ok
      case neg =>
        rw [if_pos hr]
        exact hfail x.1 x.2
      case pos =>
        rw [if_neg (not_not.mpr hr), hok hr]
        exact leaves_pure _

theorem leaves_appReceiveFile (baseDir file : CStr) (size : UInt64) (kind : AppUploadKind) (cap : Nat) :
    (appReceiveFile baseDir file size kind cap).Leaves ds := by
  cases kind
  case protocol =>
    apply leaves_transferRecv
    intro ino
    apply (leaves_netRecvFileBestEffort (Multiset.mem_cons_self _ ds) size).then
    intro r
    split <;> exact leaves_pure _
  case http =>
    exact leaves_transferRecv
      (fun _ => leaves_transferRecvSocketHttpFileBuffered (Multiset.mem_cons_self _ ds) size) baseDir file cap

-- A download that is prepared is open.
theorem holds_appPrepareDownload (baseDir file : CStr) :
    (appPrepareDownload baseDir file).Holds ds (fun r ds' =>
      ds' = match r with
        | .ok download => download.fd ::ₘ ds
        | .error _     => ds) := by
  rw [appPrepareDownload]
  split
  case h_1 => exact holds_pure rfl
  case h_2 path _ =>
    apply leaves_fault.then
    intro f
    apply (holds_sys (fun _ h => absurd h List.not_mem_nil)).bind
    intro r ds' hs
    subst hs
    cases r
    case error => exact holds_pure rfl
    case ok fd =>
      apply leaves_fault.then
      intro f
      apply Leaves.then (leaves_sys (by simp [SysOp.uses, SysOp.opened]) fun _ => rfl)
      intro info
      have hclose : ∀ r : ProtocolResult, Io.Holds (fd ::ₘ ds) (do
          discard <| fsClose fd
          return (.error r : Except ProtocolResult AppDownload)) (fun r ds' =>
            ds' = match r with
              | .ok download => download.fd ::ₘ ds
              | .error _     => ds) := by
        intro r
        apply closes_discard.bind
        intro _ ds' hs
        exact hs ▸ holds_pure rfl
      split
      case h_1 => exact hclose _
      case h_2 =>
        split
        case isTrue  => exact hclose _
        case isFalse => exact holds_pure rfl

theorem holds_appDownloadCleanup (download : AppDownload) :
    (appDownloadCleanup download).Holds (download.fd ::ₘ ds) (fun _ ds' => ds' = ds) :=
  closes_discard
