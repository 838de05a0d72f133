import HFile.Theorems.Closed
import HFile.Theorems.Paths

-- The paths that are handed to a call.
def SysOp.paths : SysOp → List CStr
  | .openExcl p _   => [p]
  | .openRead p _ _ => [p]
  | .rename p q _   => [p, q]
  | .remove p       => [p]
  | .lstat p _      => [p]
  | .opendir p _    => [p]
  | _               => []

def SysOp.Confined (D : CStr → Prop) (o : SysOp) : Prop :=
  ∀ p ∈ o.paths, D p

theorem SysOp.confined_nil {D : CStr → Prop} {o : SysOp} (h : o.paths = []) : o.Confined D := by
  simp [Confined, h]

-- What is known of the answers to calls: the names in a directory have no slash.
def SysOp.Answers : (o : SysOp) → o.Res → Prop
  | .opendir _ _, some names => ∀ name ∈ names, slash ∉ name.chars
  | _, _                     => True

-- All paths that `m` uses satisfy `D`, whatever it receives and whatever the answers to its calls are,
-- and its results satisfy `Q`.
structure Io.Touches (D : CStr → Prop) (m : Io α) (Q : α → Prop) : Prop where
  calls : ∀ e, Program.Calls (S := Sys) SysOp.Answers (SysOp.Confined D) (fun x => Q x.1) (m.run e)

abbrev Io.Stays (D : CStr → Prop) (m : Io α) : Prop :=
  m.Touches D (fun _ => True)

section

variable {D : CStr → Prop} {Q : α → Prop}

namespace Io

theorem Touches.bind {m : Io α} {f : α → Io β} {R : β → Prop} (hm : m.Touches D Q)
    (hf : ∀ a, Q a → (f a).Touches D R) : (m >>= f).Touches D R := by
  constructor
  intro e
  rw [StateT.run_bind, Program.Calls.bind_iff]
  exact (hm.calls e).mono fun x hx => (hf x.1 hx).calls x.2

theorem Stays.then {m : Io α} {f : α → Io β} {R : β → Prop} (hm : m.Stays D)
    (hf : ∀ a, (f a).Touches D R) : (m >>= f).Touches D R :=
  Touches.bind hm fun a _ => hf a

theorem Touches.stays {m : Io α} (hm : m.Touches D Q) : m.Stays D :=
  ⟨fun e => (hm.calls e).mono fun _ _ => trivial⟩

theorem touches_pure {a : α} (ha : Q a) : (pure a : Io α).Touches D Q :=
  ⟨fun _ => ha⟩

theorem stays_pure (a : α) : (pure a : Io α).Stays D :=
  touches_pure trivial

theorem stays_sys {o : SysOp} (ho : o.Confined D) : (sys o).Stays D :=
  ⟨fun _ => ⟨ho, fun _ _ => trivial⟩⟩

theorem stays_fault : fault.Stays D :=
  ⟨fun _ => trivial⟩

theorem stays_closed : ClosedRecv (Stays D) where
  pure      := stays_pure
  bind      := Stays.then
  malloc    := ⟨fun _ => trivial⟩
  send _    := ⟨fun _ => trivial⟩
  recv _    := ⟨fun _ => trivial⟩

end Io

open Io (stays_pure stays_sys stays_fault stays_closed Touches Stays)

theorem stays_fsClose (fd : Entry) : (fsClose fd).Stays D :=
  stays_fault.then fun _ => stays_sys (SysOp.confined_nil rfl)

theorem stays_fsOpenTempFile {p : CStr} (hp : D p) : (fsOpenTempFile p).Stays D :=
  stays_fault.then fun _ => stays_sys (by simpa [SysOp.Confined, SysOp.paths] using hp)

theorem stays_fsCommitTempFile {p q : CStr} (hp : D p) (hq : D q) : (fsCommitTempFile p q).Stays D :=
  stays_fault.then fun _ => stays_sys (by simpa [SysOp.Confined, SysOp.paths] using ⟨hp, hq⟩)

theorem stays_fsRemoveIgnoreError {p : CStr} (hp : D p) : (fsRemoveIgnoreError p).Stays D :=
  stays_sys (by simpa [SysOp.Confined, SysOp.paths] using hp)

theorem stays_fsStatPath {p : CStr} (hp : D p) : (fsStatPath p).Stays D :=
  stays_fault.then fun _ => stays_sys (by simpa [SysOp.Confined, SysOp.paths] using hp)

section

-- The loops that move the contents of files use no paths at all.

theorem calls_netSendFileAll_loop (fd : Entry) (ts : List Transfer) (offset remaining : Nat) :
    (netSendFileAll.loop fd ts offset remaining).Calls SysOp.Answers (SysOp.Confined D)
      (fun _ => True) := by
  fun_induction netSendFileAll.loop fd ts offset remaining
  case case3 hi => exact hi
  case case5 hi =>
    refine Program.Calls.perform_bind_iff.mpr ⟨SysOp.confined_nil rfl, fun got _ => ?_⟩
    split
    case isTrue => trivial
    case isFalse hg => exact Program.Calls.bind_iff.mpr ((hi got hg).mono fun _ _ => trivial)
  all_goals trivial

theorem calls_netSendFileBuffered_loop (fd : Entry) (ts snd : List Transfer)
    (offset remaining : Nat) : (netSendFileBuffered.loop fd ts snd offset remaining).Calls
      SysOp.Answers (SysOp.Confined D) (fun _ => True) := by
  fun_induction netSendFileBuffered.loop fd ts snd offset remaining
  case case3 hi =>
    refine Program.Calls.perform_bind_iff.mpr ⟨SysOp.confined_nil rfl, fun got _ => ?_⟩
    split
    case isTrue => trivial
    case isFalse hg =>
      dsimp only
      split
      case isTrue => trivial
      case isFalse => exact Program.Calls.bind_iff.mpr ((hi got hg _).mono fun _ _ => trivial)
  all_goals trivial

theorem calls_fsWriteAll_loop (ino : Nat) (ts : List Transfer) (bs : Bytes) :
    (fsWriteAll.loop ino ts bs).Calls SysOp.Answers (SysOp.Confined D)
      (fun _ => True) := by
  fun_induction fsWriteAll.loop ino ts bs
  case case2 hi => exact hi
  case case5 hi =>
    refine Program.Calls.perform_bind_iff.mpr ⟨SysOp.confined_nil rfl, fun m _ => ?_⟩
    split
    case isTrue => trivial
    case isFalse hm => exact Program.Calls.bind_iff.mpr ((hi m hm).mono fun _ _ => trivial)
  all_goals trivial

theorem calls_netRecvFileAll_pipe (ino : Nat) (as : List Arrival) (ts : List Transfer)
    (remaining moved : Nat) : (netRecvFileAll.pipe ino as ts remaining moved).Calls
      SysOp.Answers (SysOp.Confined D) (fun _ => True) := by
  fun_induction netRecvFileAll.pipe ino as ts remaining moved
  case case3 hi => exact hi
  case case6 hi =>
    apply Program.Calls.bind_iff.mpr ((calls_fsWriteAll_loop ..).mono _)
    intro x _
    dsimp only
    split
    case isTrue => trivial
    case isFalse => exact hi _
  all_goals trivial

theorem calls_netRecvFileAll_direct (ino : Nat) (ds : List (Option Errno)) (as : List Arrival)
    (remaining moved offset : Nat) : (netRecvFileAll.direct ino ds as remaining moved offset).Calls
      SysOp.Answers (SysOp.Confined D) (fun _ => True) := by
  fun_induction netRecvFileAll.direct ino ds as remaining moved offset
  case case4 hi => exact hi
  case case7 hi => exact hi
  case case10 hi => exact Program.Calls.perform_bind_iff.mpr ⟨SysOp.confined_nil rfl, fun _ _ => hi⟩
  all_goals trivial

theorem calls_netRecvFileBuffered_loop (ino cap : Nat) (as : List Arrival) (ts : List Transfer)
    (remaining : Nat) : (netRecvFileBuffered.loop ino cap as ts remaining).Calls
      SysOp.Answers (SysOp.Confined D) (fun _ => True) := by
  fun_induction netRecvFileBuffered.loop ino cap as ts remaining
  case case2 hi => exact hi
  case case5 hi =>
    apply Program.Calls.bind_iff.mpr ((calls_fsWriteAll_loop ..).mono _)
    intro x _
    dsimp only
    split
    case isTrue => trivial
    case isFalse => exact hi _
  all_goals trivial

theorem stays_netSendFileBestEffort (fd : Entry) (size : UInt64) :
    (netSendFileBestEffort fd size).Stays D := by
  have hall : (netSendFileAll fd size).Stays D := by
    constructor
    intro e
    exact Program.Calls.bind_iff.mpr ((calls_netSendFileAll_loop ..).mono fun _ _ => trivial)
  apply hall.then
  intro r
  split
  case isTrue => exact stays_pure _
  case isFalse =>
    rw [netSendFileBuffered]
    split
    case isTrue => exact stays_pure _
    case isFalse =>
      apply stays_closed.malloc.then
      intro b
      split
      case isTrue => exact stays_pure _
      case isFalse =>
        constructor
        intro e
        exact Program.Calls.bind_iff.mpr ((calls_netSendFileBuffered_loop ..).mono fun _ _ => trivial)

theorem stays_netRecvFileBuffered_loop (ino cap size : Nat) :
    Io.Stays D (fun e => do
      let (r, as, ts) ← netRecvFileBuffered.loop ino cap e.inp e.wr size
      pure (r, { e with inp := as, wr := ts })) := by
  constructor
  intro e
  exact Program.Calls.bind_iff.mpr ((calls_netRecvFileBuffered_loop ..).mono fun _ _ => trivial)

theorem stays_netRecvFileBuffered (ino : Nat) (size : UInt64) :
    (netRecvFileBuffered ino size).Stays D := by
  rw [netRecvFileBuffered]
  split
  case isTrue => exact stays_pure _
  case isFalse =>
    dsimp only
    split
    case isTrue =>
      apply stays_closed.malloc.then
      intro b
      split
      case isTrue  => exact stays_pure _
      case isFalse => exact stays_netRecvFileBuffered_loop _ _ _
    case isFalse => exact stays_netRecvFileBuffered_loop _ _ _

theorem stays_netRecvFileAll (ino : Nat) (size : UInt64) : (netRecvFileAll ino size).Stays D := by
  rw [netRecvFileAll]
  split
  case isTrue => exact stays_pure _
  case isFalse =>
    refine Stays.then ⟨fun e => Program.Calls.bind_iff.mpr ?_⟩ fun r => ?_
    · exact (calls_netRecvFileAll_direct ..).mono fun _ _ => trivial
    split
    case h_1 => exact stays_pure _
    case h_2 =>
      apply stays_fault.then
      intro f
      split
      case h_1 => exact stays_pure _
      case h_2 =>
        constructor
        intro e
        exact Program.Calls.bind_iff.mpr ((calls_netRecvFileAll_pipe ..).mono fun _ _ => trivial)

theorem stays_netRecvFileBestEffort (ino : Nat) (size : UInt64) :
    (netRecvFileBestEffort ino size).Stays D := by
  apply (stays_netRecvFileAll ino size).then
  intro r
  split
  · exact stays_pure _
  · exact stays_netRecvFileBuffered ino size

theorem stays_transferRecvSocketHttpFileBuffered (ino : Nat) (size : UInt64) :
    (transferRecvSocketHttpFileBuffered ino size).Stays D := by
  rw [transferRecvSocketHttpFileBuffered]
  dsimp only
  split
  case isTrue =>
    apply stays_closed.malloc.then
    intro b
    split
    case isTrue  => exact stays_pure _
    case isFalse =>
      apply (stays_netRecvFileBuffered_loop _ _ _).then
      intro r
      split <;> exact stays_pure _
  case isFalse =>
    apply (stays_netRecvFileBuffered_loop _ _ _).then
    intro r
    split <;> exact stays_pure _

end

-- What is shown below holds for all paths that `file` leads to.
structure Reaches (D : CStr → Prop) (baseDir file : CStr) : Prop where
  full : ∀ {path}, fsJoinRelativePath pathCap baseDir file = some path → D path
  temp : ∀ {path pid attempt}, fsJoinRelativePath pathCap baseDir file = some path →
    (fsBuildTempPath pathCap path pid attempt).2 → D (fsBuildTempPath pathCap path pid attempt).1

section

variable {baseDir file : CStr}

theorem touches_attempts {fullPath : CStr} (ks : List Nat)
    (ht : ∀ {pid k}, (fsBuildTempPath pathCap fullPath pid k).2 →
      D (fsBuildTempPath pathCap fullPath pid k).1) :
    (transferPrepareOutput.attempts fullPath ks).Touches D (fun r => ∀ x, r = .ok x → D x.1) := by
  induction ks
  case nil => exact Io.touches_pure (by simp)
  case cons k ks hi =>
    rw [transferPrepareOutput.attempts]
    have hpid : Io.getpid.Stays D := ⟨fun _ => trivial⟩
    apply hpid.then
    intro pid
    dsimp only
    split
    case isTrue => exact Io.touches_pure (by simp)
    case isFalse hf =>
      have hd := ht (by simpa using hf)
      apply (stays_fsOpenTempFile hd).then
      intro r
      split
      case h_1 =>
        apply Io.touches_pure
        intro x hx
        cases hx
        exact hd
      case h_2 =>
        split
        case isTrue  => exact hi
        case isFalse => exact Io.touches_pure (by simp)

theorem touches_transferPrepareOutput (hr : Reaches D baseDir file) :
    (transferPrepareOutput baseDir file).Touches D
      (fun r => ∀ out, r = .ok out → D out.tmpPath ∧ D out.fullPath) := by
  rw [transferPrepareOutput]
  split
  case h_1 => exact Io.touches_pure (by simp)
  case h_2 path hp =>
    apply (touches_attempts _ (hr.temp hp)).bind
    intro r hok
    split
    case h_1 => exact Io.touches_pure (by simp)
    case h_2 tmp ino =>
      apply Io.touches_pure
      intro out ho
      cases ho
      exact ⟨hok _ rfl, hr.full hp⟩

theorem stays_transferCleanup {out : TransferOutput} (ht : D out.tmpPath) (isOpen : Bool) :
    (transferCleanup out isOpen).Stays D := by
  rw [transferCleanup]
  split
  case isTrue => exact (stays_closed.discard (stays_fsClose _)).then fun _ => stays_fsRemoveIgnoreError ht
  case isFalse => exact stays_fsRemoveIgnoreError ht

theorem stays_transferFinalizeOutput {out : TransferOutput} (ht : D out.tmpPath) (hf : D out.fullPath)
    (cap : Nat) : (transferFinalizeOutput out cap).Stays D := by
  rw [transferFinalizeOutput]
  split
  case isTrue => exact stays_pure _
  case isFalse =>
    apply (stays_fsClose _).then
    intro b
    split
    case isTrue => exact stays_pure _
    case isFalse =>
      apply (stays_fsCommitTempFile ht hf).then
      intro b
      split <;> exact stays_pure _

theorem touches_transferRecv {body : Nat → Io ProtocolResult} (hb : ∀ ino, (body ino).Stays D)
    (hr : Reaches D baseDir file) (cap : Nat) :
    (transferRecv body baseDir file cap).Touches D (fun r => ∀ path, r = .ok path → D path) := by
  apply (touches_transferPrepareOutput hr).bind
  intro r hok
  split
  case h_1 => exact Io.touches_pure (by simp)
  case h_2 out =>
    have ⟨ht, hf⟩ := hok out rfl
    have hfail : ∀ r isOpen, Io.Touches D
        (transferCleanup out isOpen >>= fun _ => pure (.error r : Except ProtocolResult CStr))
        (fun r => ∀ path, r = .ok path → D path) :=
      fun r isOpen => (stays_transferCleanup ht isOpen).then fun _ => Io.touches_pure (by simp)
    apply (hb out.ino).then
    intro result
    split
    case isTrue => exact hfail _ _
    case isFalse =>
      apply (stays_transferFinalizeOutput ht hf cap).then
      intro x
      dsimp only
      split
      case isTrue => exact hfail _ _
      case isFalse =>
        apply Io.touches_pure
        intro path hp
        cases hp
        exact hf

theorem touches_appReceiveFile (hr : Reaches D baseDir file) (size : UInt64) (kind : AppUploadKind)
    (cap : Nat) :
    (appReceiveFile baseDir file size kind cap).Touches D (fun r => ∀ path, r = .ok path → D path) := by
  cases kind
  case protocol =>
    apply touches_transferRecv _ hr
    intro ino
    apply (stays_netRecvFileBestEffort ino size).then
    intro r
    split <;> exact stays_pure _
  case http =>
    exact touches_transferRecv (fun ino => stays_transferRecvSocketHttpFileBuffered ino size) hr cap

theorem stays_appPrepareDownload (hr : Reaches D baseDir file) :
    (appPrepareDownload baseDir file).Stays D := by
  rw [appPrepareDownload]
  split
  case h_1 => exact stays_pure _
  case h_2 path hp =>
    apply stays_fault.then
    intro f
    apply (stays_sys (by simpa [SysOp.Confined, SysOp.paths] using hr.full hp)).then
    intro r
    split
    case h_1 => exact stays_pure _
    case h_2 fd =>
      apply stays_fault.then
      intro f
      apply (stays_sys (SysOp.confined_nil rfl)).then
      intro info
      have hclose : ∀ r : ProtocolResult, Io.Stays D (do
          discard <| fsClose fd
          return (.error r : Except ProtocolResult AppDownload)) :=
        fun r => (stays_closed.discard (stays_fsClose fd)).then fun _ => stays_pure _
      split
      case h_1 => exact hclose _
      case h_2 =>
        split
        case isTrue  => exact hclose _
        case isFalse => exact stays_pure _

theorem stays_appDownloadCleanup (download : AppDownload) : (appDownloadCleanup download).Stays D :=
  stays_closed.discard (stays_fsClose _)

theorem stays_appSubmitMessage (message : CStr) : (appSubmitMessage message).Stays D := by
  have hset : (messageStoreSet message).Stays D := by
    apply stays_closed.malloc.then
    intro b
    split
    case isTrue => exact stays_pure _
    case isFalse => exact (stays_sys (SysOp.confined_nil rfl)).then fun _ => stays_pure _
  rw [appSubmitMessage]
  split
  case isTrue => exact stays_pure _
  case isFalse =>
    apply hset.then
    intro b
    split <;> exact stays_pure _

end

end
