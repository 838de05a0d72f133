import HFile.Source.Http
import HFile.System.Wp
import HFile.Theorems.Paths

open Program (Handler)

-- The answers to calls that a process relies on: no more bytes are read than are asked for, numbers fit
-- the types of the system, and the store has no message that is longer than it accepts.
structure Program.Handler.Sane {W : Type} (h : Handler Sys W) : Prop where
  pread : ∀ fd off len w, (h (.pread fd off len) w).1.length ≤ len
  fstat : ∀ {fd f w info}, (h (.fstat fd f) w).1 = some info → info.size < 2 ^ 64
  lstat : ∀ {path f w info}, (h (.lstat path f) w).1 = some info → info.size < 2 ^ 64 ∧ info.mtime < 2 ^ 64
  opendir : ∀ {path f w names}, (h (.opendir path f) w).1 = some names → names.length < 2 ^ 32
  getMessage : ∀ {w m}, (h .getMessage w).1.1 = some m → m.strlen ≤ maxTextMessageSize

-- The calls of `h`, where a call fails if its answer does not fit.
def Program.Handler.fitting {W : Type} (h : Handler Sys W) : Handler Sys W
  | .pread fd off len, w => ((h (.pread fd off len) w).1.take len, (h (.pread fd off len) w).2)
  | .fstat fd f, w       => ((h (.fstat fd f) w).1.filter (·.size < 2 ^ 64), (h (.fstat fd f) w).2)
  | .lstat path f, w     =>
    ((h (.lstat path f) w).1.filter (fun info => info.size < 2 ^ 64 ∧ info.mtime < 2 ^ 64), (h (.lstat path f) w).2)
  | .opendir path f, w   => ((h (.opendir path f) w).1.filter (·.length < 2 ^ 32), (h (.opendir path f) w).2)
  | .getMessage, w       =>
    (((h .getMessage w).1.1.filter (·.strlen ≤ maxTextMessageSize), (h .getMessage w).1.2), (h .getMessage w).2)
  | o, w                 => h o w

theorem Program.Handler.fitting_sane {W : Type} (h : Handler Sys W) : h.fitting.Sane where
  pread fd off len w := List.length_take_le _ _
  fstat hi           := by simpa using (Option.filter_eq_some_iff.mp hi).right
  lstat hi           := by simpa using (Option.filter_eq_some_iff.mp hi).right
  opendir hi         := by simpa using (Option.filter_eq_some_iff.mp hi).right
  getMessage hi      := by simpa using (Option.filter_eq_some_iff.mp hi).right

-- `m` sends nothing, and its results satisfy `Q`.
structure Io.Quiet (m : Io α) (Q : α → Prop) : Prop where
  wp : ∀ {W : Type} {h : Handler Sys W}, h.Sane → ∀ e w,
    Io.wp h m (fun a e' _ => Q a ∧ e'.out = e.out ∧ e'.snd = e.snd) e w

abbrev Io.Silent (m : Io α) : Prop :=
  m.Quiet (fun _ => True)

namespace Io

variable {Q : α → Prop}

theorem Quiet.bind {m : Io α} {f : α → Io β} {R : β → Prop} (hm : m.Quiet Q) (hf : ∀ a, Q a → (f a).Quiet R) :
    (m >>= f).Quiet R := by
  constructor
  intro W h hs e w
  rw [wp_bind]
  apply wp_mono (hm.wp hs e w)
  intro a e' w' ⟨ha, hout, hsnd⟩
  rw [← hout, ← hsnd]
  exact (hf a ha).wp hs e' w'

theorem Silent.then {m : Io α} {f : α → Io β} {R : β → Prop} (hm : m.Silent) (hf : ∀ a, (f a).Quiet R) :
    (m >>= f).Quiet R :=
  Quiet.bind hm fun a _ => hf a

theorem Quiet.mono {m : Io α} {R : α → Prop} (hm : m.Quiet Q) (h : ∀ a, Q a → R a) : m.Quiet R :=
  ⟨fun hs e w => wp_mono (hm.wp hs e w) fun a _ _ hq => ⟨h a hq.left, hq.right⟩⟩

theorem Quiet.silent {m : Io α} (hm : m.Quiet Q) : m.Silent :=
  hm.mono fun _ _ => trivial

theorem quiet_pure {a : α} (ha : Q a) : (pure a : Io α).Quiet Q :=
  ⟨fun _ _ _ => ⟨ha, rfl, rfl⟩⟩

theorem silent_pure (a : α) : (pure a : Io α).Silent :=
  quiet_pure trivial

theorem silent_sys (o : SysOp) : (sys o).Silent :=
  ⟨fun _ _ _ => ⟨trivial, rfl, rfl⟩⟩

theorem silent_fault : fault.Silent :=
  ⟨fun _ _ _ => ⟨trivial, rfl, rfl⟩⟩

theorem silent_malloc : malloc.Silent :=
  ⟨fun _ _ _ => ⟨trivial, rfl, rfl⟩⟩

theorem silent_recvAll (len : Nat) : (recvAll len).Silent :=
  ⟨fun _ _ _ => ⟨trivial, rfl, rfl⟩⟩

theorem Silent.discard {m : Io α} (hm : m.Silent) : (Functor.discard m).Silent := by
  constructor
  intro W h hs e w
  rw [wp_discard]
  exact wp_mono (hm.wp hs e w) fun _ _ _ h => h

end Io

open Io (Silent Quiet silent_pure silent_sys silent_fault silent_malloc silent_recvAll quiet_pure)

theorem silent_fsClose (fd : Entry) : (fsClose fd).Silent :=
  silent_fault.then fun _ => silent_sys _

theorem quiet_fsStatPath (path : CStr) :
    (fsStatPath path).Quiet (fun r => ∀ info, r = some info → info.size < 2 ^ 64 ∧ info.mtime < 2 ^ 64) :=
  silent_fault.then fun _ => ⟨fun hs _ _ => ⟨fun _ hi => hs.lstat hi, rfl, rfl⟩⟩

section

variable {ino : Nat}

theorem silent_netRecvFileBuffered_loop (cap size : Nat) :
    Io.Silent (fun e => do
      let (r, as, ts) ← netRecvFileBuffered.loop ino cap e.inp e.wr size
      pure (r, { e with inp := as, wr := ts })) := by
  constructor
  intro W h _ e w
  exact Program.wp_bind.mpr ⟨trivial, rfl, rfl⟩

theorem silent_netRecvFileBestEffort (size : UInt64) : (netRecvFileBestEffort ino size).Silent := by
  have hall : (netRecvFileAll ino size).Silent := by
    rw [netRecvFileAll]
    split
    case isTrue => exact silent_pure _
    case isFalse =>
      refine Silent.then ⟨fun _ e w => Program.wp_bind.mpr ⟨trivial, rfl, rfl⟩⟩ fun r => ?_
      split
      case h_1 => exact silent_pure _
      case h_2 =>
        apply silent_fault.then
        intro f
        split
        case h_1 => exact silent_pure _
        case h_2 => exact ⟨fun _ e w => Program.wp_bind.mpr ⟨trivial, rfl, rfl⟩⟩
  have hbuffered : (netRecvFileBuffered ino size).Silent := by
    rw [netRecvFileBuffered]
    split
    case isTrue => exact silent_pure _
    case isFalse =>
      dsimp only
      split
      case isTrue =>
        apply silent_malloc.then
        intro b
        split
        case isTrue  => exact silent_pure _
        case isFalse => exact silent_netRecvFileBuffered_loop _ _
      case isFalse => exact silent_netRecvFileBuffered_loop _ _
  apply hall.then
  intro r
  split
  case isTrue  => exact silent_pure _
  case isFalse => exact hbuffered

theorem silent_transferRecvSocketHttpFileBuffered_loop (ino cap : Nat) (size : UInt64) : Io.Silent (do
      let res : NetRecvFileResult ← fun e => do
        let (r, as, ts) ← netRecvFileBuffered.loop ino cap e.inp e.wr size.toNat
        pure (r, { e with inp := as, wr := ts })
      match res with
      | .ok  => return ProtocolResult.ok
      | .eof => return ProtocolResult.errEof
      | _    => return ProtocolResult.errIo) := by
  apply (silent_netRecvFileBuffered_loop cap _).then
  intro r
  split <;> exact silent_pure _

theorem silent_transferRecvSocketHttpFileBuffered (ino : Nat) (size : UInt64) :
    (transferRecvSocketHttpFileBuffered ino size).Silent := by
  rw [transferRecvSocketHttpFileBuffered]
  dsimp only
  split
  case isTrue =>
    apply silent_malloc.then
    intro b
    split
    case isTrue  => exact silent_pure _
    case isFalse => exact silent_transferRecvSocketHttpFileBuffered_loop ino _ size
  case isFalse => exact silent_transferRecvSocketHttpFileBuffered_loop ino _ size

end

-- Storing a file sends nothing.

theorem silent_attempts (fullPath : CStr) (ks : List Nat) :
    (transferPrepareOutput.attempts fullPath ks).Silent := by
  induction ks
  case nil => exact silent_pure _
  case cons k ks hi =>
    rw [transferPrepareOutput.attempts]
    have hpid : Io.getpid.Silent := ⟨fun _ _ _ => ⟨trivial, rfl, rfl⟩⟩
    apply hpid.then
    intro pid
    dsimp only
    split
    case isTrue => exact silent_pure _
    case isFalse =>
      apply Silent.then (m := fsOpenTempFile _) (silent_fault.then fun _ => silent_sys _)
      intro r
      split
      case h_1 => exact silent_pure _
      case h_2 =>
        split
        case isTrue  => exact hi
        case isFalse => exact silent_pure _

theorem silent_transferRecv {body : Nat → Io ProtocolResult} (hb : ∀ ino, (body ino).Silent)
    (baseDir file : CStr) (cap : Nat) : (transferRecv body baseDir file cap).Silent := by
  have hprepare : (transferPrepareOutput baseDir file).Silent := by
    rw [transferPrepareOutput]
    split
    case h_1 => exact silent_pure _
    case h_2 =>
      apply (silent_attempts _ _).then
      intro r
      split <;> exact silent_pure _
  have hfail : ∀ (out : TransferOutput) (isOpen : Bool) (r : ProtocolResult), Io.Silent (do
      transferCleanup out isOpen
      return (.error r : Except ProtocolResult CStr)) := by
    intro out isOpen r
    have hclean : (transferCleanup out isOpen).Silent := by
      rw [transferCleanup]
      split
      case isTrue  => exact (silent_fsClose _).discard.then fun _ => silent_sys _
      case isFalse => exact silent_sys _
    exact hclean.then fun _ => silent_pure _
  have hfinalize : ∀ out, (transferFinalizeOutput out cap).Silent := by
    intro out
    rw [transferFinalizeOutput]
    split
    case isTrue => exact silent_pure _
    case isFalse =>
      apply (silent_fsClose _).then
      intro b
      split
      case isTrue => exact silent_pure _
      case isFalse =>
        apply Silent.then (m := fsCommitTempFile _ _) (silent_fault.then fun _ => silent_sys _)
        intro b
        split <;> exact silent_pure _
  apply hprepare.then
  intro r
  split
  case h_1 => exact silent_pure _
  case h_2 out =>
    apply (hb out.ino).then
    intro result
    split
    case isTrue => exact hfail _ _ _
    case isFalse =>
      apply (hfinalize out).then
      intro x
      dsimp only
      split
      case isTrue  => exact hfail _ _ _
      case isFalse => exact silent_pure _

theorem silent_appReceiveFile (baseDir file : CStr) (size : UInt64) (kind : AppUploadKind) (cap : Nat) :
    (appReceiveFile baseDir file size kind cap).Silent := by
  cases kind
  case protocol =>
    apply silent_transferRecv
    intro ino
    apply (silent_netRecvFileBestEffort size).then
    intro r
    split <;> exact silent_pure _
  case http => exact silent_transferRecv (fun ino => silent_transferRecvSocketHttpFileBuffered ino size) _ _ _

theorem wp_fstat_size {fd : Entry} {f : Option Errno} :
    (Io.sys (.fstat fd f)).Quiet (fun r => ∀ info, r = some info → info.size < 2 ^ 64) :=
  ⟨fun hs _ _ => ⟨fun _ hi => hs.fstat hi, rfl, rfl⟩⟩

-- A download whose size is known to fit 64 bits.
theorem quiet_appPrepareDownload (baseDir file : CStr) :
    (appPrepareDownload baseDir file).Quiet (fun r => ∀ download, r = .ok download → download.info.size < 2 ^ 64) := by
  rw [appPrepareDownload]
  split
  case h_1 => exact quiet_pure nofun
  case h_2 path _ =>
    apply silent_fault.then
    intro f
    apply (silent_sys _).then
    intro r
    split
    case h_1 => exact quiet_pure nofun
    case h_2 fd =>
      apply silent_fault.then
      intro f
      apply wp_fstat_size.bind
      intro info hinfo
      have hclose : ∀ r : ProtocolResult, Io.Quiet (do
          discard <| fsClose fd
          return (.error r : Except ProtocolResult AppDownload))
          (fun r => ∀ download, r = .ok download → download.info.size < 2 ^ 64) :=
        fun r => (silent_fsClose fd).discard.then fun _ => quiet_pure nofun
      split
      case h_1 => exact hclose _
      case h_2 info =>
        split
        case isTrue => exact hclose _
        case isFalse =>
          apply quiet_pure
          intro download hd
          cases hd
          exact hinfo info rfl

theorem silent_appDownloadCleanup (download : AppDownload) : (appDownloadCleanup download).Silent :=
  (silent_fsClose _).discard

theorem quiet_messageStoreGetSnapshot : messageStoreGetSnapshot.Quiet
    (fun r => ∀ m v, r = some (some m, v) → m.strlen ≤ maxTextMessageSize) := by
  have hget : (Io.sys .getMessage).Quiet (fun r => ∀ m, r.1 = some m → m.strlen ≤ maxTextMessageSize) :=
    ⟨fun hs _ _ => ⟨fun _ hm => hs.getMessage hm, rfl, rfl⟩⟩
  apply hget.bind
  intro x hx
  have hsome : Io.Quiet (pure (some x)) (fun r => ∀ m v, r = some (some m, v) → m.strlen ≤ maxTextMessageSize) := by
    apply quiet_pure
    intro m v hm
    cases hm
    exact hx m rfl
  dsimp only
  split
  case isTrue =>
    apply silent_malloc.then
    intro b
    split
    case isTrue  => exact quiet_pure nofun
    case isFalse => exact hsome
  case isFalse => exact hsome

theorem silent_messageStoreWaitForUpdate (version : Nat) : (messageStoreWaitForUpdate version).Silent := by
  apply (silent_sys _).then
  intro x
  dsimp only
  split
  case isTrue =>
    apply silent_malloc.then
    intro b
    split <;> exact silent_pure _
  case isFalse => exact silent_pure _

theorem quiet_messageStoreGetCopy :
    messageStoreGetCopy.Quiet (fun r => ∀ m, r = some (some m) → m.strlen ≤ maxTextMessageSize) := by
  apply quiet_messageStoreGetSnapshot.bind
  intro r hr
  split
  case h_1     => exact quiet_pure nofun
  case h_2 m v =>
    apply quiet_pure
    intro m' hm
    cases hm
    exact hr m' v rfl

theorem silent_appSubmitMessage (message : CStr) : (appSubmitMessage message).Silent := by
  have hset : (messageStoreSet message).Silent := by
    apply silent_malloc.then
    intro b
    split
    case isTrue  => exact silent_pure _
    case isFalse => exact (silent_sys _).then fun _ => silent_pure _
  rw [appSubmitMessage]
  split
  case isTrue => exact silent_pure _
  case isFalse =>
    apply hset.then
    intro b
    split <;> exact silent_pure _

theorem silent_httpDiscardBody (size : UInt64) : (httpDiscardBody size).Silent :=
  ⟨fun _ _ _ => ⟨trivial, rfl, rfl⟩⟩

theorem silent_httpParseMessageJson (body : Bytes) : (httpParseMessageJson body).Silent := by
  apply silent_malloc.then
  intro b
  split <;> exact silent_pure _

-- The values in the entry of a listing are those of the C code's types.
structure HttpFileEntry.Small (x : HttpFileEntry) : Prop where
  name  : x.name.strlen < httpPathMax
  path  : x.path.strlen < httpPathMax
  size  : x.size < 2 ^ 64
  mtime : x.mtime < 2 ^ 64

theorem strlen_httpBuildRelativeChildPath {cap : Nat} {base name out : CStr}
    (h : httpBuildRelativeChildPath cap base name = some out) : name.strlen ≤ out.strlen ∧ out.strlen < cap := by
  simp only [httpBuildRelativeChildPath, Option.ite_none_right_eq_some, Option.some.injEq] at h
  have hl := of_decide_eq_true h.left
  rw [← snprintf_fits h.left, h.right] at hl
  refine ⟨?_, hl⟩
  rw [← h.right, snprintf_fits h.left]
  split
  case isTrue => exact Nat.le_refl _
  case isFalse => simp

theorem quiet_httpListFiles_entries (dir relativeDir : CStr) (names : List CStr) :
    (httpListFiles.entries dir relativeDir names).Quiet
      (fun r => ∀ entries, r = some entries → entries.length ≤ names.length ∧ ∀ x ∈ entries, x.Small) := by
  induction names
  case nil =>
    apply quiet_pure
    intro entries he
    cases he
    exact ⟨Nat.le_refl _, nofun⟩
  case cons name names hi =>
    have hrest : (httpListFiles.entries dir relativeDir names).Quiet
        (fun r => ∀ entries, r = some entries → entries.length ≤ (name :: names).length ∧ ∀ x ∈ entries, x.Small) :=
      hi.mono fun r hr entries he => ⟨Nat.le_succ_of_le (hr entries he).left, (hr entries he).right⟩
    rw [httpListFiles.entries]
    split
    case isTrue => exact hrest
    case isFalse =>
      split
      case h_1 => exact quiet_pure nofun
      case h_2 fullPath _ =>
        split
        case h_1 => exact quiet_pure nofun
        case h_2 relativePath hpath =>
          have ⟨hname, hcap⟩ := strlen_httpBuildRelativeChildPath hpath
          apply (quiet_fsStatPath _).bind
          intro info hinfo
          split
          case h_1 => exact hrest
          case h_2 info =>
            have ⟨hsize, hmtime⟩ := hinfo info rfl
            apply hi.bind
            intro r hr
            apply quiet_pure
            intro entries he
            obtain ⟨rest, hrest, rfl⟩ := Option.map_eq_some_iff.mp he
            have ⟨hlen, hsmall⟩ := hr rest hrest
            refine ⟨Nat.succ_le_succ hlen, List.forall_mem_cons.mpr ⟨⟨?_, hcap, ?_, hmtime⟩, hsmall⟩⟩
            · exact Nat.lt_of_le_of_lt hname hcap
            · dsimp only
              split
              case isTrue  => exact hsize
              case isFalse => decide

theorem silent_httpHandleFilesList_isDir (dir relativeDir : CStr) (info : FsPathInfo) :
    (httpHandleFilesList.isDir dir relativeDir info).Silent := by
  rw [httpHandleFilesList.isDir]
  split
  case isTrue => exact silent_pure _
  case isFalse =>
    split
    case isTrue =>
      apply silent_fault.then
      intro f
      exact (silent_sys _).then fun _ => silent_pure _
    case isFalse => exact silent_pure _


theorem quiet_httpListFiles (dir relativeDir : CStr) : (httpListFiles dir relativeDir).Quiet
    (fun r => ∀ entries, r = some entries → entries.length < 2 ^ 32 ∧ ∀ x ∈ entries, x.Small) := by
  apply silent_fault.then
  intro f
  have hopen : (Io.sys (.opendir dir f)).Quiet (fun r => ∀ names, r = some names → names.length < 2 ^ 32) :=
    ⟨fun hs _ _ => ⟨fun _ hn => hs.opendir hn, rfl, rfl⟩⟩
  apply hopen.bind
  intro r hr
  split
  case h_1 => exact quiet_pure nofun
  case h_2 names =>
    apply (quiet_httpListFiles_entries _ _ _).bind
    intro r hentries
    apply quiet_pure
    intro sorted hs
    obtain ⟨entries, he, rfl⟩ := Option.map_eq_some_iff.mp hs
    have ⟨hlen, hsmall⟩ := hentries entries he
    have hperm := List.mergeSort_perm entries httpFileEntryLe
    exact ⟨hperm.length_eq ▸ Nat.lt_of_le_of_lt hlen (hr names rfl), fun x hx => hsmall x (hperm.mem_iff.mp hx)⟩

-- What a listing sends is made of entries.
theorem quiet_httpBuildFilesJson (dir relativeDir : CStr) : (httpBuildFilesJson dir relativeDir).Quiet
    (fun r => ∀ text, r = some text →
      ∃ entries, text = httpBuildFilesJson.text entries ∧ entries.length < 2 ^ 32 ∧ ∀ x ∈ entries, x.Small) := by
  apply (quiet_httpListFiles dir relativeDir).bind
  intro r hr
  apply quiet_pure
  intro text ht
  obtain ⟨entries, he, rfl⟩ := Option.map_eq_some_iff.mp ht
  exact ⟨entries, rfl, hr entries he⟩
