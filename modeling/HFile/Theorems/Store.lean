import HFile.Library.Pool
import HFile.Theorems.Transfer
import HFile.Source.AppService

open Arrival (bytes)

-- What a client wants from the file store, once its handler has accepted the request.
inductive Request
  | upload (kind : AppUploadKind) (target : CStr) (size : UInt64)
  | download (target : CStr)

structure Connection where
  request : Request
  env     : Env

instance Except.decidableEq [DecidableEq ε] [DecidableEq α] : DecidableEq (Except ε α)
  | .error a, .error b => decidable_of_iff (a = b) (by simp)
  | .ok a, .ok b       => decidable_of_iff (a = b) (by simp)
  | .error _, .ok _    => isFalse (by simp)
  | .ok _, .error _    => isFalse (by simp)

inductive Outcome
  | upload (result : Except ProtocolResult CStr)
  | download (content : Option Bytes)
  deriving DecidableEq

-- The part that `server_handle_get_file` and `http_send_file` have in common. The result tells
-- whether the download is complete.
def downloadFile (baseDir target : CStr) : Io Bool := do
  match ← appPrepareDownload baseDir target with
  | .error _     => return false
  | .ok download =>
    let result ← netSendFileBestEffort download.fd download.info.size.toUInt64
    appDownloadCleanup download
    return result = .ok

namespace Connection

def target (c : Connection) : CStr :=
  match c.request with
  | .upload _ target _ => target
  | .download target   => target

def fullPath (c : Connection) (baseDir : CStr) : Option CStr :=
  fsJoinRelativePath pathCap baseDir c.target

-- A complete download comes with the bytes of the file that were sent.
def serve (c : Connection) (baseDir : CStr) : Program Sys Outcome :=
  match c.request with
  | .upload kind target size => do
    let x ← (appReceiveFile baseDir target size kind pathCap).run c.env
    return .upload x.1
  | .download target => do
    let x ← (downloadFile baseDir target).run c.env
    return .download (if x.1 then some (x.2.out.drop c.env.out.length) else none)

-- The bytes that are to be received with an upload.
def payload (c : Connection) (size : UInt64) : Bytes :=
  (bytes c.env.inp).take size.toNat

end Connection

-- How far a connection has come.
inductive Phase
  | idle
  | writing (tmp : CStr) (ino : Nat) (bs : Bytes)
  | stored
  | reading (fd : Entry) (bs : Bytes)

namespace Phase

-- The calls that are made for a connection. Only a complete file is moved to its target.
inductive Allows (c : Connection) (baseDir : CStr) : Phase → SysOp → Prop
  | openExcl :
    c.request = .upload kind target size → Allows c baseDir .idle (.openExcl tmp f)
  | openRead :
    c.request = .download target → c.fullPath baseDir = some path →
    Allows c baseDir .idle (.openRead path b f)
  | write : Allows c baseDir (.writing tmp ino bs) (.write ino chunk)
  | pwrite : Allows c baseDir (.writing tmp ino bs) (.pwrite ino off chunk)
  | closeOut : Allows c baseDir (.writing tmp ino bs) (.close fd f)
  | rename :
    c.request = .upload kind target size → c.fullPath baseDir = some path → bs = c.payload size →
    Allows c baseDir (.writing tmp ino bs) (.rename tmp path f)
  | remove : Allows c baseDir (.writing tmp ino bs) (.remove tmp)
  | fstat : Allows c baseDir (.reading fd bs) (.fstat fd f)
  | pread : Allows c baseDir (.reading fd bs) (.pread fd off len)
  | closeIn : Allows c baseDir (.reading fd bs) (.close fd f)

-- What can come of these calls. The temporary file of a connection is its own, and a file does not
-- change any more once it can be opened.
inductive Next : Phase → (o : SysOp) → o.Res → Phase → Prop
  | taken : Next .idle (.openExcl p f) (.error e) .idle
  | created : Next .idle (.openExcl p f) (.ok ino) (.writing p ino [])
  | missed : Next .idle (.openRead p b f) (.error e) .idle
  | opened : Next .idle (.openRead p b f) (.ok fd) (.reading fd bs)
  | write :
    n ≤ chunk.length →
    Next (.writing tmp ino bs) (.write ino chunk) n (.writing tmp ino (bs ++ chunk.take n))
  | pwrite : Next (.writing tmp ino bs) (.pwrite ino off chunk) n (.writing tmp ino bs')
  | closeOut : Next (.writing tmp ino bs) (.close fd f) b (.writing tmp ino bs)
  | renamed : Next (.writing tmp ino bs) (.rename tmp p f) true .stored
  | kept : Next (.writing tmp ino bs) (.rename tmp p f) false (.writing tmp ino bs)
  | removed : Next (.writing tmp ino bs) (.remove tmp) () .idle
  | fstat {r : Option FsPathInfo} :
    (∀ info, r = some info → info.kind = .file →
      (∃ i, fd = .file i) ∧ info.size = bs.length ∧ info.size < 2 ^ 63) →
    Next (.reading fd bs) (.fstat fd f) r (.reading fd bs)
  | pread :
    Next (.reading fd bs) (.pread fd off len) ((bs.drop off).take len) (.reading fd bs)
  | closeIn : Next (.reading fd bs) (.close fd f) b (.reading fd bs)

end Phase

namespace Connection

def contract (c : Connection) (baseDir : CStr) : Contract Sys Phase where
  allows := Phase.Allows c baseDir
  next   := Phase.Next

-- How a connection ends: no temporary file is left, an upload is stored exactly if it succeeds, and
-- a complete download has sent all of the file.
def Ends (c : Connection) : Outcome → Phase → Prop
  | .upload (.ok _), s     => s = .stored
  | .upload (.error _), s  => s = .idle
  | .download (some bs), s => c.request = .download c.target ∧ ∃ i, s = .reading (.file i) bs
  | .download none, s      => s = .idle ∨ ∃ fd bs, s = .reading fd bs

end Connection

instance (o : SysOp) : Inhabited (Sys.Res o) :=
  match o with
  | .openExcl ..    => ⟨(.error .EINTR : Except Errno Nat)⟩
  | .openRead ..    => ⟨(.error .EINTR : Except Errno Entry)⟩
  | .fstat ..       => inferInstanceAs <| Inhabited (Option FsPathInfo)
  | .pread ..       => inferInstanceAs <| Inhabited Bytes
  | .write ..       => inferInstanceAs <| Inhabited Nat
  | .pwrite ..      => inferInstanceAs <| Inhabited Nat
  | .close ..       => inferInstanceAs <| Inhabited Bool
  | .rename ..      => inferInstanceAs <| Inhabited Bool
  | .remove ..      => inferInstanceAs <| Inhabited Unit
  | .lstat ..       => inferInstanceAs <| Inhabited (Option FsPathInfo)
  | .opendir ..     => inferInstanceAs <| Inhabited (Option (List CStr))
  | .setMessage ..  => inferInstanceAs <| Inhabited Unit
  | .getMessage     => inferInstanceAs <| Inhabited (Option CStr × Nat)
  | .waitMessage .. => inferInstanceAs <| Inhabited (Option CStr × Nat)

namespace Connection

variable {c : Connection} {baseDir : CStr}

theorem contract_oracle : Nonempty (Contract.Oracle (c.contract baseDir)) := by
  apply Contract.Oracle.nonempty
  intro s o ha
  cases ha
  case openExcl => exact ⟨_, _, .taken (e := .EEXIST)⟩
  case openRead => exact ⟨_, _, .missed (e := .ENOENT)⟩
  case write    => exact ⟨_, _, .write (Nat.zero_le _)⟩
  case pwrite   => exact ⟨(0 : Nat), .writing _ _ [], .pwrite⟩
  case closeOut => exact ⟨_, _, .closeOut (b := true)⟩
  case rename   => exact ⟨_, _, .renamed⟩
  case remove   => exact ⟨_, _, .removed⟩
  case fstat    => exact ⟨_, _, .fstat (r := none) (by simp)⟩
  case pread    => exact ⟨_, _, .pread⟩
  case closeIn  => exact ⟨_, _, .closeIn (b := true)⟩

section

open Contract (Rehearsal)

variable {e : Env} {tmp path : CStr} {ino : Nat} {f : Contract.Oracle (c.contract baseDir)}

theorem wp_sys_rehearse {s : Phase} {o : SysOp}
    {Q : o.Res → Env → Rehearsal (c.contract baseDir) → Prop} (ha : Phase.Allows c baseDir s o)
    (hq : ∀ r s' f, Phase.Next s o r s' → Q r e ⟨s', True, f⟩) :
    Io.wp (c.contract baseDir).rehearse (Io.sys o) Q e ⟨s, True, f⟩ :=
  Contract.wp_rehearse (C := c.contract baseDir) (Q := fun r x => Q r e x) ha hq

theorem wp_fsClose_rehearse {s : Phase} {fd : Entry}
    {Q : Bool → Env → Rehearsal (c.contract baseDir) → Prop}
    (ha : ∀ f, Phase.Allows c baseDir s (.close fd f))
    (hq : ∀ b fs f, Q b { e with faults := fs } ⟨s, True, f⟩) :
    Io.wp (c.contract baseDir).rehearse (fsClose fd) Q e ⟨s, True, f⟩ := by
  rw [fsClose, Io.wp_bind]
  apply Io.wp_fault
  intro f fs
  apply wp_sys_rehearse (ha f)
  intro b s' f hn
  cases hn <;> exact hq b fs _

theorem wp_attempts_rehearse {kind : AppUploadKind} {target : CStr} {size : UInt64}
    (hr : c.request = .upload kind target size) {ks : List Nat}
    {Q : Except ProtocolResult (CStr × Nat) → Env → Rehearsal (c.contract baseDir) → Prop}
    (hok : ∀ tmp ino fs f,
      Q (.ok (tmp, ino)) { e with faults := fs } ⟨.writing tmp ino [], True, f⟩)
    (herr : ∀ r fs f, Q (.error r) { e with faults := fs } ⟨.idle, True, f⟩) :
    Io.wp (c.contract baseDir).rehearse (transferPrepareOutput.attempts path ks) Q e
      ⟨.idle, True, f⟩ := by
  induction ks generalizing e f
  case nil => exact herr _ e.faults f
  case cons k ks hi =>
    rw [transferPrepareOutput.attempts, Io.wp_bind, Io.wp_getpid]
    dsimp only
    split
    case isTrue => exact herr _ e.faults f
    case isFalse =>
      rw [Io.wp_bind, fsOpenTempFile, Io.wp_bind]
      apply Io.wp_fault
      intro fault fs
      apply wp_sys_rehearse (.openExcl hr)
      intro r s' f hn
      cases hn
      case created => exact hok _ _ _ _
      case taken =>
        dsimp only
        split
        case isTrue  => exact hi (fun tmp ino fs f => hok tmp ino fs f) (fun r fs f => herr r fs f)
        case isFalse => exact herr _ _ _

-- What a connection has written so far, in a rehearsal.
def Written (tmp : CStr) (ino : Nat) (x : Rehearsal (c.contract baseDir)) (bs : Bytes) : Prop :=
  x.state = .writing tmp ino bs ∧ x.sound

theorem writes_written :
    Writes (c.contract baseDir).rehearse ino (@Written c baseDir tmp ino) where
  le {x bs} chunk hx := by
    have ⟨r, s, hn, he⟩ := Contract.rehearse_eq (C := c.contract baseDir) (x := x)
      (hx.left ▸ .write : Phase.Allows c baseDir x.state (.write ino chunk))
    rw [hx.left] at hn
    rw [he]
    cases hn
    assumption
  step {x bs} chunk hx := by
    have ha : Phase.Allows c baseDir x.state (.write ino chunk) := hx.left ▸ .write
    have ⟨r, s, hn, he⟩ := Contract.rehearse_eq (C := c.contract baseDir) ha
    rw [hx.left] at hn
    rw [he]
    cases hn
    exact ⟨rfl, hx.right, ha⟩
  seek {x bs} off chunk hx := by
    have ha : Phase.Allows c baseDir x.state (.pwrite ino off chunk) := hx.left ▸ .pwrite
    have ⟨r, s, hn, he⟩ := Contract.rehearse_eq (C := c.contract baseDir) ha
    rw [hx.left] at hn
    rw [he]
    cases hn
    exact ⟨_, rfl, hx.right, ha⟩

theorem wp_cleanup_rehearse {out : TransferOutput} {isOpen : Bool} {bs : Bytes}
    {Q : Unit → Env → Rehearsal (c.contract baseDir) → Prop}
    (hq : ∀ fs f, Q () { e with faults := fs } ⟨.idle, True, f⟩) :
    Io.wp (c.contract baseDir).rehearse (transferCleanup out isOpen) Q e
      ⟨.writing out.tmpPath out.ino bs, True, f⟩ := by
  have hrm : ∀ fs f, Io.wp (c.contract baseDir).rehearse (fsRemoveIgnoreError out.tmpPath) Q
      { e with faults := fs } ⟨.writing out.tmpPath out.ino bs, True, f⟩ := by
    intro fs f
    apply wp_sys_rehearse .remove
    intro r s' f hn
    cases hn
    exact hq fs f
  rw [transferCleanup]
  split
  case isTrue =>
    rw [Io.wp_bind, Io.wp_discard]
    exact wp_fsClose_rehearse (fun _ => .closeOut) fun _ fs f => hrm fs f
  case isFalse => exact hrm e.faults f

theorem wp_finalize_rehearse {kind : AppUploadKind} {target : CStr} {size : UInt64}
    (hr : c.request = .upload kind target size) {out : TransferOutput} {cap : Nat}
    (hp : c.fullPath baseDir = some out.fullPath)
    {Q : ProtocolResult × Bool → Env → Rehearsal (c.contract baseDir) → Prop}
    (hok : ∀ fs f, Q (.ok, false) { e with faults := fs } ⟨.stored, True, f⟩)
    (herr : ∀ r isOpen fs f, r ≠ .ok → Q (r, isOpen) { e with faults := fs }
      ⟨.writing out.tmpPath out.ino (c.payload size), True, f⟩) :
    Io.wp (c.contract baseDir).rehearse (transferFinalizeOutput out cap) Q e
      ⟨.writing out.tmpPath out.ino (c.payload size), True, f⟩ := by
  rw [transferFinalizeOutput]
  split
  case isTrue => exact herr .errInvalidArgument true e.faults f (by simp)
  case isFalse =>
    rw [Io.wp_bind]
    apply wp_fsClose_rehearse (fun _ => .closeOut)
    intro b fs f
    cases b
    case false => exact herr .errIo false fs f (by simp)
    case true =>
      apply Io.wp_bind.mpr
      rw [fsCommitTempFile, Io.wp_bind]
      apply Io.wp_fault
      intro fault fs
      apply wp_sys_rehearse (.rename hr hp rfl)
      intro r s' f hn
      cases hn
      case renamed => exact hok fs f
      case kept    => exact herr .errIo false fs f (by simp)

theorem wp_transferRecv_rehearse {kind : AppUploadKind} {target : CStr} {size : UInt64} {cap : Nat}
    (hr : c.request = .upload kind target size) {body : Nat → Io ProtocolResult}
    (hbody : ∀ tmp ino fs f, Io.wp (c.contract baseDir).rehearse (body ino)
      (fun r _ x => ∃ bs, Written tmp ino x bs ∧ (r = .ok → bs = c.payload size))
      { c.env with faults := fs } ⟨.writing tmp ino [], True, f⟩) :
    Io.wp (c.contract baseDir).rehearse (transferRecv body baseDir target cap)
      (fun r _ x => x.sound ∧ c.Ends (.upload r) x.state) c.env ⟨.idle, True, f⟩ := by
  have ht : c.fullPath baseDir = fsJoinRelativePath pathCap baseDir target := by
    simp [fullPath, Connection.target, hr]
  rw [transferRecv, Io.wp_bind, transferPrepareOutput, ← ht]
  split
  case h_1 => exact ⟨trivial, rfl⟩
  case h_2 path hp =>
    rw [Io.wp_bind]
    apply wp_attempts_rehearse hr _ (fun _ _ _ => ⟨trivial, rfl⟩)
    intro tmp ino fs f
    rw [Io.wp_pure, Io.wp_bind]
    apply Io.wp_mono (hbody tmp ino fs f)
    rintro r e' ⟨_, sound, f⟩ ⟨bs, ⟨rfl, hs⟩, hbs⟩
    cases eq_true hs
    split
    case isTrue =>
      rw [Io.wp_bind]
      exact @wp_cleanup_rehearse _ _ _ _ ⟨path, tmp, ino⟩ _ _ _ fun _ _ => ⟨trivial, rfl⟩
    case isFalse hok =>
      cases hbs (not_not.mp hok)
      rw [Io.wp_bind]
      apply @wp_finalize_rehearse _ _ _ _ _ _ _ hr ⟨path, tmp, ino⟩ _ hp
      · intro fs f
        exact ⟨trivial, rfl⟩
      · intro r isOpen fs f hr
        dsimp only
        rw [if_pos hr, Io.wp_bind]
        exact @wp_cleanup_rehearse _ _ _ _ ⟨path, tmp, ino⟩ _ _ _ fun _ _ => ⟨trivial, rfl⟩

theorem payload_eq {size : UInt64} {got : Bytes} {as : List Arrival} (hl : got.length = size.toNat)
    (hb : bytes c.env.inp = got ++ bytes as) : got = c.payload size := by
  rw [payload, hb, ← hl, List.take_left]

theorem wp_appReceiveFile_rehearse {kind : AppUploadKind} {target : CStr} {size : UInt64} {cap : Nat}
    (hr : c.request = .upload kind target size) (hd : c.env.direct = []) :
    Io.wp (c.contract baseDir).rehearse (appReceiveFile baseDir target size kind cap)
      (fun r _ x => x.sound ∧ c.Ends (.upload r) x.state) c.env ⟨.idle, True, f⟩ := by
  cases kind
  case protocol =>
    apply wp_transferRecv_rehearse hr
    intro tmp ino fs f
    rw [transferRecvSocketFile.body, Io.wp_bind]
    apply wp_netRecvFileBestEffort (e := { c.env with faults := fs }) writes_written ⟨rfl, trivial⟩
    intro r got as ts ds fs' al x hx hgot
    cases r
    case ok => exact ⟨got, hx, fun _ => payload_eq (hgot hd rfl).left (hgot hd rfl).right⟩
    all_goals exact ⟨got, hx, by simp⟩
  case http =>
    rw [appReceiveFile, transferRecvSocketHttpFile]
    apply wp_transferRecv_rehearse hr
    intro tmp ino fs f
    apply wp_transferRecvSocketHttpFileBuffered (e := { c.env with faults := fs }) writes_written
      ⟨rfl, trivial⟩
    intro r got as ts al x hx hgot
    exact ⟨got, hx, fun h => payload_eq (hgot h).left (hgot h).right⟩

-- What a connection has read so far, in a rehearsal.
def Read (fd : Entry) (bs : Bytes) (x : Rehearsal (c.contract baseDir)) (read : Bytes) : Prop :=
  x.state = .reading fd bs ∧ x.sound ∧ read <+: bs

theorem reads_read {fd : Entry} {bs : Bytes} :
    Reads (c.contract baseDir).rehearse fd (@Read c baseDir fd bs) where
  length_le {x read} len hx := by
    have ha : Phase.Allows c baseDir x.state (.pread fd read.length len) := hx.left ▸ .pread
    have ⟨r, s, hn, he⟩ := Contract.rehearse_eq (C := c.contract baseDir) ha
    rw [hx.left] at hn
    rw [he]
    cases hn
    exact List.length_take_le _ _
  step {x read} len hx := by
    have ha : Phase.Allows c baseDir x.state (.pread fd read.length len) := hx.left ▸ .pread
    have ⟨r, s, hn, he⟩ := Contract.rehearse_eq (C := c.contract baseDir) ha
    have ⟨tail, ht⟩ := hx.right.right
    rw [hx.left] at hn
    rw [he]
    cases hn
    apply And.intro rfl
    apply And.intro ⟨hx.right.left, ha⟩
    rw [← ht, List.drop_left]
    exact (List.prefix_append_right_inj read).mpr (List.take_prefix _ _)

theorem wp_appPrepareDownload_rehearse {target : CStr} (hr : c.request = .download target)
    {Q : Except ProtocolResult AppDownload → Env → Rehearsal (c.contract baseDir) → Prop}
    (hok : ∀ i bs info fs f, info.size = bs.length → info.size < 2 ^ 63 →
      Q (.ok ⟨.file i, info⟩) { e with faults := fs } ⟨.reading (.file i) bs, True, f⟩)
    (hmiss : ∀ r fs f, Q (.error r) { e with faults := fs } ⟨.idle, True, f⟩)
    (herr : ∀ r fd bs fs f, Q (.error r) { e with faults := fs } ⟨.reading fd bs, True, f⟩) :
    Io.wp (c.contract baseDir).rehearse (appPrepareDownload baseDir target) Q e ⟨.idle, True, f⟩ := by
  have ht : c.fullPath baseDir = fsJoinRelativePath pathCap baseDir target := by
    simp [fullPath, Connection.target, hr]
  rw [appPrepareDownload, ← ht]
  split
  case h_1 => exact hmiss _ e.faults f
  case h_2 path hp =>
    rw [Io.wp_bind]
    apply Io.wp_fault
    intro fault fs
    rw [Io.wp_bind]
    apply wp_sys_rehearse (.openRead hr hp)
    intro r s' f hn
    cases hn
    case missed => exact hmiss _ fs f
    case opened fd bs =>
      dsimp only
      rw [Io.wp_bind]
      apply Io.wp_fault
      intro fault fs
      rw [Io.wp_bind]
      apply wp_sys_rehearse .fstat
      intro r s' f hn
      cases hn
      case fstat hinfo =>
        split
        case h_1 =>
          rw [Io.wp_bind, Io.wp_discard]
          exact wp_fsClose_rehearse (fun _ => .closeIn) fun _ fs f => herr _ fd bs fs f
        case h_2 info =>
          split
          case isTrue =>
            rw [Io.wp_bind, Io.wp_discard]
            exact wp_fsClose_rehearse (fun _ => .closeIn) fun _ fs f => herr _ fd bs fs f
          case isFalse hk =>
            have ⟨⟨i, hi⟩, hs, hlt⟩ := hinfo info rfl (not_not.mp hk)
            cases hi
            exact hok i bs info fs f hs hlt

theorem wp_downloadFile_rehearse {target : CStr} (hr : c.request = .download target) :
    Io.wp (c.contract baseDir).rehearse (downloadFile baseDir target) (fun done e x => x.sound ∧
      c.Ends (.download (if done then some (e.out.drop c.env.out.length) else none)) x.state)
      c.env ⟨.idle, True, f⟩ := by
  rw [downloadFile, Io.wp_bind]
  apply wp_appPrepareDownload_rehearse hr
  · intro i bs info fs f hs hlt
    rw [Io.wp_bind]
    apply wp_netSendFileBestEffort reads_read (⟨rfl, trivial, List.nil_prefix⟩ : Read (.file i) bs _ [])
    rintro r sent src snd allocs ⟨_, sound, f⟩ hsent -
    have ⟨got, ⟨hx, hsound, hgot⟩, _, hall⟩ := hsent.reads
    cases hx
    cases eq_true hsound
    rw [appDownloadCleanup, Io.wp_bind, Io.wp_discard]
    apply wp_fsClose_rehearse (fun _ => .closeIn)
    intro b fs f
    apply And.intro trivial
    by_cases hok : r = .ok
    case neg => simp [hok, Ends]
    case pos =>
      have hfull : sent.length = info.size.toUInt64.toNat := hsent.full hok
      have hsz : info.size.toUInt64.toNat = info.size := Nat.mod_eq_of_lt (by omega)
      have hsent : sent = bs := by
        rw [hall hok] at hfull ⊢
        exact List.IsPrefix.eq_of_length hgot (by omega)
      simp [hok, Ends, hsent, hr, Connection.target]
  · intro r fs f
    exact ⟨trivial, .inl rfl⟩
  · intro r fd bs fs f
    exact ⟨trivial, .inr ⟨fd, bs, rfl⟩⟩

-- Every connection keeps its contract, whatever the others do.
theorem serve_follows (hd : c.env.direct = []) :
    (c.serve baseDir).Follows (c.contract baseDir) c.Ends .idle := by
  apply Contract.follows_of_wp contract_oracle
  intro f
  rw [serve]
  split
  case h_1 hr =>
    rw [Program.wp_bind]
    exact wp_appReceiveFile_rehearse hr hd
  case h_2 hr =>
    rw [Program.wp_bind]
    exact wp_downloadFile_rehearse hr

end
end Connection
