import HFile.Theorems.Client
import HFile.Theorems.Sizes

open Program (Handler)
open Arrival (bytes delivered)

-- The server's answer to the request for `remote` offers a file: it says READY/OK and announces
-- a name and an acceptable size.
structure Env.Offers (e : Env) (remote : CStr) (raw size : Bytes) : Prop where
  sent  : Transfer.Completes e.snd (13 + (2 + remote.strlen))
  wire  : ResFrame.readyOk.bytes ++ (wireName raw ++ size) <+: delivered e.inp
  pos   : 0 < raw.length
  le    : raw.length ≤ maxFileNameLen
  sized : size.length = 8
  alloc : e.allocs.headD true = true
  small : decodeU64Be size ≤ maxFileSize

theorem Env.Offers.congr {e e' : Env} {remote : CStr} {raw size : Bytes} (h : e.Offers remote raw size)
    (hs : e'.snd = e.snd) (hi : e'.inp = e.inp) (ha : e'.allocs = e.allocs) :
    e'.Offers remote raw size :=
  ⟨hs ▸ h.sent, hi ▸ h.wire, h.pos, h.le, h.sized, ha ▸ h.alloc, h.small⟩

-- There is at most one offer.
theorem Env.Offers.unique {e : Env} {remote : CStr} {raw raw' size size' : Bytes}
    (h : e.Offers remote raw size) (h' : e.Offers remote raw' size') : raw = raw' := by
  rcases List.prefix_or_prefix_of_prefix h.wire h'.wire with hp | hp
  · have hp := (List.prefix_append_right_inj _).mp hp
    exact (wireName_prefix_inj hp h.le h'.le).left
  · have hp := (List.prefix_append_right_inj _).mp hp
    exact (wireName_prefix_inj hp h'.le h.le).left.symm

section

variable {W : Type} {h : Handler Sys W} {e : Env} {w : W}

theorem encodeFileNameOnly_eq {name : CStr} {len : UInt16} (h : protoGetFileNameLen name = some len) :
    encodeFileNameOnly name = .ok (wireName name.chars) := by
  obtain ⟨-, -, rfl⟩ := protoGetFileNameLen_eq_some h
  simp [encodeFileNameOnly, h, wireName, CStr.strlen]

theorem wp_clientGetFile_request {remote : CStr} {len : UInt16}
    (hlen : protoGetFileNameLen remote = some len) {Q : Option (CStr × UInt64) → Env → W → Prop}
    (hok : ∀ raw size as ts al, e.Offers remote raw size →
      bytes e.inp = ResFrame.readyOk.bytes ++ (wireName raw ++ size) ++ bytes as →
      Q (some (.ofBuf raw, decodeU64Be size)) { e with
        inp := as, snd := ts, allocs := al, out := e.out ++ (encodeHeader (requestHeader
          msgTypeGetFile (protoFileNameOnlySize len)) ++ wireName remote.chars) } w)
    (herr : ∀ as sent ts al, (∀ raw size, ¬e.Offers remote raw size) →
      Q none { e with inp := as, snd := ts, allocs := al, out := e.out ++ sent } w) :
    Io.wp h (clientGetFile.request remote len) Q e w := by
  have ⟨_, hle, _⟩ := protoGetFileNameLen_eq_some hlen
  have hl : (wireName remote.chars).length = 2 + remote.strlen := length_wireName _
  rw [clientGetFile.request, encodeFileNameOnly_eq hlen]
  refine Io.wp_bind.mpr (wp_clientSendHeaderPayload_small (by omega) (fun ts hc => ?_) fun sent ts hc => ?_)
  case refine_2 =>
    exact herr _ _ _ e.allocs fun raw size ho => hc (hl ▸ ho.sent)
  case refine_1 =>
    refine Io.wp_bind.mpr (wp_clientRecvCheckedResponse ResFrame.readyOk_valid
      (fun as hb hd => ?_) fun as hno => ?_)
    case refine_2 =>
      exact herr _ _ _ e.allocs fun raw size ho => hno ((List.prefix_append _ _).trans ho.wire)
    case refine_1 =>
      have hb : bytes e.inp = ResFrame.readyOk.bytes ++ bytes as := hb
      have hd : delivered e.inp = ResFrame.readyOk.bytes ++ delivered as := hd
      -- What is offered stands right after the frame.
      have hrest : ∀ {raw size}, e.Offers remote raw size → wireName raw ++ size <+: delivered as :=
        fun ho => (List.prefix_append_right_inj _).mp (hd ▸ ho.wire)
      refine Io.wp_bind.mpr (wp_protoRecvFileTransferPrefix ?_ ?_)
      case refine_2 =>
        intro r as' al hno _
        refine herr _ _ _ _ fun raw size ho => hno ?_
        obtain ⟨tail, ht⟩ := hrest ho
        exact Env.hasPrefix_of_wire ho.pos ho.le ho.sized ho.alloc ht.symm
      case refine_1 =>
        intro raw size as' al hp hraw hsize hb' hd'
        have hprefix : Env.Prefix _ raw size as' := ⟨hp, hraw, hsize, hb', hd'⟩
        have hb' : bytes as = wireName raw ++ size ++ bytes as' := hb'
        have hd' : delivered as = wireName raw ++ size ++ delivered as' := hd'
        dsimp only
        split
        case isTrue hmax =>
          refine herr _ _ _ _ fun raw' size' ho => ?_
          obtain ⟨-, rfl⟩ := hprefix.eq_of_wire ho.le ho.sized (hrest ho)
          exact absurd hmax (UInt64.not_lt.mpr ho.small)
        case isFalse hmax =>
          refine hok raw size as' ts _ ⟨hl ▸ hc, ?_, ?_, ?_, hsize, hp.alloc, UInt64.not_lt.mp hmax⟩ ?_
          · rw [hd, hd', List.prefix_append_right_inj]
            exact List.prefix_append _ _
          · exact hraw ▸ hp.pos
          · exact hraw ▸ hp.le
          · rw [hb, hb', List.append_assoc, List.append_assoc, List.append_assoc]

end

-- The path that is left in `tmp_path` if none of the given attempts to create a temporary file for
-- `finalPath` succeeds: either it does not fit, or the call fails with the outcome in `faults`, or the
-- name is taken. The result is `none` if one of the attempts succeeds.
def pathLeft (fs : Files) (pid : Nat) (finalPath : CStr) :
    CStr → List Nat → List (Option Errno) → Option CStr
  | tmpPath, [], _     => some tmpPath
  | _, k :: ks, faults =>
    let (path, fits) := fsBuildTempPath pathCap finalPath pid k
    if !fits then some path else
    match faults.headD none with
    | some e => if e = .EEXIST then pathLeft fs pid finalPath path ks faults.tail else some path
    | none   => if fs.get path = none then none else pathLeft fs pid finalPath path ks faults.tail

theorem fsBuildTempPath_ne_nil (finalPath : CStr) (pid k : Nat) :
    (fsBuildTempPath pathCap finalPath pid k).1.chars ≠ [] := by
  intro h
  have hlen := congrArg List.length h
  simp [fsBuildTempPath, snprintf, pathCap, CStr.lit, CStr.ofBuf, ascii] at hlen

theorem pathLeft_ne_nil {fs : Files} {pid : Nat} {finalPath tmpPath left : CStr} {ks : List Nat}
    {faults : List (Option Errno)} (h : pathLeft fs pid finalPath tmpPath ks faults = some left)
    (hne : tmpPath.chars ≠ [] ∨ ks ≠ []) : left.chars ≠ [] := by
  induction ks generalizing tmpPath faults
  case nil =>
    cases h
    simpa using hne
  case cons k ks hi =>
    have hbuild := fsBuildTempPath_ne_nil finalPath pid k
    simp only [pathLeft] at h
    generalize fsBuildTempPath pathCap finalPath pid k = tmp at hbuild h
    split at h
    case isTrue => exact Option.some.inj h ▸ hbuild
    case isFalse =>
      split at h
      case h_1 =>
        split at h
        · exact hi h (.inl hbuild)
        · exact Option.some.inj h ▸ hbuild
      case h_2 =>
        split at h
        · cases h
        · exact hi h (.inl hbuild)

section

variable {e : Env} {w : World}

theorem wp_clientOpenTempDownload_attempts {finalPath tmpPath : CStr} {ks : List Nat}
    {Q : Option Nat × CStr → Env → World → Prop}
    (hok : ∀ tmp fs, fs ⊆ e.faults → w.files.get tmp = none → tmp.chars ≠ [] →
      pathLeft w.files e.pid finalPath tmpPath ks e.faults = none →
      Q (some w.files.fresh, tmp) { e with faults := fs } { w with files := w.files.create tmp })
    (herr : ∀ left fs, pathLeft w.files e.pid finalPath tmpPath ks e.faults = some left →
      Q (none, left) { e with faults := fs } w) :
    Io.wp World.handle (clientOpenTempDownload.attempts finalPath tmpPath ks) Q e w := by
  induction ks generalizing e tmpPath
  case nil => exact herr _ _ rfl
  case cons k ks hi =>
    have hnext : ∀ {fs}, fs ⊆ e.faults.tail → fs ⊆ e.faults :=
      fun h => List.Subset.trans h (List.tail_subset e.faults)
    rw [clientOpenTempDownload.attempts, Io.wp_bind, Io.wp_getpid]
    have hne := fsBuildTempPath_ne_nil finalPath e.pid k
    simp only [pathLeft] at hok herr
    generalize fsBuildTempPath pathCap finalPath e.pid k = tmp at hne hok herr ⊢
    obtain ⟨path, fits⟩ := tmp
    cases fits
    case false => exact herr path e.faults rfl
    case true =>
      show Io.wp World.handle (fsOpenTempFile path >>= _) Q e w
      simp only [Bool.not_true, Bool.false_eq_true, if_false] at hok herr
      rw [Io.wp_bind, fsOpenTempFile, Io.wp_bind, Io.wp_fault_iff, Io.wp_sys]
      cases hf : e.faults.headD none
      case some err =>
        simp only [hf] at hok herr
        by_cases he : err = .EEXIST
        case pos =>
          subst he
          exact hi (fun tmp fs hs => hok tmp fs (hnext hs)) herr
        case neg =>
          rw [if_neg he] at hok herr
          simp only [World.handle, he, if_false]
          exact herr path _ rfl
      case none =>
        simp only [hf] at hok herr
        cases hg : w.files.get path
        case some x =>
          simp only [hg, reduceCtorEq, if_false] at hok herr
          simp only [World.handle, hg, if_true]
          exact hi (fun tmp fs hs => hok tmp fs (hnext hs)) herr
        case none =>
          simp only [hg, if_true] at hok herr
          simp only [World.handle, hg]
          exact hok path _ (List.tail_subset e.faults) hg hne trivial

theorem wp_clientGetFile_body {size : UInt64} {tmp out : CStr} (hn : w.files.get tmp = none)
    {Q : Bool × Bool → Env → World → Prop}
    (hok : ∀ c as ts ds fs al files, (e.direct = [] → c.length = size.toNat ∧
        bytes e.inp = c ++ ResFrame.finalOk.bytes ++ bytes as) → w.files.Replaced out c files →
      Q (true, false) { e with inp := as, wr := ts, direct := ds, faults := fs, allocs := al }
        { w with files := files })
    (herr : ∀ isOpen c as ts ds fs al,
      Q (false, isOpen) { e with inp := as, wr := ts, direct := ds, faults := fs, allocs := al }
        { w with files := (w.files.create tmp).setData w.files.fresh c }) :
    Io.wp World.handle (clientGetFile.body w.files.fresh size tmp out) Q e
      { w with files := w.files.create tmp } := by
  rw [clientGetFile.body, Io.wp_bind, clientRecvFileBody, Io.wp_bind]
  refine wp_netRecvFileBestEffort (World.writes_filled _ _) (World.filled_create _ _) ?_
  intro r c as ts ds fs al w' hw hc
  cases hw
  by_cases hr : r = .ok
  case neg =>
    rw [Io.wp_pure, decide_eq_false hr]
    exact herr _ _ _ _ _ _ _
  case pos =>
    rw [Io.wp_pure, decide_eq_true hr]
    refine Io.wp_bind.mpr (wp_fsClose fun b fs' => ?_)
    cases b
    case false => exact herr false c as ts ds fs' al
    case true =>
      refine Io.wp_bind.mpr (wp_clientRecvCheckedResponse ResFrame.finalOk_valid
        (fun as' hfinal _ => ?_) fun as' _ => herr false c as' ts ds fs' al)
      have hfinal : bytes as = ResFrame.finalOk.bytes ++ bytes as' := hfinal
      have htmp : ((w.files.create tmp).setData w.files.fresh c).get tmp =
          some (.file w.files.fresh) := by simp
      rw [fsCommitTempFile]
      refine Io.wp_bind.mpr (Io.wp_bind.mpr (Io.wp_fault fun f fs'' => ?_))
      rw [Io.wp_sys]
      rcases World.handle_rename_cases
        (w := { w with files := (w.files.create tmp).setData w.files.fresh c }) out f htmp with he | he
      · rw [he]
        exact herr false c as' ts ds fs'' al
      · rw [he]
        refine hok c as' ts ds fs'' al _ (fun hd => ?_) (Files.replaced_move hn)
        obtain ⟨hlen, hb⟩ := hc hd hr
        exact ⟨hlen, by rw [hb, hfinal, List.append_assoc]⟩

end

section

variable {e : Env} {w : World}

theorem wp_clientGetFile_finish_done {ino : Nat} {tmpPath : CStr} {Q : Nat → Env → World → Prop}
    (hq : Q 0 e w) : Io.wp World.handle (clientGetFile.finish ino tmpPath true false) Q e w :=
  hq

theorem wp_clientGetFile_finish_failed {ino i : Nat} {tmpPath : CStr} {isOpen : Bool}
    (hne : tmpPath.chars ≠ []) (h : w.files.get tmpPath = some (.file i))
    {Q : Nat → Env → World → Prop}
    (hq : ∀ fs, Q 1 { e with faults := fs } { w with files := w.files.unlink tmpPath }) :
    Io.wp World.handle (clientGetFile.finish ino tmpPath false isOpen) Q e w := by
  have hclean : ∀ fs, Io.wp World.handle (do clientGetFile.cleanUp tmpPath; return 1) Q
      { e with faults := fs } w := by
    intro fs
    rw [Io.wp_bind, clientGetFile.cleanUp, if_pos hne, fsRemoveIgnoreError, Io.wp_sys,
      World.handle_remove_file h]
    exact hq fs
  rw [clientGetFile.finish]
  cases isOpen
  case false => exact hclean e.faults
  case true =>
    refine Io.wp_bind.mpr ?_
    rw [Io.wp_discard]
    exact wp_fsClose fun _ fs => hclean fs

end

-- The request of a download is answered with an offer of a file that is to be saved as `out`.
structure Fetches (opt : ClientOpt) (e : Env) (remote : CStr) (raw size : Bytes) (out : CStr) :
    Prop where
  request   : opt.remotePath = some remote
  valid     : fsValidateFileName remote = true
  named     : protoGetFileNameLen remote ≠ none
  connected : e.faults.headD none = none
  offered   : e.Offers remote raw size
  output    : opt.outputPath = some out ∨
    opt.outputPath = none ∧ fsValidateFileName (.ofBuf raw) = true ∧ out = .ofBuf raw

-- The temporary names for a download are tried in this order.
def pathLeftByClient (fs : Files) (e : Env) (out : CStr) : Option CStr :=
  pathLeft fs e.pid out (.lit "") [0, 1, 2] e.faults.tail

-- Everything that `client_get_file` can do: the code it returns, the bytes it sends and the files
-- that it leaves.
inductive GetRun (opt : ClientOpt) (e : Env) (w : World) : Nat → Bytes → World → Prop
  | refused :
    (∀ remote raw size out, ¬Fetches opt e remote raw size out) →
    GetRun opt e w 1 sent w
  | unopened :
    Fetches opt e remote raw size out → pathLeftByClient w.files e out = some left →
    GetRun opt e w 1 sent (World.handle (.remove left) w).2
  | failed :
    Fetches opt e remote raw size out → pathLeftByClient w.files e out = none →
    w.files.Same files →
    GetRun opt e w 1 sent { w with files := files }
  | saved :
    Fetches opt e remote raw size out →
    sent = encodeHeader (requestHeader msgTypeGetFile
      (protoFileNameOnlySize remote.strlen.toUInt16)) ++ wireName remote.chars →
    (e.direct = [] → content.length = (decodeU64Be size).toNat ∧ ∃ rest,
      bytes e.inp = ResFrame.readyOk.bytes ++ (wireName raw ++ size) ++
        (content ++ ResFrame.finalOk.bytes ++ bytes rest)) →
    pathLeftByClient w.files e out = none → w.files.Replaced out content files →
    GetRun opt e w 0 sent { w with files := files }

theorem wp_clientGetFile (opt : ClientOpt) (e : Env) (w : World) :
    Io.wp World.handle (clientGetFile opt) (fun code e' w' => ∃ sent, e'.out = e.out ++ sent ∧
      GetRun opt e w code sent w') e w := by
  rw [clientGetFile]
  split
  case h_1 hno => exact ⟨[], by simp, .refused fun _ _ _ _ hf => by simp [hf.request] at hno⟩
  case h_2 remote hremote =>
    have heq : ∀ {remote' raw size out}, Fetches opt e remote' raw size out → remote' = remote :=
      fun hf => Option.some.inj (hf.request.symm.trans hremote)
    split
    case isTrue hv =>
      refine ⟨[], by simp, .refused fun _ _ _ _ hf => ?_⟩
      have := hf.valid
      rw [heq hf] at this
      simp [this] at hv
    case isFalse hv =>
      split
      case h_1 hnone =>
        refine ⟨[], by simp, .refused fun _ _ _ _ hf => ?_⟩
        exact hf.named (heq hf ▸ hnone)
      case h_2 len hlen =>
        obtain ⟨_, _, rfl⟩ := protoGetFileNameLen_eq_some hlen
        have hv : fsValidateFileName remote = true := by simpa using hv
        rw [Io.wp_bind, clientConnect, Io.wp_bind, Io.wp_fault_iff]
        cases hconn : e.faults.headD none
        case some =>
          refine ⟨[], by simp, .refused fun _ _ _ _ hf => ?_⟩
          cases hconn.symm.trans hf.connected
        case none =>
          rw [Io.wp_pure]
          refine Io.wp_bind.mpr (wp_clientGetFile_request hlen ?_ ?_)
          case refine_2 =>
            intro as sent ts al hno
            refine ⟨sent, rfl, .refused fun remote' raw size out hf => ?_⟩
            cases heq hf
            exact hno raw size (hf.offered.congr rfl rfl rfl)
          case refine_1 =>
            intro raw size as ts al ho hb
            have ho : e.Offers remote raw size := ho.congr rfl rfl rfl
            dsimp only
            split
            case isTrue hbad =>
              refine ⟨_, rfl, .refused fun remote' raw' size' out hf => ?_⟩
              cases heq hf
              cases ho.unique hf.offered
              rcases hf.output with hout | ⟨hout, hvalid, -⟩
              · simp [hout] at hbad
              · simp [hvalid] at hbad
            case isFalse hgood =>
              have hfetch : Fetches opt e remote raw size (opt.outputPath.getD (.ofBuf raw)) := by
                refine ⟨hremote, hv, by simp [hlen], hconn, ho, ?_⟩
                cases hout : opt.outputPath
                case some => exact .inl rfl
                case none => exact .inr ⟨rfl, by simpa [hout] using hgood, rfl⟩
              rw [clientOpenTempDownload]
              refine Io.wp_bind.mpr (wp_clientOpenTempDownload_attempts ?_ ?_)
              case refine_2 =>
                intro left fs hleft
                have hleft : pathLeftByClient w.files e _ = some left := hleft
                dsimp only
                rw [Io.wp_bind, clientGetFile.cleanUp, if_pos (pathLeft_ne_nil hleft (.inr (by simp))),
                  fsRemoveIgnoreError, Io.wp_sys]
                exact ⟨_, rfl, .unopened hfetch hleft⟩
              case refine_1 =>
                intro tmp fs _ hn hne hleft
                have hleft : pathLeftByClient w.files e _ = none := hleft
                refine Io.wp_bind.mpr (wp_clientGetFile_body hn ?_ ?_)
                case refine_1 =>
                  intro c as' ts' ds fs' al' files hc hrep
                  have hb : bytes e.inp = _ := hb
                  refine wp_clientGetFile_finish_done ⟨_, rfl, .saved hfetch rfl (fun hd => ?_) hleft hrep⟩
                  obtain ⟨hlen, hb'⟩ := hc hd
                  exact ⟨hlen, as', hb.trans (congrArg _ hb')⟩
                case refine_2 =>
                  intro isOpen c as' ts' ds fs' al'
                  have htmp : ((w.files.create tmp).setData w.files.fresh c).get tmp =
                      some (.file w.files.fresh) := by simp
                  refine wp_clientGetFile_finish_failed hne htmp fun fs'' => ?_
                  exact ⟨_, rfl, .failed hfetch hleft (Files.same_unlink c hn)⟩

theorem Fetches.unique {opt : ClientOpt} {e : Env} {remote remote' raw raw' size size' out out' : _}
    (h : Fetches opt e remote raw size out) (h' : Fetches opt e remote' raw' size' out') :
    out = out' := by
  cases Option.some.inj (h.request.symm.trans h'.request)
  cases h.offered.unique h'.offered
  rcases h.output with ho | ⟨ho, -, rfl⟩ <;> rcases h'.output with ho' | ⟨ho', -, rfl⟩
  · exact Option.some.inj (ho.symm.trans ho')
  · cases ho.symm.trans ho'
  · cases ho.symm.trans ho'
  · rfl

-- There is something at `p` that `remove` takes away.
def Files.Removes (fs : Files) (p : CStr) : Prop :=
  ∃ x, fs.get p = some x ∧ fs.removable p x = true

theorem World.handle_remove_not {w : World} {p : CStr} (h : ¬w.files.Removes p) :
    (World.handle (.remove p) w).2 = w := by
  simp only [World.handle]
  split
  case h_1 x hx => rw [if_neg fun hr => h ⟨x, hx, hr⟩]
  case h_2 => rfl

theorem World.handle_remove_get {w : World} {p : CStr} (h : w.files.Removes p) :
    (World.handle (.remove p) w).2.files.get p = none := by
  obtain ⟨x, hx, hr⟩ := h
  simp [World.handle, hx, hr]

-- A failed download leaves the files as they were, unless no temporary file could be created and
-- something else is in the place of the one that was tried last.
theorem clientGetFile_atomic_iff (opt : ClientOpt) (e : Env) (w : World) :
    ((Io.exec World.handle (clientGetFile opt) e w).1.1 ≠ 0 →
      w.files.Same (Io.exec World.handle (clientGetFile opt) e w).2.files) ↔
    ¬∃ remote raw size out left, Fetches opt e remote raw size out ∧
      pathLeftByClient w.files e out = some left ∧ w.files.Removes left := by
  obtain ⟨sent, -, hrun⟩ := Io.wp_iff_exec.mp (wp_clientGetFile opt e w)
  generalize (Io.exec World.handle (clientGetFile opt) e w).1.1 = code at hrun ⊢
  generalize (Io.exec World.handle (clientGetFile opt) e w).2 = w' at hrun ⊢
  cases hrun
  case refused hno =>
    refine iff_of_true (fun _ => .refl _) ?_
    rintro ⟨remote, raw, size, out, left, hf, -⟩
    exact hno remote raw size out hf
  case unopened remote raw size out left hf hleft =>
    by_cases hr : w.files.Removes left
    case pos =>
      refine iff_of_false (fun h => ?_) fun h => h ⟨remote, raw, size, out, left, hf, hleft, hr⟩
      obtain ⟨x, hx, _⟩ := hr
      have hget := congrFun (h (by simp)).get left
      rw [World.handle_remove_get ⟨x, hx, ‹_›⟩, hx] at hget
      cases hget
    case neg =>
      rw [World.handle_remove_not hr]
      refine iff_of_true (fun _ => .refl _) ?_
      rintro ⟨remote', raw', size', out', left', hf', hleft', hr'⟩
      cases hf.unique hf'
      cases hleft.symm.trans hleft'
      exact hr hr'
  case failed remote raw size out files hf hleft hsame =>
    refine iff_of_true (fun _ => hsame) ?_
    rintro ⟨remote', raw', size', out', left', hf', hleft', -⟩
    cases hf.unique hf'
    cases hleft.symm.trans hleft'
  case saved remote raw size out content files hf _ hleft _ _ =>
    refine iff_of_true (fun h => absurd rfl h) ?_
    rintro ⟨remote', raw', size', out', left', hf', hleft', -⟩
    cases hf.unique hf'
    cases hleft.symm.trans hleft'

-- A client of the process 1 that downloads the file "f".
def fetchOfF : ClientOpt where
  path       := .lit ""
  remotePath := some (.lit "f")
  outputPath := none
  message    := .lit ""
  msgType    := msgTypeGetFile

-- All of the temporary names for "f" are taken by files of the user.
def takenNames : World :=
  { World.empty with
    files := ((Files.empty.create (.lit "f.tmp.1.0")).create (.lit "f.tmp.1.1")).create
      (.lit "f.tmp.1.2") }

theorem failed_fetch_removes_a_file :
    (Io.exec World.handle (clientGetFile fetchOfF)
      (.calm 1 (Arrival.push (ResFrame.readyOk.bytes ++ filePrefix (.lit "f") 0) [])) takenNames).1.1 = 1 ∧
    takenNames.files.view (.lit "f.tmp.1.2") = some (.file []) ∧
    (Io.exec World.handle (clientGetFile fetchOfF)
      (.calm 1 (Arrival.push (ResFrame.readyOk.bytes ++ filePrefix (.lit "f") 0) []))
      takenNames).2.files.view (.lit "f.tmp.1.2") = none := by
  decide +kernel
