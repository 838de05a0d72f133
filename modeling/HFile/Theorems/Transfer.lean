import HFile.Theorems.Files
import HFile.Theorems.FileBody
import HFile.Source.TransferIo

open Arrival (bytes)

section

variable {e : Env} {w : World}

theorem wp_fsClose {fd : Entry} {Q : Bool → Env → World → Prop}
    (hq : ∀ b fs, Q b { e with faults := fs } w) : Io.wp World.handle (fsClose fd) Q e w := by
  rw [fsClose, Io.wp_bind]
  exact Io.wp_fault fun f fs => hq _ fs

theorem wp_transferPrepareOutput_attempts {fullPath : CStr} {ks : List Nat}
    {Q : Except ProtocolResult (CStr × Nat) → Env → World → Prop}
    (hok : ∀ tmp fs, w.files.get tmp = none →
      Q (.ok (tmp, w.files.fresh)) { e with faults := fs } { w with files := w.files.create tmp })
    (herr : ∀ r fs, r ≠ .ok → Q (.error r) { e with faults := fs } w) :
    Io.wp World.handle (transferPrepareOutput.attempts fullPath ks) Q e w := by
  induction ks generalizing e
  case nil => exact herr _ _ (by simp)
  case cons k ks hi =>
    rw [transferPrepareOutput.attempts, Io.wp_bind, Io.wp_getpid]
    dsimp only
    split
    case isTrue => exact herr _ e.faults (by simp)
    case isFalse =>
      rw [Io.wp_bind, fsOpenTempFile, Io.wp_bind]
      refine Io.wp_fault fun f fs => ?_
      rw [Io.wp_sys]
      rcases World.handle_openExcl_cases (fsBuildTempPath pathCap fullPath e.pid k).1 f w
        with ⟨err, he, -⟩ | ⟨-, hn, he⟩
      · rw [he]
        dsimp only
        split
        · exact hi (fun tmp fs => hok tmp fs) (fun r fs => herr r fs)
        · exact herr _ _ (by simp)
      · rw [he]
        exact hok _ _ hn

-- Removes a temporary file that is still in place.
theorem wp_transferCleanup {out : TransferOutput} {isOpen : Bool} {i : Nat}
    (h : w.files.get out.tmpPath = some (.file i)) {Q : Unit → Env → World → Prop}
    (hq : ∀ fs, Q () { e with faults := fs } { w with files := w.files.unlink out.tmpPath }) :
    Io.wp World.handle (transferCleanup out isOpen) Q e w := by
  have hr : ∀ fs, Io.wp World.handle (fsRemoveIgnoreError out.tmpPath) Q { e with faults := fs } w := by
    intro fs
    rw [fsRemoveIgnoreError, Io.wp_sys, World.handle_remove_file h]
    exact hq fs
  rw [transferCleanup]
  split
  case isTrue =>
    rw [Io.wp_bind, Io.wp_discard]
    exact wp_fsClose fun _ fs => hr fs
  case isFalse => exact hr e.faults

theorem wp_transferFinalizeOutput {out : TransferOutput} {cap i : Nat}
    (h : w.files.get out.tmpPath = some (.file i)) {Q : ProtocolResult × Bool → Env → World → Prop}
    (hok : ∀ fs, Q (.ok, false) { e with faults := fs }
      { w with files := w.files.move out.tmpPath out.fullPath i h })
    (herr : ∀ r isOpen fs, r ≠ .ok → Q (r, isOpen) { e with faults := fs } w) :
    Io.wp World.handle (transferFinalizeOutput out cap) Q e w := by
  rw [transferFinalizeOutput]
  split
  case isTrue => exact herr .errInvalidArgument true e.faults (by simp)
  case isFalse =>
    rw [Io.wp_bind]
    refine wp_fsClose fun b fs => ?_
    cases b
    case false => exact herr .errIo false fs (by simp)
    case true =>
      refine Io.wp_bind.mpr ?_
      rw [fsCommitTempFile, Io.wp_bind]
      refine Io.wp_fault fun f fs' => ?_
      rw [Io.wp_sys]
      rcases World.handle_rename_cases out.fullPath f h with he | he
      · rw [he]
        exact herr .errIo false fs' (by simp)
      · rw [he]
        exact hok fs'

-- A file is received either completely, and then exactly its target is replaced, or no name changes.
theorem wp_transferRecv {body : Nat → Io ProtocolResult} {baseDir fileName : CStr} {cap : Nat}
    {P : Bytes → List Arrival → Prop} {Q : Except ProtocolResult CStr → Env → World → Prop}
    (hbody : ∀ tmp fs, Io.wp World.handle (body w.files.fresh)
      (fun r e' w' => ∃ c as ts ds fs al,
        e' = { e with inp := as, wr := ts, direct := ds, faults := fs, allocs := al } ∧
        w' = { w with files := (w.files.create tmp).setData w.files.fresh c } ∧ (r = .ok → P c as))
      { e with faults := fs } { w with files := w.files.create tmp })
    (hok : ∀ path c as ts ds fs al files, fsJoinRelativePath pathCap baseDir fileName = some path →
      P c as → w.files.Replaced path c files →
      Q (.ok path) { e with inp := as, wr := ts, direct := ds, faults := fs, allocs := al }
        { w with files := files })
    (herr : ∀ r as ts ds fs al files, r ≠ .ok → w.files.Same files →
      Q (.error r) { e with inp := as, wr := ts, direct := ds, faults := fs, allocs := al }
        { w with files := files }) :
    Io.wp World.handle (transferRecv body baseDir fileName cap) Q e w := by
  rw [transferRecv, Io.wp_bind, transferPrepareOutput]
  split
  case h_1 => exact herr _ _ _ _ e.faults _ _ (by simp) (.refl _)
  case h_2 path hp =>
    rw [Io.wp_bind]
    refine wp_transferPrepareOutput_attempts ?_ fun r fs hr => herr _ _ _ _ _ _ _ hr (.refl _)
    intro tmp fs hn
    rw [Io.wp_pure, Io.wp_bind]
    refine Io.wp_mono (hbody tmp fs) ?_
    rintro r _ _ ⟨c, as, ts, ds, fs', al, rfl, rfl, hP⟩
    have htmp : ((w.files.create tmp).setData w.files.fresh c).get tmp =
        some (.file w.files.fresh) := by simp
    have hsame := Files.same_unlink c hn
    split
    case isTrue hr =>
      rw [Io.wp_bind]
      exact wp_transferCleanup htmp fun fs => herr r _ _ _ _ _ _ hr hsame
    case isFalse hr =>
      have hP := hP (not_not.mp hr)
      rw [Io.wp_bind]
      refine wp_transferFinalizeOutput htmp ?_ ?_
      · intro fs
        exact hok _ _ _ _ _ _ _ _ hp hP (Files.replaced_move hn)
      · intro r isOpen fs hr
        dsimp only
        rw [if_pos hr, Io.wp_bind]
        exact wp_transferCleanup htmp fun fs => herr r _ _ _ _ _ _ hr hsame

-- The world `w` after the bytes `bs` have been written to the file `i`.
def World.Filled (w : World) (i : Nat) (w' : World) (bs : Bytes) : Prop :=
  w' = { w with files := w.files.setData i bs }

theorem World.filled_create (w : World) (p : CStr) :
    Filled { w with files := w.files.create p } w.files.fresh
      { w with files := w.files.create p } [] := by
  simp [Filled]

theorem World.writes_filled (w : World) (i : Nat) : Writes World.handle i (w.Filled i) where
  le chunk _ := Files.room_le ..
  step chunk h := by
    subst h
    simp [World.handle, Filled]
  seek off chunk h := by
    subst h
    exact ⟨_, by simp only [World.handle, Filled, Files.setData_setData]; rfl⟩

theorem wp_transferRecvSocketFile {baseDir fileName : CStr} {size : UInt64} {cap : Nat}
    {Q : Except ProtocolResult CStr → Env → World → Prop}
    (hok : ∀ path c as ts ds fs al files, fsJoinRelativePath pathCap baseDir fileName = some path →
      (e.direct = [] → c.length = size.toNat ∧ bytes e.inp = c ++ bytes as) →
      w.files.Replaced path c files →
      Q (.ok path) { e with inp := as, wr := ts, direct := ds, faults := fs, allocs := al }
        { w with files := files })
    (herr : ∀ r as ts ds fs al files, r ≠ .ok → w.files.Same files →
      Q (.error r) { e with inp := as, wr := ts, direct := ds, faults := fs, allocs := al }
        { w with files := files }) :
    Io.wp World.handle (transferRecvSocketFile baseDir fileName size cap) Q e w := by
  refine wp_transferRecv (P := fun c as => e.direct = [] → c.length = size.toNat ∧
    bytes e.inp = c ++ bytes as) ?_ hok herr
  intro tmp fs
  rw [transferRecvSocketFile.body, Io.wp_bind]
  refine wp_netRecvFileBestEffort (e := { e with faults := fs }) (World.writes_filled _ _)
    (World.filled_create _ _) ?_
  intro r c as ts ds fs' al w' hw hc
  cases hw
  cases r
  case ok => exact ⟨c, as, ts, ds, fs', al, rfl, rfl, fun _ hd => hc hd rfl⟩
  all_goals exact ⟨c, as, ts, ds, fs', al, rfl, rfl, by simp⟩

theorem wp_transferRecvSocketHttpFileBuffered {W : Type} {h : Program.Handler Sys W}
    {R : W → Bytes → Prop} {ino : Nat} {w : W} (hr : Writes h ino R) (hw : R w []) {size : UInt64}
    {Q : ProtocolResult → Env → W → Prop}
    (hq : ∀ r got as ts al w', R w' got →
      (r = .ok → got.length = size.toNat ∧ bytes e.inp = got ++ bytes as) →
      Q r { e with inp := as, wr := ts, allocs := al } w') :
    Io.wp h (transferRecvSocketHttpFileBuffered ino size) Q e w := by
  have hloop := fun cap => netRecvFileBuffered.loop_spec hr hw cap e.inp e.wr size.toNat
  rw [transferRecvSocketHttpFileBuffered]
  dsimp only
  split
  case isTrue =>
    rw [Io.wp_bind]
    apply Io.wp_malloc
    intro b allocs
    cases b
    case false => exact hq _ _ _ _ _ _ hw (by simp)
    case true  =>
      refine Io.wp_bind.mpr (Program.wp_bind.mpr (Program.wp_mono (hloop _) ?_))
      intro x w' hs
      obtain ⟨got, hw', ho⟩ := hs.writes
      rw [Program.pure_eq, Program.wp_ret]
      dsimp only
      split
      case h_1 hx => exact hq _ _ _ _ _ _ hw' fun _ => ho hx
      all_goals exact hq _ _ _ _ _ _ hw' (by simp)
  case isFalse =>
    refine Io.wp_bind.mpr (Program.wp_bind.mpr (Program.wp_mono (hloop _) ?_))
    intro x w' hs
    obtain ⟨got, hw', ho⟩ := hs.writes
    rw [Program.pure_eq, Program.wp_ret]
    dsimp only
    split
    case h_1 hx => exact hq _ _ _ _ _ _ hw' fun _ => ho hx
    all_goals exact hq _ _ _ _ _ _ hw' (by simp)

theorem wp_transferRecvSocketHttpFile {baseDir fileName : CStr} {size : UInt64} {cap : Nat}
    {Q : Except ProtocolResult CStr → Env → World → Prop}
    (hok : ∀ path c as ts ds fs al files, fsJoinRelativePath pathCap baseDir fileName = some path →
      c.length = size.toNat ∧ bytes e.inp = c ++ bytes as → w.files.Replaced path c files →
      Q (.ok path) { e with inp := as, wr := ts, direct := ds, faults := fs, allocs := al }
        { w with files := files })
    (herr : ∀ r as ts ds fs al files, r ≠ .ok → w.files.Same files →
      Q (.error r) { e with inp := as, wr := ts, direct := ds, faults := fs, allocs := al }
        { w with files := files }) :
    Io.wp World.handle (transferRecvSocketHttpFile baseDir fileName size cap) Q e w := by
  apply wp_transferRecv (P := fun c as => c.length = size.toNat ∧ bytes e.inp = c ++ bytes as) _ hok herr
  intro tmp fs
  apply wp_transferRecvSocketHttpFileBuffered (e := { e with faults := fs }) (World.writes_filled _ _)
    (World.filled_create _ _)
  intro r c as ts al w' hw hc
  cases hw
  exact ⟨c, as, ts, e.direct, fs, al, rfl, rfl, hc⟩

end
