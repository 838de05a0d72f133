import HFile.Theorems.Touches
import HFile.Theorems.Transfer

open Arrival (bytes)

-- The record of the calls of a process and of their answers.
abbrev SysLog := List ((o : SysOp) × o.Res)

-- A file has been renamed to `path`.
def Renamed (path : CStr) (l : SysLog) : Prop :=
  ∃ old fault, ⟨.rename old path fault, true⟩ ∈ l

section

variable {W : Type} {h : Program.Handler Sys W} {D : CStr → Prop} {e : Env} {w : W} {l : SysLog}

-- The calls that are recorded are the ones that a program can make.
theorem Program.Calls.traced {p : Program Sys α} {P : SysOp → Prop} {Q : α → Prop}
    (hc : p.Calls SysOp.Answers P Q) (ha : ∀ o w, SysOp.Answers o (h o w).1) :
    p.wp h.traced (fun a x => Q a ∧ ∃ l', x.2 = l ++ l' ∧ ∀ c ∈ l', P c.1) (w, l) := by
  induction p generalizing w l
  case ret => exact ⟨hc, [], by simp, by simp⟩
  case call o k hi =>
    refine Program.wp_call.mpr (Program.wp_mono (hi _ (hc.right _ (ha o w))) ?_)
    intro a x hx
    obtain ⟨hq, l', hl, hp⟩ := hx
    refine ⟨hq, _ :: l', by rw [hl, List.append_assoc]; rfl, ?_⟩
    exact List.forall_mem_cons.mpr ⟨hc.left, hp⟩

theorem not_renamed_append {path : CStr} {l' : SysLog} (hl : ¬Renamed path l)
    (hc : ∀ c ∈ l', SysOp.Confined (· ≠ path) c.1) : ¬Renamed path (l ++ l') := by
  intro hr
  obtain ⟨old, f, hm⟩ := hr
  cases List.mem_append.mp hm
  case inl hm => exact hl ⟨old, f, hm⟩
  case inr hm => exact hc _ hm path (by simp [SysOp.paths]) rfl

theorem renamed_append_iff {path old : CStr} {fault : Option Errno} {b : Bool} (hl : ¬Renamed path l) :
    Renamed path (l ++ [⟨.rename old path fault, b⟩]) ↔ b = true := by
  constructor
  · intro hr
    obtain ⟨old', f, hm⟩ := hr
    cases List.mem_append.mp hm
    case inl hm => exact absurd ⟨old', f, hm⟩ hl
    case inr hm =>
      cases List.mem_singleton.mp hm
      rfl
  · intro hb
    subst hb
    exact ⟨old, fault, by simp⟩

-- A program that does not use a path renames nothing to it.
theorem Io.Touches.not_renamed {m : Io α} {path : CStr} {Q : α → Prop}
    (hm : m.Touches (· ≠ path) Q) (ha : ∀ o w, SysOp.Answers o (h o w).1) (hl : ¬Renamed path l) :
    Io.wp h.traced m (fun a _ x => Q a ∧ ¬Renamed path x.2) e (w, l) := by
  apply Program.wp_mono ((hm.calls e).traced ha)
  intro a x hx
  obtain ⟨hq, l', he, hc⟩ := hx
  exact ⟨hq, he ▸ not_renamed_append hl hc⟩

theorem fsBuildTempPath_ne {cap : Nat} {path : CStr} {pid attempt : Nat}
    (h : (fsBuildTempPath cap path pid attempt).2) : (fsBuildTempPath cap path pid attempt).1 ≠ path := by
  rw [fsBuildTempPath_eq] at h ⊢
  rw [snprintf_fits h]
  intro he
  have hl := congrArg CStr.strlen he
  have ht : (CStr.lit ".tmp.").strlen = 5 := rfl
  simp only [CStr.strlen_append, tempSuffix, ht] at hl
  omega

theorem wp_transferFinalizeOutput_renamed {out : TransferOutput} {cap : Nat}
    (ha : ∀ o w, SysOp.Answers o (h o w).1) (hl : ¬Renamed out.fullPath l) :
    Io.wp h.traced (transferFinalizeOutput out cap)
      (fun r _ x => r.1 = .ok ↔ Renamed out.fullPath x.2) e (w, l) := by
  have hclose : (fsClose (.file out.ino)).Stays (· ≠ out.fullPath) := stays_fsClose _
  rw [transferFinalizeOutput]
  split
  case isTrue => simp [hl]
  case isFalse =>
    rw [Io.wp_bind]
    refine Io.wp_mono (hclose.not_renamed ha hl) ?_
    rintro b e ⟨w, l⟩ ⟨-, hl⟩
    cases b
    case false => simp [hl]
    case true  =>
      refine Io.wp_bind.mpr ?_
      rw [fsCommitTempFile, Io.wp_bind]
      apply Io.wp_fault
      intro f fs
      rw [Io.wp_sys]
      have hr : Renamed out.fullPath (h.traced (.rename out.tmpPath out.fullPath f) (w, l)).2.2 ↔
          (h.traced (.rename out.tmpPath out.fullPath f) (w, l)).1 = true := renamed_append_iff hl
      split
      case isTrue hb  => exact iff_of_false (by simp) fun hx => by simp [hr.mp hx] at hb
      case isFalse hb => exact iff_of_true rfl (hr.mpr (by simpa using hb))

-- A transfer succeeds exactly if it renames a file to its target.
theorem wp_transferRecv_renamed {body : Nat → Io ProtocolResult} {baseDir fileName : CStr} {cap : Nat}
    (ha : ∀ o w, SysOp.Answers o (h o w).1) (hb : ∀ ino path, (body ino).Stays (· ≠ path)) :
    Io.wp h.traced (transferRecv body baseDir fileName cap) (fun r _ x =>
      (∃ path, r = .ok path) ↔
      ∃ path, fsJoinRelativePath pathCap baseDir fileName = some path ∧ Renamed path x.2) e (w, []) := by
  rw [transferRecv, Io.wp_bind, transferPrepareOutput]
  split
  case h_1 hj => simp [hj]
  case h_2 path hj =>
    have hfailed : ∀ (r : ProtocolResult) (e : Env) (x : W × SysLog), ¬Renamed path x.2 →
        ((∃ p : CStr, Except.error r = Except.ok p) ↔
          ∃ p, fsJoinRelativePath pathCap baseDir fileName = some p ∧ Renamed p x.2) := by
      intro r e x hx
      simp [hj, hx]
    have hattempts := touches_attempts (D := (· ≠ path)) [0, 1, 2] fsBuildTempPath_ne
    rw [Io.wp_bind]
    refine Io.wp_mono (hattempts.not_renamed ha (by simp [Renamed])) ?_
    rintro r e ⟨w, l⟩ ⟨hr, hl⟩
    cases r
    case error => exact hfailed _ e _ hl
    case ok x =>
      obtain ⟨tmp, ino⟩ := x
      have htmp := hr _ rfl
      have hcleanup : ∀ isOpen, (transferCleanup ⟨path, tmp, ino⟩ isOpen).Stays (· ≠ path) :=
        stays_transferCleanup htmp
      rw [Io.wp_pure, Io.wp_bind]
      refine Io.wp_mono ((hb ino path).not_renamed ha hl) ?_
      rintro r e ⟨w, l⟩ ⟨-, hl⟩
      split
      case isTrue =>
        rw [Io.wp_bind]
        refine Io.wp_mono ((hcleanup true).not_renamed ha hl) ?_
        rintro _ e x ⟨-, hl⟩
        exact hfailed _ e x hl
      case isFalse =>
        rw [Io.wp_bind]
        refine Io.wp_mono (wp_transferFinalizeOutput_renamed ha hl) ?_
        rintro ⟨r, isOpen⟩ e ⟨w, l⟩ hr
        dsimp only
        split
        case isTrue hne =>
          rw [Io.wp_bind]
          refine Io.wp_mono ((hcleanup isOpen).not_renamed ha (mt hr.mpr hne)) ?_
          rintro _ e x ⟨-, hl⟩
          exact hfailed _ e x hl
        case isFalse hok => simp [hj, hr.mp (not_not.mp hok)]

end

theorem World.answers (o : SysOp) (w : World) : o.Answers (World.handle o w).1 := by
  cases o
  case opendir p fault =>
    cases fault
    case some => trivial
    case none =>
      simp only [World.handle]
      split
      case h_1 =>
        intro name hn
        obtain ⟨q, -, hq⟩ := List.mem_filterMap.mp hn
        simp only [Files.childName, Option.ite_none_right_eq_some, Option.some.injEq] at hq
        obtain ⟨hq, rfl⟩ := hq
        exact hq.right.right
      case h_2 => trivial
  all_goals trivial

-- What an upload does: it either renames a file that holds the first `size` bytes of the stream to
-- its target, which leaves all other paths as they were, or it leaves all paths as they were.
structure AllOrNothing (baseDir fileName : CStr) (size : UInt64) (e : Env) (w : World)
    (r : Except ProtocolResult CStr) (x : World × SysLog) : Prop where
  renamed : (∃ path, r = .ok path) ↔
    ∃ path, fsJoinRelativePath pathCap baseDir fileName = some path ∧ Renamed path x.2
  stored  : ∀ path, r = .ok path → fsJoinRelativePath pathCap baseDir fileName = some path ∧
    size.toNat ≤ (bytes e.inp).length ∧
    x.1.files.view path = some (.file ((bytes e.inp).take size.toNat)) ∧
    ∀ q ≠ path, x.1.files.view q = w.files.view q
  kept    : ∀ err, r = .error err → x.1.files.view = w.files.view

section

variable {e : Env} {w : World} {baseDir fileName : CStr} {size : UInt64} {path : CStr}

theorem AllOrNothing.ok {x : World × SysLog} {c : Bytes} {as : List Arrival}
    (hr : (∃ p : CStr, Except.ok (ε := ProtocolResult) path = .ok p) ↔
      ∃ p, fsJoinRelativePath pathCap baseDir fileName = some p ∧ Renamed p x.2)
    (hj : fsJoinRelativePath pathCap baseDir fileName = some path)
    (hc : c.length = size.toNat ∧ bytes e.inp = c ++ bytes as)
    (hf : w.files.Replaced path c x.1.files) :
    AllOrNothing baseDir fileName size e w (.ok path) x where
  renamed := hr
  stored p hp := by
    cases hp
    have htake : (bytes e.inp).take size.toNat = c := by
      rw [hc.right, ← hc.left, List.take_left]
    refine ⟨hj, ?_, by rw [htake, hf.view_self], fun q hq => hf.view_ne hq⟩
    rw [hc.right, ← hc.left, List.length_append]
    omega
  kept _ h := by cases h

theorem AllOrNothing.error {x : World × SysLog} {err : ProtocolResult}
    (hr : (∃ p : CStr, Except.error err = .ok p) ↔
      ∃ p, fsJoinRelativePath pathCap baseDir fileName = some p ∧ Renamed p x.2)
    (hf : w.files.Same x.1.files) : AllOrNothing baseDir fileName size e w (.error err) x where
  renamed    := hr
  stored _ h := by cases h
  kept _ _   := hf.view

theorem stays_transferRecvSocketFile_body {D : CStr → Prop} (ino : Nat) :
    (transferRecvSocketFile.body size ino).Stays D := by
  apply (stays_netRecvFileBestEffort ino size).then
  intro r
  split <;> exact Io.stays_pure _

end

-- Both functions keep or replace the target as a whole, wherever the stream ends and whatever fails.
theorem upload_all_or_nothing (baseDir fileName : CStr) (size : UInt64) (cap : Nat) (e : Env) (w : World)
    (hd : e.direct = []) :
    Io.wp (Program.Handler.traced World.handle) (transferRecvSocketFile baseDir fileName size cap)
      (fun r _ x => AllOrNothing baseDir fileName size e w r x) e (w, []) ∧
    Io.wp (Program.Handler.traced World.handle) (transferRecvSocketHttpFile baseDir fileName size cap)
      (fun r _ x => AllOrNothing baseDir fileName size e w r x) e (w, []) := by
  constructor
  · apply Io.wp_imp (wp_transferRecv_renamed World.answers fun _ _ => stays_transferRecvSocketFile_body _)
    apply Io.wp_traced
    apply wp_transferRecvSocketFile
    · intro path c as ts ds fs al files hj hc hf l hr
      exact .ok hr hj (hc hd) hf
    · intro r as ts ds fs al files _ hf l hr
      exact .error hr hf
  · apply Io.wp_imp (wp_transferRecv_renamed World.answers fun _ _ =>
      stays_transferRecvSocketHttpFileBuffered _ _)
    apply Io.wp_traced
    apply wp_transferRecvSocketHttpFile
    · intro path c as ts ds fs al files hj hc hf l hr
      exact .ok hr hj hc hf
    · intro r as ts ds fs al files _ hf l hr
      exact .error hr hf

theorem upload_of_two_bytes_all_or_nothing :
    Io.wp (Program.Handler.traced World.handle) (transferRecvSocketFile (.lit "d") (.lit "f") 2 pathCap)
      (fun r _ x => AllOrNothing (.lit "d") (.lit "f") 2 (.calm 1 (Arrival.push [104, 105, 33] [])) .empty r x)
      (.calm 1 (Arrival.push [104, 105, 33] [])) (.empty, []) ∧
    Io.wp (Program.Handler.traced World.handle) (transferRecvSocketHttpFile (.lit "d") (.lit "f") 2 pathCap)
      (fun r _ x => AllOrNothing (.lit "d") (.lit "f") 2 (.calm 1 (Arrival.push [104, 105, 33] [])) .empty r x)
      (.calm 1 (Arrival.push [104, 105, 33] [])) (.empty, []) :=
  upload_all_or_nothing _ _ _ _ _ _ rfl
