import HFile.Theorems.AllOrNothing
import HFile.Theorems.HttpUpload
import HFile.Theorems.LinkedFiles

-- Calls that open, list, create or replace something.
def SysOp.Succeeds : (o : SysOp) → o.Res → Prop
  | .openExcl _ _, .ok _   => True
  | .openRead _ _ _, .ok _ => True
  | .opendir _ _, some _   => True
  | .rename _ _ _, true    => True
  | _, _                   => False

-- Nothing has been opened, listed, created or replaced.
def Untouched (l : SysLog) : Prop :=
  ∀ c ∈ l, ¬c.1.Succeeds c.2

-- A request is refused: nothing is opened, listed, created or replaced, and the reply is an error or a
-- part of one, if the peer is gone.
def Refused (m : Io Bool) (e : Env) (w : LinkedWorld) : Prop :=
  Io.wp LinkedWorld.handle.traced m (fun _ e' x => Untouched x.2 ∧
    ∃ status reason body sent, 400 ≤ status ∧ e'.out = e.out ++ sent ∧
      sent <+: httpResponse status reason jsonContentType body) e (w, [])

namespace LinkedFiles

-- One of the components `names` below the base directory is a symbolic link.
def LinkBelow (t : LinkedFiles) (base : CStr) (names : List Bytes) : Prop :=
  ∃ n b, t.realPath base = some (n, b) ∧ t.MeetsLink b names

-- The components of a path.
def components (path : CStr) : List Bytes :=
  (segments path).filter (· ≠ [])

-- No symbolic link below the base directory is followed for `path`.
structure NotFollowed (t : LinkedFiles) (base path : CStr) : Prop where
  get  : t.LinkBelow base (components path) → ∀ port board e,
    Refused (httpSendFile ⟨base, port⟩ path) e ⟨t, board⟩
  list : t.LinkBelow base (components path) → ∀ port board e req,
    httpHandleFilesList.relativeDir req = some path → Refused (httpHandleFilesList ⟨base, port⟩ req) e ⟨t, board⟩
  put  : t.LinkBelow base (components path).dropLast → ∀ port board e req,
    Refused (httpHandleFilePut ⟨base, port⟩ req path) e ⟨t, board⟩

-- A link leads to the directory of `path`, in which there is something to open or room for a temporary
-- file.
structure Bypass (t : LinkedFiles) (base path full : CStr) (dir : List CStr) : Prop where
  joined : fsJoinRelativePath pathCap base path = some full
  link   : t.LinkBelow base (segments path).dropLast
  dirOf  : t.dirOf full = some dir
  usable : (∃ x, t.lookup full = some (.entry x)) ∨
    ∃ pid, ∃ k < 3, (fsBuildTempPath pathCap full pid k).2 = true ∧
      t.lookup (fsBuildTempPath pathCap full pid k).1 = none

end LinkedFiles

section

variable {t : LinkedFiles} {board : Board} {e : Env} {l : SysLog} {base path full : CStr}

theorem Untouched.nil : Untouched [] :=
  List.forall_mem_nil _

theorem Untouched.concat {o : SysOp} {r : o.Res} (hl : Untouched l) (hr : ¬o.Succeeds r) :
    Untouched (l ++ [⟨o, r⟩]) := by
  rw [Untouched, List.forall_mem_append, List.forall_mem_singleton]
  exact ⟨hl, hr⟩

-- The record of a run only grows.
theorem Io.wp_traced_log {W : Type} {h : Program.Handler Sys W} {w : W} {m : Io α} :
    Io.wp h.traced m (fun _ _ x => l <+: x.2) e (w, l) := by
  suffices hp : ∀ (p : Program Sys (α × Env)) w l, l <+: (p.run h.traced (w, l)).2.2 from hp _ w l
  intro p
  induction p
  case ret => exact fun _ _ => List.prefix_refl _
  case call o k hi => exact fun w l => (List.prefix_append _ _).trans (hi _ _ _)

-- What has succeeded has done so, however a request goes on.
theorem not_untouched_bind {W : Type} {h : Program.Handler Sys W} {w : W} {m : Io α} {f : α → Io β}
    (hm : Io.wp h.traced m (fun _ _ x => ¬Untouched x.2) e (w, l)) :
    Io.wp h.traced (m >>= f) (fun _ _ x => ¬Untouched x.2) e (w, l) := by
  rw [Io.wp_bind]
  apply Io.wp_mono hm
  rintro a e' x hx
  apply Io.wp_mono Io.wp_traced_log
  exact fun _ _ x' hl hx' => hx fun c hc => hx' c (hl.subset hc)

theorem Io.wp_sys_traced {W : Type} {h : Program.Handler Sys W} {w : W} {o : SysOp}
    {Q : o.Res → Env → W × SysLog → Prop} : Io.wp h.traced (Io.sys o) Q e (w, l) ↔
      Q (h o w).1 e ((h o w).2, l ++ [⟨o, (h o w).1⟩]) :=
  Iff.rfl

theorem not_refused {m : Io Bool} {w : LinkedWorld}
    (hm : Io.wp LinkedWorld.handle.traced m (fun _ _ x => ¬Untouched x.2) e (w, [])) : ¬Refused m e w :=
  fun hr => hm hr.left

section Refuse

variable {W : Type} {h : Program.Handler Sys W} {w : W} {out : Bytes}

-- An error reply, when nothing has been touched.
theorem wp_refuse {status : Nat} {reason message : CStr} (hs : 400 ≤ status) (hout : e.out = out)
    (hl : Untouched l) :
    Io.wp h.traced (httpSendJsonError status reason message) (fun _ e' x => Untouched x.2 ∧
      ∃ status reason body sent, 400 ≤ status ∧ e'.out = out ++ sent ∧
        sent <+: httpResponse status reason jsonContentType body) e (w, l) := by
  apply wp_httpSendResponse
  intro b sent ts hp _
  exact ⟨hl, status, reason, _, sent, hs, by rw [← hout], hp⟩

end Refuse

open LinkedFiles (NotFollowed Bypass LinkBelow components openUnfollowed openNew)

-- A download is refused if its file cannot be opened.
theorem refused_httpSendFile {opt : ServerOpt} (hv : fsValidateRelativePath path = true)
    (ho : ∀ full, fsJoinRelativePath pathCap opt.path path = some full →
      ∃ c, t.openUnfollowed full = .error c) : Refused (httpSendFile opt path) e ⟨t, board⟩ := by
  rw [Refused, httpSendFile, if_neg (by simp [hv]), Io.wp_bind, appPrepareDownload]
  split
  case h_1 =>
    rw [Io.wp_pure]
    exact wp_refuse (by decide) rfl .nil
  case h_2 full hfull =>
    obtain ⟨c, hc⟩ := ho full hfull
    rw [Io.wp_bind]
    apply Io.wp_fault
    intro f fs
    obtain ⟨c', hr⟩ : ∃ c', LinkedWorld.handle (.openRead full true f) ⟨t, board⟩ = (.error c', ⟨t, board⟩) := by
      cases f
      case none   => exact ⟨c, Prod.ext hc rfl⟩
      case some f => exact ⟨f, rfl⟩
    rw [Io.wp_bind, Io.wp_sys_traced, hr]
    dsimp only
    rw [Io.wp_pure]
    exact wp_refuse (by decide) rfl (Untouched.nil.concat fun h => h)

-- A listing is refused if its directory is missing or a link.
theorem refused_httpHandleFilesList {opt : ServerOpt} {req : HttpRequest} (hne : path.chars ≠ [])
    (hrel : httpHandleFilesList.relativeDir req = some path)
    (hs : ∀ full, fsJoinRelativePath pathCap opt.path path = some full → ∀ x, t.lookup full ≠ some (.entry x)) :
    Refused (httpHandleFilesList opt req) e ⟨t, board⟩ := by
  rw [Refused, httpHandleFilesList, hrel]
  dsimp only
  split
  case h_1 => exact wp_refuse (by decide) rfl .nil
  case h_2 full hfull =>
    rw [Io.wp_bind, fsStatPath, Io.wp_bind]
    apply Io.wp_fault
    intro f fs
    rw [Io.wp_sys]
    split
    case h_1 => exact wp_refuse (by decide) rfl (Untouched.nil.concat fun h => h)
    case h_2 info hinfo =>
      have hk : info.kind = .symlink := by
        cases f
        case some => cases hinfo
        case none =>
          obtain ⟨x, hx, hstat⟩ := Option.bind_eq_some_iff.mp hinfo
          cases x
          case entry x => exact absurd hx (hs full hfull x)
          case link =>
            rw [LinkedFiles.stat] at hstat
            split at hstat
            case isTrue =>
              cases hstat
              rfl
            case isFalse => cases hstat
      rw [httpHandleFilesList.isDir, if_neg (by simp [hk]), if_neg (by simp [hne]), Io.wp_bind, Io.wp_pure,
        if_pos (by rfl)]
      exact wp_refuse (by decide) rfl (Untouched.nil.concat fun h => h)

theorem LinkedFiles.openNew_error {c : Errno} (h : (t.openNew path).1 = .error c) : (t.openNew path).2 = t := by
  rw [openNew] at h ⊢
  cases hp : t.place path
  case none => rfl
  case some p =>
    rw [hp] at h
    dsimp only at h ⊢
    by_cases hs : LinkedFiles.lastPart path = []
    case pos => rw [if_pos hs]
    case neg =>
      rw [if_neg hs] at h ⊢
      by_cases hg : t.get p ≠ none
      case pos => rw [if_pos hg]
      case neg =>
        rw [if_neg hg] at h ⊢
        by_cases hfree : t.Free p
        case pos =>
          rw [dif_pos hfree] at h
          cases h
        case neg => rw [dif_neg hfree]

-- No temporary file is created if that is not possible under any of the names.
theorem wp_attempts_fail {ks : List Nat} (hl : Untouched l)
    (hk : ∀ k ∈ ks, (fsBuildTempPath pathCap full e.pid k).2 = true →
      ∃ c, (t.openNew (fsBuildTempPath pathCap full e.pid k).1).1 = .error c) :
    Io.wp LinkedWorld.handle.traced (transferPrepareOutput.attempts full ks) (fun r e' x =>
      (∃ c, r = .error c) ∧ e'.out = e.out ∧ Untouched x.2) e (⟨t, board⟩, l) := by
  induction ks generalizing e l
  case nil => exact ⟨⟨_, rfl⟩, rfl, hl⟩
  case cons k ks hi =>
    rw [List.forall_mem_cons] at hk
    rw [transferPrepareOutput.attempts, Io.wp_bind, Io.wp_getpid]
    dsimp only
    split
    case isTrue  => exact ⟨⟨_, rfl⟩, rfl, hl⟩
    case isFalse hf =>
      obtain ⟨c, hc⟩ := hk.left (by simpa using hf)
      rw [Io.wp_bind, fsOpenTempFile, Io.wp_bind]
      apply Io.wp_fault
      intro f fs
      have hfail : ∀ c (e' : Env), e'.pid = e.pid → e'.out = e.out → Io.wp LinkedWorld.handle.traced
          (if c = Errno.EEXIST then transferPrepareOutput.attempts full ks else return .error .errIo)
          (fun r e' x => (∃ c, r = .error c) ∧ e'.out = e.out ∧ Untouched x.2) e'
          (⟨t, board⟩, l ++ [⟨.openExcl (fsBuildTempPath pathCap full e.pid k).1 f, .error c⟩]) := by
        intro c e' hpid hout
        have hl' : Untouched (l ++ [⟨.openExcl (fsBuildTempPath pathCap full e.pid k).1 f, .error c⟩]) :=
          hl.concat fun h => h
        split
        case isTrue =>
          apply Io.wp_mono (hi hl' (by rw [hpid]; exact hk.right))
          exact fun _ _ _ hr => ⟨hr.left, hr.right.left.trans hout, hr.right.right⟩
        case isFalse => exact ⟨⟨_, rfl⟩, hout, hl'⟩
      rw [Io.wp_sys]
      cases f
      case some f => exact hfail f _ rfl rfl
      case none =>
        have hstay := LinkedFiles.openNew_error hc
        simp only [Program.Handler.traced, LinkedWorld.handle, hc, hstay]
        exact hfail c _ rfl rfl

-- An upload is refused if no temporary file can be created.
theorem refused_httpHandleFilePut {opt : ServerOpt} {req : HttpRequest}
    (ho : ∀ full, fsJoinRelativePath pathCap opt.path path = some full → ∀ pid, ∀ k < 3,
      (fsBuildTempPath pathCap full pid k).2 = true →
        ∃ c, (t.openNew (fsBuildTempPath pathCap full pid k).1).1 = .error c) :
    Refused (httpHandleFilePut opt req path) e ⟨t, board⟩ := by
  have hprepare : ∀ e' : Env, e'.out = e.out → Io.wp LinkedWorld.handle.traced
      (transferPrepareOutput opt.path path) (fun r e' x => (∃ c, r = .error c) ∧ e'.out = e.out ∧ Untouched x.2)
      e' (⟨t, board⟩, []) := by
    intro e' hout
    rw [transferPrepareOutput]
    split
    case h_1 => exact ⟨⟨_, rfl⟩, hout, .nil⟩
    case h_2 full hfull =>
      rw [Io.wp_bind]
      apply Io.wp_mono (wp_attempts_fail .nil fun k hk => ho full hfull e'.pid k (by
        simp only [List.mem_cons, List.not_mem_nil, or_false] at hk
        omega))
      rintro r e'' x ⟨⟨c, rfl⟩, hout', hx⟩
      exact ⟨⟨c, rfl⟩, hout'.trans hout, hx⟩
  rw [Refused, httpHandleFilePut]
  split
  case isTrue => exact wp_refuse (by decide) rfl .nil
  split
  case isTrue => exact wp_refuse (by decide) rfl .nil
  split
  case isTrue => exact wp_refuse (by decide) rfl .nil
  split
  case isTrue =>
    rw [Io.wp_bind, Io.wp_discard]
    apply wp_httpDiscardBody
    exact fun _ _ => wp_refuse (by decide) rfl .nil
  split
  case isTrue =>
    rw [Io.wp_bind, Io.wp_discard]
    apply wp_httpDiscardBody
    exact fun _ _ => wp_refuse (by decide) rfl .nil
  rw [Io.wp_bind, appReceiveFile, transferRecvSocketHttpFile, transferRecv, Io.wp_bind]
  apply Io.wp_mono (hprepare e rfl)
  rintro r e' x ⟨⟨c, rfl⟩, hout, hx⟩
  rw [Io.wp_pure]
  split
  · exact wp_refuse (by decide) hout hx
  · exact wp_refuse (by decide) hout hx
  · exact wp_refuse (by decide) hout hx
  case _ h => cases h

namespace LinkedFiles

theorem openUnfollowed_error (h : ∀ x, t.lookup full ≠ some (.entry x)) : ∃ c, t.openUnfollowed full = .error c := by
  rw [openUnfollowed]
  split
  case h_1 x hx => exact absurd hx (h x)
  case h_2      => exact ⟨_, rfl⟩
  case h_3      => exact ⟨_, rfl⟩

theorem openUnfollowed_entry {x : Entry} (h : t.lookup full = some (.entry x)) : t.openUnfollowed full = .ok x := by
  rw [openUnfollowed, h]

-- A file is only created where there is none, in a directory.
theorem lookup_of_openNew {i : Nat} (h : (t.openNew path).1 = .ok i) :
    t.lookup path = none ∧ ∃ dir, t.dirOf path = some dir := by
  rw [openNew] at h
  split at h
  case h_1 => cases h
  case h_2 p hp =>
    split at h
    case isTrue => cases h
    split at h
    case isTrue => cases h
    case isFalse hg =>
      obtain ⟨dir, hdir, _⟩ := Option.bind_eq_some_iff.mp hp
      exact ⟨by rw [lookup, hp, Option.bind_some, not_ne_iff.mp hg], dir, hdir⟩

section Temp

variable {pid k : Nat} {dir : List CStr}

-- A temporary file stands beside the file that it becomes.
theorem dirOf_temp (hne : full.chars ≠ []) (ht : (fsBuildTempPath pathCap full pid k).2 = true) :
    t.dirOf (fsBuildTempPath pathCap full pid k).1 = t.dirOf full ∧
    lastPart (fsBuildTempPath pathCap full pid k).1 = lastPart full ++ (tempSuffix pid k).chars := by
  rw [fsBuildTempPath_eq] at ht ⊢
  rw [snprintf_fits ht]
  obtain ⟨init, last, hseg, htemp⟩ := splitOn_append (slash_notMem_tempSuffix pid k) full.chars
  have hstart : start t.cwd (full ++ tempSuffix pid k) = start t.cwd full := by
    rw [start, start, CStr.chars_append, List.head?_append_of_ne_nil _ hne]
  have htemp : segments (full ++ tempSuffix pid k) = init ++ [last ++ (tempSuffix pid k).chars] := by
    rw [segments, CStr.chars_append, htemp]
  rw [dirOf_eq (by simp [hne]) htemp, dirOf_eq hne hseg, hstart, lastPart_eq htemp, lastPart_eq hseg]
  exact ⟨rfl, rfl⟩

theorem enter_temp (hd : t.IsDir dir) (s : Bytes) (pid k : Nat) :
    ∃ name, t.enter dir (s ++ (tempSuffix pid k).chars) = some (dir ++ [name]) := by
  have hlen : 5 ≤ (s ++ (tempSuffix pid k).chars).length := by
    have ht : (CStr.lit ".tmp.").chars.length = 5 := rfl
    simp only [tempSuffix, CStr.chars_append, List.length_append, ht]
    omega
  have hne : ∀ s', s'.length < 5 → s ++ (tempSuffix pid k).chars ≠ s' := by
    rintro s' hs' rfl
    omega
  refine ⟨.ofBuf (s ++ (tempSuffix pid k).chars), ?_⟩
  rw [enter, if_neg (not_not.mpr hd), if_neg, if_neg (hne _ (by decide))]
  exact not_or.mpr ⟨hne _ (by decide), hne _ (by decide)⟩

-- An attempt to create a temporary file fails only if its name is taken.
theorem openNew_temp (hne : full.chars ≠ []) (hdir : t.dirOf full = some dir)
    (ht : (fsBuildTempPath pathCap full pid k).2 = true) :
    (t.lookup (fsBuildTempPath pathCap full pid k).1 = none ∧
      ∃ i, (t.openNew (fsBuildTempPath pathCap full pid k).1).1 = .ok i) ∨
    (t.lookup (fsBuildTempPath pathCap full pid k).1 ≠ none ∧
      (t.openNew (fsBuildTempPath pathCap full pid k).1).1 = .error .EEXIST) := by
  obtain ⟨htemp, hlast⟩ := dirOf_temp hne ht
  have hd := dirOf_isDir hdir
  obtain ⟨name, hname⟩ := enter_temp hd (lastPart full) pid k
  have hplace : t.place (fsBuildTempPath pathCap full pid k).1 = some (dir ++ [name]) := by
    rw [place, htemp, hdir, Option.bind_some, hlast, hname]
  have hnil : lastPart (fsBuildTempPath pathCap full pid k).1 ≠ [] := by
    intro hnil
    rw [hlast] at hnil
    rw [hnil, enter_nil, if_pos hd, Option.some.injEq] at hname
    exact absurd hname (by simp)
  rw [lookup, hplace, Option.bind_some, openNew, hplace]
  dsimp only
  rw [if_neg hnil]
  by_cases hg : t.get (dir ++ [name]) = none
  case neg => exact .inr ⟨hg, by rw [if_pos hg]⟩
  case pos =>
    have hfree : t.Free (dir ++ [name]) := by
      constructor
      case ne_root => simp
      case parent  => rwa [List.dropLast_concat]
      case notDir  => simp [IsDir, hg]
    exact .inl ⟨hg, t.fresh, by rw [if_neg (not_not.mpr hg), dif_pos hfree]⟩

end Temp

section Components

variable {init : List Bytes} {last : Bytes}

-- A path that is accepted consists of its components, and may have an empty segment after them.
theorem components_eq (hv : fsValidateRelativePath path = true) (hseg : segments path = init ++ [last]) :
    components path = if last = [] then init else segments path := by
  obtain ⟨hgood, _⟩ := goodSegments_concat.mp (hseg ▸ ((fsValidateRelativePath_iff path).mp hv).right.right)
  have hinit : init.filter (· ≠ []) = init :=
    List.filter_eq_self.mpr fun s hs => decide_eq_true (hgood s hs).left
  rw [components, hseg, List.filter_append, hinit]
  by_cases hl : last = [] <;> simp [hl]

theorem exists_segments (path : CStr) : ∃ init last, segments path = init ++ [last] := by
  rcases List.eq_nil_or_concat (segments path) with h | ⟨init, last, h⟩
  case inl => exact absurd h (List.splitOn_ne_nil _ _)
  case inr => exact ⟨init, last, by rw [h, List.concat_eq_append]⟩

theorem LinkBelow.append {names : List Bytes} (h : t.LinkBelow base names) (more : List Bytes) :
    t.LinkBelow base (names ++ more) := by
  obtain ⟨n, b, hb, hm⟩ := h
  exact ⟨n, b, hb, hm.append more⟩

theorem LinkBelow.of_components (hv : fsValidateRelativePath path = true) (hseg : segments path = init ++ [last])
    (h : t.LinkBelow base (components path)) : t.LinkBelow base (init ++ [last]) := by
  rw [components_eq hv hseg] at h
  split at h
  case isTrue  => exact h.append _
  case isFalse => exact hseg ▸ h

theorem LinkBelow.to_components (hv : fsValidateRelativePath path = true) (hseg : segments path = init ++ [last])
    (h : t.LinkBelow base init) : t.LinkBelow base (components path) := by
  rw [components_eq hv hseg]
  split
  case isTrue  => exact h
  case isFalse =>
    rw [hseg]
    exact h.append _

-- The components before the last one are segments before the last one.
theorem LinkBelow.of_dropLast (hv : fsValidateRelativePath path = true) (hseg : segments path = init ++ [last])
    (h : t.LinkBelow base (components path).dropLast) : t.LinkBelow base init := by
  rw [components_eq hv hseg] at h
  split at h
  case isTrue =>
    rcases List.eq_nil_or_concat init with hi | ⟨init', s, hi⟩
    case inl => rwa [hi, List.dropLast_nil, ← hi] at h
    case inr =>
      rw [List.concat_eq_append] at hi
      rw [hi, List.dropLast_concat] at h
      exact hi ▸ h.append _
  case isFalse => rwa [hseg, List.dropLast_concat] at h

end Components

theorem LinkBelow.base_ne_nil {names : List Bytes} (h : t.LinkBelow base names) : base.chars ≠ [] := by
  obtain ⟨n, b, hb, _⟩ := h
  rw [realPath] at hb
  split at hb
  case isTrue      => cases hb
  case isFalse hne => exact hne

theorem join_eq (hv : fsValidateRelativePath path = true) (hj : fsJoinRelativePath pathCap base path = some full) :
    full = base ++ separator base ++ path := by
  rcases fsJoinRelativePath_eq hj with ⟨hnil, _⟩ | ⟨_, hfull⟩
  case inl => exact absurd hnil ((fsValidateRelativePath_iff path).mp hv).left
  case inr => exact hfull

-- Unless there is a bypass, nothing but a link can be found under a path with a link in it.
theorem lookup_ne_entry (hv : fsValidateRelativePath path = true) (hb : ¬∃ full dir, t.Bypass base path full dir)
    (hlink : t.LinkBelow base (components path)) (hj : fsJoinRelativePath pathCap base path = some full) (x : Entry) :
    t.lookup full ≠ some (.entry x) := by
  intro hx
  obtain ⟨init, last, hseg⟩ := exists_segments path
  obtain ⟨place, hplace, hget⟩ := Option.bind_eq_some_iff.mp hx
  obtain ⟨dir, hdir, henter⟩ := Option.bind_eq_some_iff.mp hplace
  obtain ⟨n, b, hbase, hm⟩ := hlink.of_components hv hseg
  by_cases hinit : t.MeetsLink b init
  case pos =>
    have hdrop : t.LinkBelow base (segments path).dropLast := by
      rw [hseg, List.dropLast_concat]
      exact ⟨n, b, hbase, hinit⟩
    exact hb ⟨full, dir, hj, hdrop, hdir, .inl ⟨x, hx⟩⟩
  case neg =>
    obtain ⟨q, r, target, hq, hr, htarget⟩ := hm.concat (n := n) hinit
    obtain ⟨hjoin, hlast⟩ := dirOf_join (t := t) hlink.base_ne_nil hseg
    rw [join_eq hv hj] at hdir henter
    rw [hjoin, hbase, Option.bind_some, follow_append, hq, Option.bind_some, follow_empty,
      if_pos (enter_isDir hr), Option.map_some, Option.some.injEq] at hdir
    rw [hlast, ← hdir, hr, Option.some.injEq] at henter
    rw [← henter, htarget] at hget
    cases hget

-- A download opens whatever a path leads to.
theorem not_refused_httpSendFile {x : Entry} {port : UInt16} (hv : fsValidateRelativePath path = true)
    (hj : fsJoinRelativePath pathCap base path = some full) (hx : t.lookup full = some (.entry x)) :
    ¬Refused (httpSendFile ⟨base, port⟩ path) (.calm 0 []) ⟨t, board⟩ := by
  apply not_refused
  rw [httpSendFile, if_neg (by simp [hv])]
  apply not_untouched_bind
  rw [appPrepareDownload, hj]
  dsimp only
  rw [Io.wp_bind, Io.wp_fault_iff]
  apply not_untouched_bind
  rw [Io.wp_sys_traced]
  intro hu
  rw [Untouched, List.forall_mem_append, List.forall_mem_singleton] at hu
  have hopen : (LinkedWorld.handle (.openRead full true none) ⟨t, board⟩).1 = .ok x := openUnfollowed_entry hx
  apply hu.right
  dsimp only [Env.calm, List.headD_nil]
  rw [hopen]
  trivial

-- The names of all attempts are of the same length.
theorem fsBuildTempPath_fits {pid j k : Nat} (hj : j < 3) (hk : k < 3) :
    (fsBuildTempPath pathCap full pid j).2 = (fsBuildTempPath pathCap full pid k).2 := by
  have hdigit : ∀ i < 3, (CStr.decimal i).chars.length = 1 := by decide
  have hlen : ∀ i < 3, (full ++ tempSuffix pid i).strlen = (full ++ tempSuffix pid 0).strlen := by
    intro i hi
    simp only [CStr.strlen, tempSuffix, CStr.chars_append, List.length_append, hdigit i hi, hdigit 0 (by decide)]
  rw [fsBuildTempPath_eq, fsBuildTempPath_eq, snprintf, snprintf, hlen j hj, hlen k hk]

theorem wp_attempts_succeed {dir : List CStr} {ks : List Nat} (he : e.faults = []) (hne : full.chars ≠ [])
    (hdir : t.dirOf full = some dir) (hfit : ∀ k ∈ ks, (fsBuildTempPath pathCap full e.pid k).2 = true)
    (hk : ∃ k ∈ ks, t.lookup (fsBuildTempPath pathCap full e.pid k).1 = none) :
    Io.wp LinkedWorld.handle.traced (transferPrepareOutput.attempts full ks) (fun _ _ x => ¬Untouched x.2)
      e (⟨t, board⟩, l) := by
  induction ks generalizing e l
  case nil => exact absurd hk (by simp)
  case cons k ks hi =>
    rw [List.forall_mem_cons] at hfit
    have hf : (e.faults.headD none) = none := by rw [he, List.headD_nil]
    rw [transferPrepareOutput.attempts, Io.wp_bind, Io.wp_getpid]
    dsimp only
    rw [hfit.left, if_neg (by simp)]
    rcases openNew_temp hne hdir hfit.left with ⟨_, i, hi⟩ | ⟨htaken, herr⟩
    case inl =>
      apply not_untouched_bind
      rw [fsOpenTempFile, Io.wp_bind, Io.wp_fault_iff, Io.wp_sys_traced, hf]
      intro hu
      rw [Untouched, List.forall_mem_append, List.forall_mem_singleton] at hu
      have hopen : (LinkedWorld.handle (.openExcl (fsBuildTempPath pathCap full e.pid k).1 none) ⟨t, board⟩).1 = .ok i :=
        hi
      apply hu.right
      rw [hopen]
      trivial
    case inr =>
      have hrest : ∃ k ∈ ks, t.lookup (fsBuildTempPath pathCap full e.pid k).1 = none := by
        obtain ⟨j, hj, hfree⟩ := hk
        rcases List.mem_cons.mp hj with rfl | hj
        case inl => exact absurd hfree htaken
        case inr => exact ⟨j, hj, hfree⟩
      have hopen : LinkedWorld.handle (.openExcl (fsBuildTempPath pathCap full e.pid k).1 none) ⟨t, board⟩ =
          (.error .EEXIST, ⟨t, board⟩) := by
        simp only [LinkedWorld.handle, herr, openNew_error herr]
      rw [Io.wp_bind, fsOpenTempFile, Io.wp_bind, Io.wp_fault_iff, Io.wp_sys_traced, hf, hopen]
      dsimp only
      rw [if_pos rfl]
      exact hi (by rw [he, List.tail_nil]) hfit.right hrest

-- An upload creates a temporary file if there is room for one.
theorem not_refused_httpHandleFilePut {dir : List CStr} {pid k : Nat} {port : UInt16}
    (hv : fsValidateRelativePath path = true) (hj : fsJoinRelativePath pathCap base path = some full)
    (hne : full.chars ≠ []) (hdir : t.dirOf full = some dir) (hk : k < 3)
    (hfit : (fsBuildTempPath pathCap full pid k).2 = true)
    (hfree : t.lookup (fsBuildTempPath pathCap full pid k).1 = none) :
    ¬Refused (httpHandleFilePut ⟨base, port⟩
      ⟨.lit "PUT", .lit "", .lit "", .lit "application/octet-stream", 0, true, false⟩ path)
      (.calm pid []) ⟨t, board⟩ := by
  have hmem : ∀ j, j ∈ [0, 1, 2] ↔ j < 3 := by
    intro j
    simp only [List.mem_cons, List.not_mem_nil, or_false]
    omega
  apply not_refused
  rw [httpHandleFilePut, if_neg (by decide), if_neg (by decide), if_neg (by decide), if_neg (by decide),
    if_neg (by simp [hv])]
  apply not_untouched_bind
  rw [appReceiveFile, transferRecvSocketHttpFile, transferRecv]
  apply not_untouched_bind
  rw [transferPrepareOutput, hj]
  dsimp only
  apply not_untouched_bind
  apply wp_attempts_succeed rfl hne hdir
  · exact fun j hj => (fsBuildTempPath_fits ((hmem j).mp hj) hk).trans hfit
  · exact ⟨k, (hmem k).mpr hk, hfree⟩

-- All requests for a path with a symbolic link in it are refused, unless the link leads to the directory
-- of the path, and there is something to open in it or room for a temporary file.
theorem notFollowed_iff (hv : fsValidateRelativePath path = true) :
    t.NotFollowed base path ↔ ¬∃ full dir, t.Bypass base path full dir := by
  obtain ⟨init, last, hseg⟩ := exists_segments path
  have hdrop : (segments path).dropLast = init := by rw [hseg, List.dropLast_concat]
  constructor
  case mp =>
    rintro hf ⟨full, dir, hb⟩
    have hlink : t.LinkBelow base init := hdrop ▸ hb.link
    have hget := hf.get (hlink.to_components hv hseg) 0 ⟨none, 0⟩
    by_cases hx : ∃ x, t.lookup full = some (.entry x)
    case pos =>
      obtain ⟨x, hx⟩ := hx
      exact not_refused_httpSendFile hv hb.joined hx (hget _)
    case neg =>
      obtain ⟨pid, k, hk, hfit, hfree⟩ := hb.usable.resolve_left hx
      have hfull := join_eq hv hb.joined
      have hne : full.chars ≠ [] := by
        rw [hfull]
        simp [hlink.base_ne_nil]
      have hlast : last ≠ [] := by
        -- An empty segment at the end stands for the directory itself.
        rintro rfl
        apply hx
        have hplace : t.place full = some dir := by
          rw [place, hb.dirOf, Option.bind_some, hfull, (dirOf_join (t := t) hlink.base_ne_nil hseg).right,
            enter_nil, if_pos (dirOf_isDir hb.dirOf)]
        exact ⟨.dir, by rw [lookup, hplace, Option.bind_some, dirOf_isDir hb.dirOf]⟩
      have hput : t.LinkBelow base (components path).dropLast := by
        rw [components_eq hv hseg, if_neg hlast, hdrop]
        exact hlink
      exact not_refused_httpHandleFilePut hv hb.joined hne hb.dirOf hk hfit hfree (hf.put hput 0 ⟨none, 0⟩ _ _)
  case mpr =>
    intro hb
    constructor
    case get =>
      intro hlink port board e
      exact refused_httpSendFile hv fun full hj => openUnfollowed_error (lookup_ne_entry hv hb hlink hj)
    case list =>
      intro hlink port board e req hrel
      exact refused_httpHandleFilesList ((fsValidateRelativePath_iff path).mp hv).left hrel fun full hj =>
        lookup_ne_entry hv hb hlink hj
    case put =>
      intro hlink port board e req
      apply refused_httpHandleFilePut
      intro full hj pid k hk hfit
      have hinit := hlink.of_dropLast hv hseg
      have hne : full.chars ≠ [] := by
        rw [join_eq hv hj]
        simp [hinit.base_ne_nil]
      cases ho : (t.openNew (fsBuildTempPath pathCap full pid k).1).1
      case error c => exact ⟨c, rfl⟩
      case ok i =>
        obtain ⟨hnone, dir, hdir⟩ := lookup_of_openNew ho
        rw [(dirOf_temp hne hfit).left] at hdir
        exact absurd ⟨full, dir, hj, hdrop ▸ hinit, hdir, .inr ⟨pid, k, hk, hfit, hnone⟩⟩ hb

end LinkedFiles

end

-- A link `l` in the base directory `/r` that leads to the directory `/o`, which holds the file `f`.
def linkNodes : AList (fun _ : List CStr => Node) :=
  ((((AList.singleton [] (.entry .dir)).insert [.lit "r"] (.entry .dir)).insert [.lit "o"] (.entry .dir)).insert
    [.lit "r", .lit "l"] (.link (.lit "/o"))).insert [.lit "o", .lit "f"] (.entry (.file 0))

theorem linkNodes_parents :
    ∀ p ∈ linkNodes.keys, p ≠ [] → linkNodes.lookup p.dropLast = some (.entry .dir) := by
  decide

theorem linkNodes_cases : ∀ p ∈ linkNodes.keys, linkNodes.lookup p = some (.entry .dir) ∨
    linkNodes.lookup p = some (.link (.lit "/o")) ∨ linkNodes.lookup p = some (.entry (.file 0)) := by
  decide

def linkFiles : LinkedFiles where
  nodes    := linkNodes
  data     := fun _ => [120]
  mtime    := fun _ => 0
  fresh    := 1
  clock    := 0
  cwd      := []
  maxLinks := 40
  root     := by decide
  parents p n x h := by
    have hp := linkNodes_parents _ (AList.mem_keys.mp (AList.lookup_isSome.mp (Option.isSome_of_eq_some h))) (by simp)
    rwa [List.dropLast_concat] at hp
  bounded p i h := by
    rcases linkNodes_cases p (AList.mem_keys.mp (AList.lookup_isSome.mp (Option.isSome_of_eq_some h))) with
      hp | hp | hp <;> rw [hp] at h <;> cases h
    decide

def linkWorld : LinkedWorld :=
  ⟨linkFiles, ⟨none, 0⟩⟩

theorem fsValidateRelativePath_link : fsValidateRelativePath (.lit "l/f") = true := by
  decide +kernel

theorem notFollowed_iff_link : linkFiles.NotFollowed (.lit "/r") (.lit "l/f") ↔
    ¬∃ full dir, linkFiles.Bypass (.lit "/r") (.lit "l/f") full dir :=
  LinkedFiles.notFollowed_iff fsValidateRelativePath_link

-- The file behind the link is fetched and replaced, and its directory is listed.
theorem link_followed :
    ¬linkFiles.NotFollowed (.lit "/r") (.lit "l/f") ∧
    (Io.exec LinkedWorld.handle (httpSendFile ⟨.lit "/r", 0⟩ (.lit "l/f")) (.calm 1 []) linkWorld).1.2.out =
      httpSendFile.header 1 (ascii "f") ++ [120] ∧
    (Io.exec LinkedWorld.handle (httpHandleFilePut ⟨.lit "/r", 0⟩
      ⟨.lit "PUT", .lit "", .lit "", .lit "application/octet-stream", 0, true, false⟩ (.lit "l/f"))
      (.calm 1 []) linkWorld).2.tree.get [.lit "o", .lit "f"] = some (.entry (.file 1)) ∧
    answerStatus (Io.exec LinkedWorld.handle (httpHandleFilesList ⟨.lit "/r", 0⟩
      ⟨.lit "GET", .lit "", .lit "path=l/", .lit "", 0, false, false⟩) (.calm 1 []) linkWorld).1.2.out =
      some (ascii "200") := by
  refine ⟨fun hf => ?_, by decide +kernel, by decide +kernel, by decide +kernel⟩
  have hlink : linkFiles.LinkBelow (.lit "/r") (LinkedFiles.components (.lit "l/f")) :=
    ⟨40, [.lit "r"], by decide, [.lit "r", .lit "l"], by decide, .inl ⟨.lit "/o", by decide⟩⟩
  have hj : fsJoinRelativePath pathCap (.lit "/r") (.lit "l/f") = some (.lit "/r/l/f") :=
    fsJoinRelativePath_eq_some fsValidateRelativePath_link (by decide)
  have hx : linkFiles.lookup (.lit "/r/l/f") = some (.entry (.file 0)) := by decide
  exact LinkedFiles.not_refused_httpSendFile fsValidateRelativePath_link hj hx (hf.get hlink 0 ⟨none, 0⟩ _)
