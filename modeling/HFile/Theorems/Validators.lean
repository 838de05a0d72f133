import HFile.Theorems.Paths
import HFile.Theorems.Client

open Arrival (bytes delivered)

theorem goodSegments_concat {l : List Bytes} {last : Bytes} :
    GoodSegments (l ++ [last]) ↔ (∀ s ∈ l, GoodSegment s) ∧ (last = [] ∨ GoodSegment last) := by
  induction l
  case nil => simp [GoodSegments]
  case cons segment l hi =>
    rw [List.cons_append, GoodSegments.cons_iff (by simp), hi, List.forall_mem_cons, and_assoc]

theorem fsValidateRelativePath_iff (path : CStr) : fsValidateRelativePath path = true ↔
    path.chars ≠ [] ∧ backslash ∉ path.chars ∧ GoodSegments (segments path) := by
  rw [fsValidateRelativePath]
  split
  case h_1 hc => simp [hc]
  case h_2 c rest hc =>
    have hslash : GoodSegments (segments path) → c ≠ slash := by
      rintro hg rfl
      rw [segments, hc, ← List.nil_append (slash :: rest), List.splitOn_append_cons_self, List.splitOn_nil,
        List.singleton_append, GoodSegments.cons_iff (List.splitOn_ne_nil _ _)] at hg
      exact hg.left.left rfl
    simp only [Bool.decide_and, Bool.and_eq_true, decide_eq_true_eq, fsValidateRelativePath.loop_iff]
    constructor
    case mp =>
      rintro ⟨_, hb, hg⟩
      exact ⟨by simp [hc], hb, by simpa [segments] using hg⟩
    case mpr =>
      rintro ⟨_, hb, hg⟩
      exact ⟨hslash hg, hb, by simpa [segments] using hg⟩

-- The paths of the grammar: between slashes, there are only names.
structure WellFormed (path : CStr) : Prop where
  noBackslash : backslash ∉ path.chars
  segments    : ∀ s ∈ segments path, GoodSegment s

-- A slash at the end is a path's only segment that is not judged.
theorem fsValidateRelativePath_slash {path init : CStr} (h : path.chars = init.chars ++ [slash]) :
    (fsValidateRelativePath path = true ↔ WellFormed init) ∧ ¬WellFormed path := by
  have hseg : segments path = segments init ++ [[]] := by
    rw [segments, h, List.splitOn_append_cons_self, List.splitOn_nil, segments]
  have hback : backslash ∈ path.chars ↔ backslash ∈ init.chars := by
    rw [h, List.mem_append, List.mem_singleton, or_iff_left (by decide)]
  constructor
  case left =>
    rw [fsValidateRelativePath_iff, hseg, goodSegments_concat, hback]
    constructor
    case mp =>
      rintro ⟨_, hb, hg, _⟩
      exact ⟨hb, hg⟩
    case mpr => exact fun hw => ⟨by simp [h], hw.noBackslash, hw.segments, .inl rfl⟩
  case right =>
    intro hw
    have hnil := hw.segments [] (hseg ▸ List.mem_append_right _ List.mem_cons_self)
    exact hnil.left rfl

theorem fsValidateRelativePath_noSlash {path : CStr} (h : path.chars.getLast? ≠ some slash) :
    fsValidateRelativePath path = true ↔ WellFormed path := by
  rw [fsValidateRelativePath_iff]
  rcases List.eq_nil_or_concat path.chars with hp | ⟨q, c, hp⟩
  case inl =>
    refine iff_of_false (fun hv => hv.left hp) fun hw => ?_
    exact (hw.segments [] (by simp [segments, hp])).left rfl
  case inr =>
    rw [List.concat_eq_append] at hp
    have hc : slash ∉ [c] := by
      rw [hp, List.getLast?_concat] at h
      exact fun hm => h (congrArg some (List.mem_singleton.mp hm).symm)
    obtain ⟨init, last, _, hseg⟩ := splitOn_append hc q
    have hseg : segments path = init ++ [last ++ [c]] := by rw [segments, hp, hseg]
    rw [hseg, goodSegments_concat]
    constructor
    case mp =>
      rintro ⟨_, hb, hg, hl⟩
      refine ⟨hb, ?_⟩
      rw [hseg, List.forall_mem_append, List.forall_mem_singleton]
      exact ⟨hg, hl.resolve_left (by simp)⟩
    case mpr =>
      intro hw
      have hs := hw.segments
      rw [hseg, List.forall_mem_append, List.forall_mem_singleton] at hs
      exact ⟨by simp [hp], hw.noBackslash, hs.left, .inr hs.right⟩

-- The validator accepts exactly the paths of the grammar, apart from a slash after such a path.
theorem fsValidateRelativePath_exact_iff (path : CStr) :
    (fsValidateRelativePath path = true ↔ WellFormed path) ↔
    ¬∃ init : CStr, WellFormed init ∧ path.chars = init.chars ++ [slash] := by
  by_cases hl : path.chars.getLast? = some slash
  case pos =>
    obtain ⟨q, hq⟩ := List.getLast?_eq_some_iff.mp hl
    obtain ⟨init, rfl⟩ : ∃ init : CStr, init.chars = q := ⟨⟨q, fun h => path.nul_free (by simp [hq, h])⟩, rfl⟩
    obtain ⟨hv, hw⟩ := fsValidateRelativePath_slash hq
    rw [hv, iff_false_right hw, not_iff_not]
    constructor
    case mp  => exact fun hi => ⟨init, hi, hq⟩
    case mpr =>
      rintro ⟨init', hi, hq'⟩
      rwa [CStr.ext (List.append_cancel_right (hq.symm.trans hq'))]
  case neg =>
    refine iff_of_true (fsValidateRelativePath_noSlash hl) ?_
    rintro ⟨init, _, hq⟩
    exact hl (by rw [hq, List.getLast?_concat])

-- The path `a/` is accepted, whose second segment is empty.
theorem fsValidateRelativePath_accepts_slash :
    fsValidateRelativePath (.lit "a/") = true ∧ ¬WellFormed (.lit "a/") := by
  have hp : (CStr.lit "a/").chars = (CStr.lit "a").chars ++ [slash] := by decide
  refine ⟨?_, (fsValidateRelativePath_slash hp).right⟩
  rw [(fsValidateRelativePath_slash hp).left]
  refine ⟨by decide, ?_⟩
  have hseg : segments (.lit "a") = [[97]] := by decide
  rw [hseg, List.forall_mem_singleton]
  exact ⟨by decide, by decide, by decide⟩

-- The two validators of an upload agree on every name but one.
theorem fsValidateRelativePath_of_fileName {name : CStr} (h : fsValidateFileName name = true)
    (hd : name ≠ .lit ".") : fsValidateRelativePath name = true := by
  simp only [fsValidateFileName, Bool.decide_and, Bool.and_eq_true, decide_eq_true_eq] at h
  obtain ⟨hne, hs, hb, hdots⟩ := h
  rw [fsValidateRelativePath_iff]
  refine ⟨hne, hb, ?_⟩
  rw [segments, List.splitOn_eq_singleton hs]
  refine .inr ⟨hne, ?_, ?_⟩
  · intro he
    exact hd (CStr.ext (he.trans (by decide)))
  · intro he
    exact hdots (he ▸ List.infix_rfl)

-- The path of an upload and all of its temporary paths fit into their buffers.
structure FitsOutput (dir name : CStr) (pid : Nat) : Prop where
  path : (dir ++ separator dir ++ name).strlen < pathCap
  temp : ∀ attempt < 3, (fsBuildTempPath pathCap (dir ++ separator dir ++ name) pid attempt).2 = true

theorem fsJoinRelativePath_eq_some {dir name : CStr} (hv : fsValidateRelativePath name = true)
    (hl : (dir ++ separator dir ++ name).strlen < pathCap) :
    fsJoinRelativePath pathCap dir name = some (dir ++ separator dir ++ name) := by
  have hne := ((fsValidateRelativePath_iff name).mp hv).left
  have hfit : (snprintf pathCap (dir ++ separator dir ++ name)).2 = true := decide_eq_true hl
  rw [fsJoinRelativePath, if_neg hne, if_pos hv, fsJoinPath]
  change (if (snprintf pathCap (dir ++ separator dir ++ name)).2 then
    some (snprintf pathCap (dir ++ separator dir ++ name)).1 else none) = _
  rw [if_pos hfit, snprintf_fits hfit]

section

variable {W : Type} {h : Program.Handler Sys W} {e : Env} {w : W}

theorem wp_attempts_fits {path : CStr} {ks : List Nat}
    (hk : ∀ k ∈ ks, (fsBuildTempPath pathCap path e.pid k).2 = true) :
    Io.wp h (transferPrepareOutput.attempts path ks) (fun r _ _ => r ≠ .error .errInvalidArgument) e w := by
  induction ks generalizing e w
  case nil =>
    intro h
    cases h
  case cons k ks hi =>
    rw [List.forall_mem_cons] at hk
    rw [transferPrepareOutput.attempts, Io.wp_bind, Io.wp_getpid]
    dsimp only
    rw [hk.left, if_neg (by simp), Io.wp_bind, fsOpenTempFile, Io.wp_bind]
    apply Io.wp_fault
    intro f fs
    rw [Io.wp_sys]
    cases (h (.openExcl (fsBuildTempPath pathCap path e.pid k).1 f) w).1
    case ok =>
      intro h
      cases h
    case error c =>
      dsimp only
      split
      case isTrue  => exact hi hk.right
      case isFalse =>
        intro h
        cases h

theorem wp_transferPrepareOutput_fits {dir name : CStr} (hv : fsValidateRelativePath name = true)
    (hf : FitsOutput dir name e.pid) :
    Io.wp h (transferPrepareOutput dir name) (fun r _ _ => r ≠ .error .errInvalidArgument) e w := by
  rw [transferPrepareOutput, fsJoinRelativePath_eq_some hv hf.path]
  dsimp only
  rw [Io.wp_bind]
  apply Io.wp_mono (wp_attempts_fits (by simpa using ⟨hf.temp 0 (by decide), hf.temp 1 (by decide), hf.temp 2 (by decide)⟩))
  intro r e' w' hr
  cases r
  case ok =>
    intro h
    cases h
  case error r => exact fun he => hr (congrArg Except.error (Except.error.inj he))

end

-- The server answers an upload of `name` with READY/OK only if its preparation cannot refuse the
-- name.
def ReadyMeansAccepted (name : CStr) : Prop :=
  ∀ (opt : ServerOpt) (header : ProtocolHeader) (e : Env) (w : World) (raw size : Bytes) (rest : List Arrival),
    e.Prefix raw size rest → CStr.ofBuf raw = name →
    Io.wp World.handle (serverHandleFileTransfer opt header) (fun _ e' _ =>
      e.out ++ ResFrame.readyOk.bytes <+: e'.out → ∀ (e₁ : Env) (w₁ : World),
        FitsOutput opt.path name e₁.pid → Io.wp World.handle (transferPrepareOutput opt.path name)
          (fun r _ _ => r ≠ .error .errInvalidArgument) e₁ w₁) e w

theorem Env.Prefix.raw_unique {e : Env} {raw raw' size size' : Bytes} {rest rest' : List Arrival}
    (h : e.Prefix raw size rest) (h' : e.Prefix raw' size' rest') : raw = raw' := by
  have hl : (wireName raw).length = (wireName raw').length := by
    simp [wireName, h.raw_length, h'.raw_length]
  have he := h.delivered_eq.symm.trans h'.delivered_eq
  rw [List.append_assoc, List.append_assoc] at he
  have hw := (List.append_inj he hl).left
  simpa [wireName, h.raw_length, h'.raw_length] using hw

-- An upload that is answered with READY/OK has an accepted name.
theorem UploadRun.accepts {opt : ServerOpt} {header : ProtocolHeader} {e : Env} {fs fs' : Files}
    {raw size sent : Bytes} {rest : List Arrival} (h : UploadRun opt header e fs sent fs')
    (hp : e.Prefix raw size rest) (hs : ResFrame.readyOk.bytes <+: sent) :
    fsValidateFileName (.ofBuf raw) = true := by
  have hrejected : ∀ {ts : List Transfer} {code : ProtocolResult},
      ¬Sends ts (ResFrame.readyRejected code).bytes sent := by
    intro ts code hsent
    have he := congrArg ResFrame.status (ResFrame.eq_of_prefix hs hsent.isPrefix)
    exact absurd he (by simp [ResFrame.readyOk, ResFrame.readyRejected, statusOk, statusRejected])
  cases h
  case tooSmall hsent           => exact absurd hsent hrejected
  case silent                   => simp [ResFrame.bytes] at hs
  case refused hsent            => exact absurd hsent hrejected
  case unready hp' ha _ _       => exact hp.raw_unique hp' ▸ ha.left
  case failed hp' ha _ _ _      => exact hp.raw_unique hp' ▸ ha.left
  case stored hp' ha _ _ _ _    => exact hp.raw_unique hp' ▸ ha.left

-- An upload of an empty file with the name `.`.
def dotHeader : ProtocolHeader :=
  requestHeader msgTypeSendFile 11

def dotEnv : Env :=
  .calm 0 [.data 0 [1, 46, 0, 0, 0, 0, 0, 0, 0, 0]]

theorem dotEnv_prefix : dotEnv.Prefix [46] (List.replicate 8 0) [] where
  len          := by decide
  pos          := by decide
  le           := by decide
  alloc        := rfl
  complete     := by decide
  sized        := by decide
  raw_length   := by decide
  size_length  := rfl
  bytes_eq     := by decide
  delivered_eq := by decide

theorem dot_ready : ResFrame.readyOk.bytes <+:
    (Io.exec World.handle (serverHandleFileTransfer ⟨.lit "r", 8080⟩ dotHeader) dotEnv World.empty).1.2.out := by
  decide +kernel

theorem dot_fits : FitsOutput (.lit "r") (.lit ".") 0 where
  path := by decide
  temp := by decide

theorem dot_not_valid : ¬fsValidateRelativePath (.lit ".") = true := by
  rw [fsValidateRelativePath_iff]
  rintro ⟨_, _, hg⟩
  have hseg : segments (.lit ".") = [[dot]] := by decide
  rw [hseg] at hg
  exact (hg.resolve_left (List.cons_ne_nil _ _)).right.left rfl

theorem dot_refused : (Io.exec World.handle (transferPrepareOutput (.lit "r") (.lit ".")) dotEnv World.empty).1.1 =
    .error .errInvalidArgument := by
  have hjoin : fsJoinRelativePath pathCap (.lit "r") (.lit ".") = none := by
    rw [fsJoinRelativePath, if_neg (by decide), if_neg dot_not_valid]
  rw [transferPrepareOutput, hjoin]
  rfl

theorem readyMeansAccepted_iff (name : CStr) : ReadyMeansAccepted name ↔ name ≠ .lit "." := by
  constructor
  case mp =>
    rintro h rfl
    have hrun := Io.wp_iff_exec.mp (h ⟨.lit "r", 8080⟩ dotHeader dotEnv World.empty _ _ _ dotEnv_prefix (by decide))
    exact Io.wp_iff_exec.mp (hrun dot_ready dotEnv World.empty dot_fits) dot_refused
  case mpr =>
    rintro hd opt header e w raw size rest hp rfl
    apply Io.wp_mono (wp_serverHandleFileTransfer opt header e w)
    rintro _ e' w' ⟨_, sent, hout, hrun⟩ hready e₁ w₁ hf
    rw [hout] at hready
    exact wp_transferPrepareOutput_fits (fsValidateRelativePath_of_fileName
      (hrun.accepts hp ((List.prefix_append_right_inj _).mp hready)) hd) hf

-- The server asks for the body of `.`, and can only refuse it afterwards.
theorem dot_ready_and_refused :
    ResFrame.readyOk.bytes <+: (Io.exec World.handle (serverHandleFileTransfer ⟨.lit "r", 8080⟩ dotHeader)
      dotEnv World.empty).1.2.out ∧
    FitsOutput (.lit "r") (.lit ".") 0 ∧
    (Io.exec World.handle (transferPrepareOutput (.lit "r") (.lit ".")) dotEnv World.empty).1.1 =
      .error .errInvalidArgument :=
  ⟨dot_ready, dot_fits, dot_refused⟩
