import HFile.Library.Decimal
import HFile.Library.Path
import HFile.Library.Split
import HFile.Source.Fs

-- The parts of a path between its slashes.
def segments (path : CStr) : List Bytes :=
  path.chars.splitOn slash

def segmentMove (segment : Bytes) : Move Bytes :=
  if segment = [] ∨ segment = [dot] then .stay
  else if segment = [dot, dot] then .up
  else .down segment

-- Where a path leads, without looking at the file system.
def resolve (path : CStr) : Place Bytes :=
  Place.follow ⟨path.chars.head? = some slash, 0, []⟩ ((segments path).map segmentMove)

-- A segment that names something.
def GoodSegment (segment : Bytes) : Prop :=
  segment ≠ [] ∧ segment ≠ [dot] ∧ segment ≠ [dot, dot]

-- All segments name something, apart from the last one, which may be empty.
def GoodSegments : List Bytes → Prop
  | []              => True
  | [last]          => last = [] ∨ GoodSegment last
  | segment :: rest => GoodSegment segment ∧ GoodSegments rest

theorem GoodSegments.cons_iff {segment : Bytes} {rest : List Bytes} (hr : rest ≠ []) :
    GoodSegments (segment :: rest) ↔ GoodSegment segment ∧ GoodSegments rest := by
  cases rest
  case nil  => exact absurd rfl hr
  case cons => rfl

theorem GoodSegments.ne_up {l : List Bytes} (h : GoodSegments l) : ∀ s ∈ l, s ≠ [dot, dot] := by
  fun_induction GoodSegments l
  case case1 => simp
  case case2 last =>
    simp only [List.mem_singleton, forall_eq]
    cases h
    case inl h => simp [h]
    case inr h => exact h.right.right
  case case3 segment rest _ hi =>
    rw [List.forall_mem_cons]
    exact ⟨h.left.right.right, hi h.right⟩

-- The loop of `fs_validate_relative_path` accepts exactly the paths with good segments.
theorem fsValidateRelativePath.loop_iff (s : Bytes) :
    fsValidateRelativePath.loop s ↔ GoodSegments (s.splitOn slash) := by
  fun_induction fsValidateRelativePath.loop s
  case case1 => simp [GoodSegments]
  case case2 s hs name hbad =>
    simp only [Bool.false_eq_true, false_iff]
    have hng : ¬GoodSegment name := by
      intro hg
      have ⟨h₁, h₂, h₃⟩ := hg
      simp [h₁, h₂, h₃] at hbad
    cases hd : s.dropWhile (· != slash)
    case nil =>
      have ⟨hsp, hn⟩ := Split.splitOn_of_dropWhile_nil hd
      rw [hsp]
      rintro (h | h)
      · exact hs h
      · exact hng (by rwa [show name = s from hn])
    case cons c rest =>
      rw [Split.splitOn_of_dropWhile hd, GoodSegments.cons_iff (List.splitOn_ne_nil _ _)]
      exact fun h => hng h.left
  case case3 s hs name hgood hd =>
    have ⟨hsp, hn⟩ := Split.splitOn_of_dropWhile_nil hd
    simp only [not_or] at hgood
    rw [hsp]
    simp only [GoodSegments, true_iff]
    exact .inr (hn ▸ ⟨hgood.left, hgood.right.left, hgood.right.right⟩)
  case case4 s hs name hgood c rest hd hi =>
    simp only [not_or] at hgood
    rw [Split.splitOn_of_dropWhile hd, GoodSegments.cons_iff (List.splitOn_ne_nil _ _), hi]
    exact ⟨fun h => ⟨⟨hgood.left, hgood.right.left, hgood.right.right⟩, h⟩, fun h => h.right⟩

theorem goodSegments_of_validate {path : CStr} (h : fsValidateRelativePath path) :
    path.chars ≠ [] ∧ GoodSegments (segments path) := by
  rw [fsValidateRelativePath] at h
  split at h
  case h_1 => cases h
  case h_2 c rest hc =>
    simp only [Bool.decide_and, Bool.and_eq_true, decide_eq_true_eq] at h
    refine ⟨by simp [hc], ?_⟩
    exact (fsValidateRelativePath.loop_iff _).mp (by simpa using h.right.right)

theorem segmentMove_ne_up {s : Bytes} (h : s ≠ [dot, dot]) : segmentMove s ≠ .up := by
  rw [segmentMove]
  split
  case isTrue  => simp
  case isFalse => simp

theorem snprintf_fits {cap : Nat} {s : CStr} (h : (snprintf cap s).2) : (snprintf cap s).1 = s := by
  have hl : s.chars.length < cap := of_decide_eq_true h
  exact CStr.ext (List.take_of_length_le (by omega))

-- What `fs_join_path` puts between its arguments.
def separator (dir : CStr) : CStr :=
  if dir.chars.getLast? = some slash then .lit "" else .lit "/"

theorem fsJoinPath_eq {cap : Nat} {dir file path : CStr} (h : fsJoinPath cap dir file = some path) :
    path = dir ++ separator dir ++ file := by
  simp only [fsJoinPath, Option.ite_none_right_eq_some, Option.some.injEq] at h
  exact h.right.symm.trans (snprintf_fits h.left)

-- Joining two paths is following one after the other.
theorem resolve_join {dir : CStr} (hd : dir.chars ≠ []) (file : CStr) :
    resolve (dir ++ separator dir ++ file) =
      (resolve dir).follow ((segments file).map segmentMove) := by
  have hhead : (dir ++ separator dir ++ file).chars.head? = dir.chars.head? := by
    rw [CStr.chars_append, CStr.chars_append, List.append_assoc, List.head?_append_of_ne_nil _ hd]
  rw [resolve, hhead, resolve, ← Place.follow_append, ← List.map_append]
  by_cases hl : dir.chars.getLast? = some slash
  case neg =>
    have hs : (dir ++ separator dir ++ file).chars = dir.chars ++ slash :: file.chars := by
      simp [separator, hl]
      rfl
    rw [segments, hs, List.splitOn_append_cons_self, segments, segments]
  case pos =>
    -- The directory ends with an empty segment, which leads nowhere.
    have ⟨d, hdir⟩ : ∃ d, dir.chars = d ++ [slash] := List.getLast?_eq_some_iff.mp hl
    have hs : (dir ++ separator dir ++ file).chars = d ++ slash :: file.chars := by
      simp [separator, hdir]
      rfl
    have hseg : segments dir = d.splitOn slash ++ [[]] := by
      rw [segments, hdir, List.splitOn_append_cons_self]
      simp
    rw [segments, hs, List.splitOn_append_cons_self, hseg]
    simp [segments, segmentMove, Place.move]

-- A suffix without a slash only changes the last segment.
theorem splitOn_append {t : Bytes} (ht : slash ∉ t) (a : Bytes) :
    ∃ init last, a.splitOn slash = init ++ [last] ∧ (a ++ t).splitOn slash = init ++ [last ++ t] := by
  induction a
  case nil => exact ⟨[], [], by simp, by simp [List.splitOn_eq_singleton ht]⟩
  case cons c a hi =>
    have ⟨init, last, ha, hat⟩ := hi
    rw [List.cons_append, List.splitOn_cons_eq_if_modifyHead, List.splitOn_cons_eq_if_modifyHead, ha, hat]
    by_cases hc : c = slash
    case pos => exact ⟨[] :: init, last, by simp [hc], by simp [hc]⟩
    case neg =>
      cases init
      case nil         => exact ⟨[], c :: last, by simp [hc], by simp [hc]⟩
      case cons x init => exact ⟨(c :: x) :: init, last, by simp [hc], by simp [hc]⟩

-- What is appended to the name of a file for its temporary file.
def tempSuffix (pid attempt : Nat) : CStr :=
  .lit ".tmp." ++ .decimal pid ++ .lit "." ++ .decimal attempt

theorem slash_notMem_decimal (n : Nat) : slash ∉ (CStr.decimal n).chars :=
  fun h => absurd (CStr.digit_of_mem_decimal n _ h) (by decide)

theorem slash_notMem_tempSuffix (pid attempt : Nat) : slash ∉ (tempSuffix pid attempt).chars := by
  have ht : slash ∉ (CStr.lit ".tmp.").chars := by decide
  have hd : slash ∉ (CStr.lit ".").chars := by decide
  simp [tempSuffix, slash_notMem_decimal, ht, hd]

-- A name that ends with the suffix of a temporary file does not lead up.
theorem append_tempSuffix_ne (s : Bytes) (pid attempt : Nat) :
    s ++ (tempSuffix pid attempt).chars ≠ [dot, dot] := by
  intro h
  have ht : (CStr.lit ".tmp.").chars.length = 5 := rfl
  have hl := congrArg List.length h
  simp only [tempSuffix, CStr.chars_append, List.length_append, ht, List.length_cons,
    List.length_nil] at hl
  omega

theorem fsBuildTempPath_eq (cap : Nat) (path : CStr) (pid attempt : Nat) :
    fsBuildTempPath cap path pid attempt = snprintf cap (path ++ tempSuffix pid attempt) := by
  rw [fsBuildTempPath]
  congr 1
  ext1
  simp [tempSuffix]

section

variable {baseDir file path : CStr}

-- The paths that the server uses for a file lie within its directory.
theorem within_join (hd : baseDir.chars ≠ []) (hf : ∀ s ∈ segments file, s ≠ [dot, dot]) :
    (resolve baseDir).Within (resolve (baseDir ++ separator baseDir ++ file)) := by
  rw [resolve_join hd]
  apply Place.within_follow
  simp only [List.mem_map, forall_exists_index, and_imp, forall_apply_eq_imp_iff₂]
  exact fun s hs => segmentMove_ne_up (hf s hs)

theorem segments_append_tempSuffix (hf : ∀ s ∈ segments file, s ≠ [dot, dot]) (pid attempt : Nat) :
    ∀ s ∈ segments (file ++ tempSuffix pid attempt), s ≠ [dot, dot] := by
  have ⟨init, last, ha, hat⟩ := splitOn_append (slash_notMem_tempSuffix pid attempt) file.chars
  intro s hs
  rw [segments, CStr.chars_append, hat, List.mem_append, List.mem_singleton] at hs
  cases hs
  case inl hs => exact hf s (by rw [segments, ha]; exact List.mem_append_left _ hs)
  case inr hs => exact hs ▸ append_tempSuffix_ne last pid attempt

theorem fsJoinRelativePath_eq {cap : Nat} (h : fsJoinRelativePath cap baseDir file = some path) :
    (file.chars = [] ∧ path = baseDir) ∨
    (fsValidateRelativePath file ∧ path = baseDir ++ separator baseDir ++ file) := by
  rw [fsJoinRelativePath] at h
  split at h
  case isTrue hf =>
    simp only [Option.ite_none_right_eq_some, Option.some.injEq] at h
    exact .inl ⟨hf, h.right.symm.trans (snprintf_fits h.left)⟩
  case isFalse =>
    split at h
    case isTrue hv => exact .inr ⟨hv, fsJoinPath_eq h⟩
    case isFalse   => cases h

theorem within_fsJoinRelativePath {cap : Nat} (hd : baseDir.chars ≠ [])
    (h : fsJoinRelativePath cap baseDir file = some path) :
    (resolve baseDir).Within (resolve path) := by
  cases fsJoinRelativePath_eq h
  case inl h => exact h.right ▸ .refl _
  case inr h => exact h.right ▸ within_join hd (goodSegments_of_validate h.left).right.ne_up

theorem within_fsBuildTempPath {cap pid attempt : Nat} (hd : baseDir.chars ≠ [])
    (hf : file.chars ≠ []) (h : fsJoinRelativePath cap baseDir file = some path)
    (ht : (fsBuildTempPath pathCap path pid attempt).2) :
    (resolve baseDir).Within (resolve (fsBuildTempPath pathCap path pid attempt).1) := by
  cases fsJoinRelativePath_eq h
  case inl h => exact absurd h.left hf
  case inr h =>
    have hup := (goodSegments_of_validate h.left).right.ne_up
    have happ : path ++ tempSuffix pid attempt =
        baseDir ++ separator baseDir ++ (file ++ tempSuffix pid attempt) := by
      rw [h.right]
      ext1
      simp
    rw [fsBuildTempPath_eq] at ht ⊢
    rw [snprintf_fits ht, happ]
    exact within_join hd (segments_append_tempSuffix hup pid attempt)

end
