import HFile.System.LinkedFiles
import HFile.Theorems.Validators

namespace LinkedFiles

-- One of the names `ss`, followed from the place `p`, is a symbolic link.
def MeetsLink (t : LinkedFiles) : List CStr → List Bytes → Prop
  | _, []      => False
  | p, s :: ss => ∃ q, t.enter p s = some q ∧
    ((∃ target, t.get q = some (.link target)) ∨ ∃ x, t.get q = some (.entry x) ∧ t.MeetsLink q ss)

section

variable {t : LinkedFiles} {n : Nat} {p q : List CStr} {s : Bytes} {ss : List Bytes}

theorem enter_isDir (h : t.enter p s = some q) : t.IsDir p := by
  by_contra hp
  rw [enter, if_pos hp] at h
  cases h

@[simp]
theorem enter_nil : t.enter p [] = if t.IsDir p then some p else none := by
  by_cases hp : t.IsDir p <;> simp [enter, hp]

@[simp]
theorem follow_nil (n : Nat) (p : List CStr) : t.follow n p [] = some (n, p) := by
  cases n <;> rfl

theorem follow_cons_none (h : t.enter p s = none) : t.follow n p (s :: ss) = none := by
  cases n <;> rw [follow, follow.parts, h]

theorem follow_cons_missing (h : t.enter p s = some q) (hq : t.get q = none) :
    t.follow n p (s :: ss) = none := by
  cases n <;> simp only [follow, follow.parts, h, hq]

theorem follow_cons_entry {x : Entry} (h : t.enter p s = some q) (hq : t.get q = some (.entry x)) :
    t.follow n p (s :: ss) = t.follow n q ss := by
  cases n <;> simp only [follow, follow.parts, h, hq]

theorem follow.parts_append {jump : List CStr → List Bytes → Option (Nat × List CStr)} {ts : List Bytes}
    (hn : ∀ q, follow.parts t n jump q ts = t.follow n q ts)
    (hj : ∀ q ss, jump q (ss ++ ts) = (jump q ss).bind fun x => t.follow x.1 x.2 ts) :
    follow.parts t n jump p (ss ++ ts) =
      (follow.parts t n jump p ss).bind fun x => t.follow x.1 x.2 ts := by
  induction ss generalizing p
  case nil => exact hn p
  case cons s ss hi =>
    rw [List.cons_append, parts, parts]
    cases t.enter p s
    case none => rfl
    case some q =>
      dsimp only
      cases t.get q
      case none => rfl
      case some x =>
        cases x
        case entry => exact hi
        case link target =>
          dsimp only
          rw [← List.append_assoc, hj]

-- Following one list of parts after another.
theorem follow_append (n : Nat) (p : List CStr) (ss ts : List Bytes) :
    t.follow n p (ss ++ ts) = (t.follow n p ss).bind fun x => t.follow x.1 x.2 ts := by
  induction n generalizing p ss
  case zero      => exact follow.parts_append (fun _ => rfl) fun _ _ => rfl
  case succ n hi => exact follow.parts_append (fun _ => rfl) hi

-- An empty part leads nowhere, but only from a directory.
theorem follow_empty (n : Nat) (p : List CStr) :
    t.follow n p [[]] = if t.IsDir p then some (n, p) else none := by
  by_cases hp : t.IsDir p
  case pos => rw [follow_cons_entry (by rw [enter_nil, if_pos hp]) hp, follow_nil, if_pos hp]
  case neg => rw [follow_cons_none (by rw [enter_nil, if_neg hp]), if_neg hp]

theorem follow_empty_cons (hs : ss ≠ []) : t.follow n p ([] :: ss) = t.follow n p ss := by
  by_cases hp : t.IsDir p
  case pos => rw [follow_cons_entry (by rw [enter_nil, if_pos hp]) hp]
  case neg =>
    obtain ⟨s, ss, rfl⟩ := List.exists_cons_of_ne_nil hs
    have hnone : ∀ s, t.enter p s = none := fun s => by rw [enter, if_pos hp]
    rw [follow_cons_none (hnone []), follow_cons_none (hnone s)]

theorem MeetsLink.append (h : t.MeetsLink p ss) (ts : List Bytes) : t.MeetsLink p (ss ++ ts) := by
  induction ss generalizing p
  case nil => exact h.elim
  case cons s ss hi =>
    obtain ⟨q, hq, hlink⟩ := h
    refine ⟨q, hq, hlink.imp_right ?_⟩
    rintro ⟨x, hx, hm⟩
    exact ⟨x, hx, hi hm⟩

-- If only the last name is a link, then the names before it are followed without one.
theorem MeetsLink.concat (h : t.MeetsLink p (ss ++ [s])) (hss : ¬t.MeetsLink p ss) :
    ∃ q r target, t.follow n p ss = some (n, q) ∧ t.enter q s = some r ∧ t.get r = some (.link target) := by
  induction ss generalizing p
  case nil =>
    obtain ⟨r, hr, hlink⟩ := h
    rcases hlink with ⟨target, ht⟩ | ⟨_, _, hm⟩
    case inl => exact ⟨p, r, target, follow_nil n p, hr, ht⟩
    case inr => exact hm.elim
  case cons s' ss hi =>
    obtain ⟨q, hq, hlink⟩ := h
    rcases hlink with hlink | ⟨x, hx, hm⟩
    case inl => exact absurd ⟨q, hq, .inl hlink⟩ hss
    case inr =>
      rw [follow_cons_entry hq hx]
      exact hi hm fun hm' => hss ⟨q, hq, .inr ⟨x, hx, hm'⟩⟩

end

section

variable {t : LinkedFiles} {base path full : CStr} {init : List Bytes} {last : Bytes}

theorem parts_eq (path : CStr) : parts path = segments path :=
  rfl

theorem lastPart_eq (h : segments path = init ++ [last]) : lastPart path = last := by
  rw [lastPart, parts_eq, h, List.getLast?_concat, Option.getD_some]

theorem dirOf_eq (hp : path.chars ≠ []) (h : segments path = init ++ [last]) :
    t.dirOf path = (t.follow t.maxLinks (start t.cwd path) (init ++ [[]])).map Prod.snd := by
  rw [dirOf, if_neg hp, parts_eq, h, List.dropLast_concat]

theorem dirOf_isDir {p : List CStr} (h : t.dirOf path = some p) : t.IsDir p := by
  rw [dirOf] at h
  split at h
  case isTrue => cases h
  case isFalse =>
    obtain ⟨x, hx, rfl⟩ := Option.map_eq_some_iff.mp h
    rw [follow_append] at hx
    obtain ⟨y, _, hy⟩ := Option.bind_eq_some_iff.mp hx
    rw [follow_empty] at hy
    split at hy
    case isTrue hd =>
      cases hy
      exact hd
    case isFalse => cases hy

-- The segments of a joined path are followed from where the base directory is.
theorem dirOf_join (hb : base.chars ≠ []) (h : segments path = init ++ [last]) :
    t.dirOf (base ++ separator base ++ path) =
      ((t.realPath base).bind fun x => t.follow x.1 x.2 (init ++ [[]])).map Prod.snd ∧
    lastPart (base ++ separator base ++ path) = last := by
  have hne : (base ++ separator base ++ path).chars ≠ [] := by simp [hb]
  have hstart : start t.cwd (base ++ separator base ++ path) = start t.cwd base := by
    have hhead : (base ++ separator base ++ path).chars.head? = base.chars.head? := by
      rw [CStr.chars_append, CStr.chars_append, List.append_assoc, List.head?_append_of_ne_nil _ hb]
    rw [start, start, hhead]
  rw [realPath, if_neg hb, parts_eq]
  by_cases hl : base.chars.getLast? = some slash
  case neg =>
    have hs : (base ++ separator base ++ path).chars = base.chars ++ slash :: path.chars := by
      simp [separator, hl]
      rfl
    have hseg : segments (base ++ separator base ++ path) = (segments base ++ init) ++ [last] := by
      rw [segments, hs, List.splitOn_append_cons_self, List.append_assoc, ← h]
      rfl
    refine ⟨?_, lastPart_eq hseg⟩
    rw [dirOf_eq hne hseg, hstart, List.append_assoc, follow_append]
  case pos =>
    obtain ⟨d, hdir⟩ := List.getLast?_eq_some_iff.mp hl
    have hs : (base ++ separator base ++ path).chars = d ++ slash :: path.chars := by
      simp [separator, hdir]
      rfl
    have hbase : segments base = d.splitOn slash ++ [[]] := by
      rw [segments, hdir, List.splitOn_append_cons_self]
      simp
    have hseg : segments (base ++ separator base ++ path) = (d.splitOn slash ++ init) ++ [last] := by
      rw [segments, hs, List.splitOn_append_cons_self, List.append_assoc, ← h]
      rfl
    refine ⟨?_, lastPart_eq hseg⟩
    have hskip : ∀ x : Nat × List CStr, t.follow x.1 x.2 (init ++ [[]]) =
        (t.follow x.1 x.2 [[]]).bind fun y => t.follow y.1 y.2 (init ++ [[]]) := by
      intro x
      rw [← follow_append, List.singleton_append, follow_empty_cons (by simp)]
    rw [dirOf_eq hne hseg, hstart, hbase, List.append_assoc, follow_append, follow_append, Option.bind_assoc]
    simp only [← hskip]

end

end LinkedFiles
